/-
**Climbing decides by the addresses.**

Two nodes are compared by their ancestors: the deeper one climbs first, then both until they have one parent.
In a linked forest this finds the place where their addresses part, so the comparison is that of the addresses.

* `Genuine` — the nodes that the comparison is about: attributes stand among those of their element;
* `orderOfLineages_eq` — two different nodes of one depth;
* `orderByAncestors_eq` — any two different nodes of a tree.
-/

import Mathlib
import XPathAnnotator.Proofs.Tree.Preorder

namespace XPathAnnotator

namespace Forest

/-- Whether a node stands where its kind belongs: an attribute or a namespace node with a record counts only
among the attributes of its parent. -/
def Genuine (f : Forest) (n : Node) : Prop :=
  match n with
  | .item _ => (f.kind n).isAttributeLike = true → f.listed n = true
  | .binding _ _ => True

instance (f : Forest) : (n : Node) → Decidable (f.Genuine n)
  | .item id => inferInstanceAs
      (Decidable ((f.kind (.item id)).isAttributeLike = true → f.listed (.item id) = true))
  | .binding _ _ => inferInstanceAs (Decidable True)

variable {f : Forest}

/-! ### Lists of one length -/

theorem append_lt_append_iff {l k s t : List Nat} (even : l.length = k.length) (apart : l ≠ k) :
    l ++ s < k ++ t ↔ l < k := by
  induction l generalizing k with
  | nil => exact absurd (List.length_eq_zero_iff.mp even.symm).symm apart
  | cons x l ih =>
    cases k with
    | nil => exact absurd even (Nat.succ_ne_zero _)
    | cons y k =>
      rw [List.cons_append, List.cons_append, List.cons_lt_cons_iff, List.cons_lt_cons_iff]
      by_cases same : x = y
      · subst same
        have tails : l ≠ k := fun same => apart (congrArg (x :: ·) same)
        rw [ih (Nat.succ.inj even) tails]
      · simp only [same, false_and, or_false]

theorem append_left_lt_iff {l s t : List Nat} : l ++ s < l ++ t ↔ s < t := by
  induction l with
  | nil => rfl
  | cons x l ih =>
    rw [List.cons_append, List.cons_append, List.cons_lt_cons_iff]
    simp only [Nat.lt_irrefl, true_and, false_or]
    exact ih

theorem pair_lt_pair_iff {x y i j : Nat} : [x, i] < [y, j] ↔ x < y ∨ x = y ∧ i < j := by
  rw [List.cons_lt_cons_iff, List.cons_lt_cons_iff]
  simp only [List.not_lt_nil, and_false, or_false]

/-! ### Genuine nodes -/

/-- Elements and documents are genuine. -/
theorem genuine_of_hangs {p : Nat} {c : Node} (hangs : f.Hangs p c) : f.Genuine (.item p) := by
  intro like
  rcases hangs.kind with kind | kind
  · rw [kind] at like
    exact absurd like (by decide)
  · rw [kind] at like
    exact absurd like (by decide)

theorem Linked.genuine_parent (linked : f.Linked) {n : Node} {p : Nat} (inside : f.Has n)
    (parent : f.parent? n = some p) : f.Genuine (.item p) :=
  genuine_of_hangs (hangs_of_parent linked inside parent)

/-- The rank of a genuine node tells where it hangs. -/
theorem Linked.spot_eq (linked : f.Linked) {n : Node} {p : Nat} (genuine : f.Genuine n)
    (parent : f.parent? n = some p) : f.spot n = [f.rank n, f.index n] := by
  cases n with
  | binding owner index => rfl
  | item id =>
    cases among : f.listed (.item id) with
    | true =>
      obtain ⟨i, found⟩ := Array.mem_iff_getElem?.mp ((listed_eq_true parent).mp among)
      obtain ⟨_, -, -, -, kind⟩ := linked.ofAttribute _ _ _ found
      have rank : f.rank (.item id) = 1 := by rw [rank, kind]
      rw [spot, among, rank]
      rfl
    | false =>
      have plain : (f.kind (.item id)).isAttributeLike ≠ true := by
        intro like
        rw [genuine like] at among
        exact absurd among (by decide)
      have rank : f.rank (.item id) = 2 := by
        unfold Forest.rank
        generalize f.kind (.item id) = kind at plain
        cases kind <;> first | rfl | exact absurd rfl plain
      rw [spot, among, rank]
      rfl

/-- Under one parent the spots decide. -/
theorem Linked.orderUnderParent_eq (linked : f.Linked) {a b : Node} {p : Nat} (genuineA : f.Genuine a)
    (genuineB : f.Genuine b) (parentA : f.parent? a = some p) (parentB : f.parent? b = some p) :
    f.orderUnderParent a b = if f.spot a < f.spot b then .lt else .gt := by
  rw [linked.spot_eq genuineA parentA, linked.spot_eq genuineB parentB, orderUnderParent]
  simp only [pair_lt_pair_iff]
  rcases Nat.lt_trichotomy (f.rank a) (f.rank b) with less | same | greater
  · rw [if_pos less, if_pos (.inl less)]
  · have notLess : ¬ f.rank a < f.rank b := by omega
    have notGreater : ¬ f.rank b < f.rank a := by omega
    rw [if_neg notLess, if_neg notGreater]
    simp only [same, Nat.lt_irrefl, true_and, false_or]
  · have notLess : ¬ f.rank a < f.rank b := by omega
    have notBefore : ¬ (f.rank a < f.rank b ∨ f.rank a = f.rank b ∧ f.index a < f.index b) := by omega
    rw [if_neg notLess, if_pos greater, if_neg notBefore]

/-! ### Nodes of one depth -/

theorem lineage_eq_cons (n : Node) : f.lineage n = n :: f.ancestors n := rfl

/-- **At one depth the addresses decide.** -/
theorem Linked.orderOfLineages_eq (linked : f.Linked) {a b : Node} (insideA : f.Has a) (insideB : f.Has b)
    (genuineA : f.Genuine a) (genuineB : f.Genuine b) (tree : f.root a = f.root b)
    (level : (f.ancestors a).length = (f.ancestors b).length) (apart : a ≠ b) :
    f.orderOfLineages (f.lineage a) (f.lineage b) = if f.address a < f.address b then .lt else .gt := by
  induction deep : (f.ancestors a).length generalizing a b with
  | zero =>
    have top : ∀ {n}, (f.ancestors n).length = 0 → f.root n = n := by
      intro n none
      rw [root, List.length_eq_zero_iff.mp none]
      rfl
    rw [top deep, top (level.symm.trans deep)] at tree
    exact absurd tree apart
  | succ depth ih =>
    have parented : ∀ {n}, (f.ancestors n).length = depth + 1 → ∃ p, f.parent? n = some p := by
      intro n below
      cases parent : f.parent? n with
      | none =>
        rw [ancestors_eq_nil parent] at below
        exact absurd below.symm (Nat.succ_ne_zero _)
      | some p => exact ⟨p, rfl⟩
    obtain ⟨p, parentA⟩ := parented deep
    obtain ⟨q, parentB⟩ := parented (level.symm.trans deep)
    have depthP : (f.ancestors (.item p)).length = depth := by
      rw [linked.ancestors_eq parentA, List.length_cons] at deep
      exact Nat.succ.inj deep
    have depthQ : (f.ancestors (.item q)).length = depth := by
      rw [level, linked.ancestors_eq parentB, List.length_cons] at deep
      exact Nat.succ.inj deep
    rw [linked.lineage_eq parentA, linked.lineage_eq parentB, lineage_eq_cons (.item p),
      lineage_eq_cons (.item q), orderOfLineages, ← lineage_eq_cons, ← lineage_eq_cons,
      linked.address_eq parentA, linked.address_eq parentB]
    by_cases meet : p = q
    · subst meet
      rw [if_pos rfl, linked.orderUnderParent_eq genuineA genuineB parentA parentB]
      simp only [append_left_lt_iff]
    · have different : Node.item p ≠ Node.item q := fun same => meet (Node.item.inj same)
      have knownP : f.Has (.item p) := insideA.parent linked parentA
      have knownQ : f.Has (.item q) := insideB.parent linked parentB
      have above : f.root (.item p) = f.root (.item q) := by
        rw [← linked.root_eq parentA, ← linked.root_eq parentB]
        exact tree
      have even : (f.address (.item p)).length = (f.address (.item q)).length := by
        rw [linked.length_address, linked.length_address, depthP, depthQ]
      have addresses : f.address (.item p) ≠ f.address (.item q) :=
        fun same => different (linked.address_inj knownP knownQ above same)
      rw [if_neg different, ih knownP knownQ (linked.genuine_parent insideA parentA)
        (linked.genuine_parent insideB parentB) above (depthP.trans depthQ.symm) different depthP]
      simp only [append_lt_append_iff even addresses]

/-! ### Nodes of different depths -/

/-- What climbing a number of steps leads to: a node higher up. -/
theorem Linked.exists_above (linked : f.Linked) {n : Node} {steps : Nat} (inside : f.Has n)
    (genuine : f.Genuine n) (short : steps ≤ (f.ancestors n).length) :
    ∃ c s, (f.lineage n).drop steps = f.lineage c ∧ f.address n = f.address c ++ s ∧
      (f.ancestors n).length = (f.ancestors c).length + steps ∧ f.root c = f.root n ∧ f.Has c ∧
      f.Genuine c := by
  induction steps generalizing n with
  | zero => exact ⟨n, [], rfl, (List.append_nil _).symm, rfl, rfl, inside, genuine⟩
  | succ steps ih =>
    cases parent : f.parent? n with
    | none =>
      rw [ancestors_eq_nil parent] at short
      exact absurd short (Nat.not_succ_le_zero _)
    | some p =>
      rw [linked.ancestors_eq parent, List.length_cons] at short ⊢
      obtain ⟨c, s, dropped, address, depth, tree, known, real⟩ :=
        ih (inside.parent linked parent) (linked.genuine_parent inside parent) (Nat.le_of_succ_le_succ short)
      refine ⟨c, s ++ f.spot n, ?_, ?_, ?_, ?_, known, real⟩
      · rw [linked.lineage_eq parent, List.drop_succ_cons]
        exact dropped
      · rw [linked.address_eq parent, address, List.append_assoc]
      · rw [depth]
        rfl
      · rw [linked.root_eq parent]
        exact tree

theorem length_lineage (n : Node) : (f.lineage n).length = (f.ancestors n).length + 1 := rfl

/-- A deeper node after climbing to the depth of another one. -/
theorem Linked.exists_level (linked : f.Linked) {a b : Node} (insideA : f.Has a) (genuineA : f.Genuine a)
    (deeper : (f.lineage b).length < (f.lineage a).length) :
    ∃ c s, (f.lineage a).drop ((f.lineage a).length - (f.lineage b).length) = f.lineage c ∧
      f.address a = f.address c ++ s ∧ s ≠ [] ∧ (f.ancestors c).length = (f.ancestors b).length ∧
      f.root c = f.root a ∧ f.Has c ∧ f.Genuine c := by
  rw [length_lineage, length_lineage] at deeper ⊢
  obtain ⟨c, s, dropped, address, depth, tree, known, real⟩ :=
    linked.exists_above insideA genuineA
      (show (f.ancestors a).length + 1 - ((f.ancestors b).length + 1) ≤ (f.ancestors a).length by omega)
  have level : (f.ancestors c).length = (f.ancestors b).length := by omega
  refine ⟨c, s, dropped, address, ?_, level, tree, known, real⟩
  rintro rfl
  have even := congrArg List.length address
  rw [List.append_nil, linked.length_address, linked.length_address] at even
  omega

/-- **Climbing decides by the addresses.** -/
theorem Linked.orderByAncestors_eq (linked : f.Linked) {a b : Node} (insideA : f.Has a) (insideB : f.Has b)
    (genuineA : f.Genuine a) (genuineB : f.Genuine b) (tree : f.root a = f.root b) (apart : a ≠ b) :
    f.orderByAncestors a b = if f.address a < f.address b then .lt else .gt := by
  rw [orderByAncestors]
  dsimp only
  by_cases deeperA : (f.lineage b).length < (f.lineage a).length
  · rw [if_pos deeperA]
    obtain ⟨c, s, dropped, address, more, level, above, known, real⟩ :=
      linked.exists_level insideA genuineA deeperA
    rw [dropped, lineage_eq_cons c, List.head?_cons, ← lineage_eq_cons, address]
    by_cases same : c = b
    · subst same
      rw [if_pos rfl, if_neg (lt_append more).asymm]
    · have even : (f.address c).length = (f.address b).length := by
        rw [linked.length_address, linked.length_address, level]
      have addresses : f.address c ≠ f.address b :=
        fun equal => same (linked.address_inj known insideB (above.trans tree) equal)
      have flat := append_lt_append_iff (s := s) (t := []) even addresses
      rw [List.append_nil] at flat
      rw [if_neg fun found => same (Option.some.inj found),
        linked.orderOfLineages_eq known insideB real genuineB (above.trans tree) level same]
      simp only [flat]
  rw [if_neg deeperA]
  by_cases deeperB : (f.lineage a).length < (f.lineage b).length
  · rw [if_pos deeperB]
    obtain ⟨c, s, dropped, address, more, level, above, known, real⟩ :=
      linked.exists_level insideB genuineB deeperB
    rw [dropped, lineage_eq_cons c, List.head?_cons, ← lineage_eq_cons, address]
    by_cases same : c = a
    · subst same
      rw [if_pos rfl, if_pos (lt_append more)]
    · have even : (f.address a).length = (f.address c).length := by
        rw [linked.length_address, linked.length_address, level]
      have addresses : f.address a ≠ f.address c :=
        fun equal => same (linked.address_inj insideA known (tree.trans above.symm) equal).symm
      have flat := append_lt_append_iff (s := []) (t := s) even addresses
      rw [List.append_nil] at flat
      rw [if_neg fun found => same (Option.some.inj found),
        linked.orderOfLineages_eq insideA known genuineA real (tree.trans above.symm) level.symm
          (Ne.symm same)]
      simp only [flat]
  · rw [if_neg deeperB]
    have level : (f.ancestors a).length = (f.ancestors b).length := by
      rw [length_lineage, length_lineage] at deeperA deeperB
      omega
    exact linked.orderOfLineages_eq insideA insideB genuineA genuineB tree level apart

end Forest

end XPathAnnotator
