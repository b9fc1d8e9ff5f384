/-
**Balance and strict orders.**

In a balanced tree each node knows the depth of its tree, and the depths of its two sides differ by at most one. An
insertion makes one side deeper by at most one, and rotations make up for that. If the order is strict and total on
the values, then the tree lists them in rising order, and a value is refused only if it is there.

* `IsBalanced`, `balance_spec` — balanced trees, and what balancing makes of two of them;
* `isBalanced_of_add?` — **an insertion keeps a tree balanced**;
* `StrictOrder`, `add?_eq_none_iff` — strict total orders, and when a value is refused;
* `isBalanced_ofList`, `rising_ofList` — trees made by insertions.
-/

import Mathlib
import XPathAnnotator.Proofs.NodeSet.Sorting

namespace XPathAnnotator

namespace Balanced

variable {α : Type}

/-! ### Depths -/

/-- Whether each node knows the depth of its tree and has sides whose depths differ by at most one. -/
def IsBalanced : Balanced α → Prop
  | empty => True
  | node left _ right depth =>
    depth = max left.depth right.depth + 1 ∧ (left.depth ≤ right.depth + 1 ∧ right.depth ≤ left.depth + 1) ∧
      left.IsBalanced ∧ right.IsBalanced

instance decidableIsBalanced : (tree : Balanced α) → Decidable tree.IsBalanced
  | empty => .isTrue trivial
  | node left _ right _ =>
    haveI := decidableIsBalanced left
    haveI := decidableIsBalanced right
    inferInstanceAs (Decidable (_ ∧ _ ∧ _ ∧ _))

variable {left right : Balanced α} {value : α}

theorem depth_node (left : Balanced α) (value : α) (right : Balanced α) (depth : Nat) :
    (node left value right depth).depth = depth := rfl

theorem depth_join (left : Balanced α) (value : α) (right : Balanced α) :
    (join left value right).depth = max left.depth right.depth + 1 := rfl

theorem isBalanced_join (isLeft : left.IsBalanced) (isRight : right.IsBalanced)
    (leftBound : left.depth ≤ right.depth + 1) (rightBound : right.depth ≤ left.depth + 1) :
    (join left value right).IsBalanced :=
  ⟨rfl, ⟨leftBound, rightBound⟩, isLeft, isRight⟩

/-- Four sides joined in pairs, as a double rotation leaves them. -/
theorem isBalanced_pairs (below middle above : α) {first second : Balanced α} {depth : Nat}
    (isLeft : left.IsBalanced) (isFirst : first.IsBalanced) (isSecond : second.IsBalanced)
    (isRight : right.IsBalanced) (leftDepth : left.depth = depth) (rightDepth : right.depth = depth)
    (innerDepth : max first.depth second.depth = depth) (firstBound : first.depth ≤ second.depth + 1)
    (secondBound : second.depth ≤ first.depth + 1) :
    (join (join left below first) middle (join second above right)).IsBalanced ∧
      (join (join left below first) middle (join second above right)).depth = depth + 2 := by
  have lower := depth_join left below first
  have upper := depth_join second above right
  have whole := depth_join (join left below first) middle (join second above right)
  refine ⟨isBalanced_join (isBalanced_join isLeft isFirst ?_ ?_) (isBalanced_join isSecond isRight ?_ ?_) ?_ ?_,
    whole.trans ?_⟩ <;> omega

/-- Two sides of nearly the same depth are joined as they are. -/
theorem balance_eq_join (leftBound : left.depth ≤ right.depth + 1) (rightBound : right.depth ≤ left.depth + 1) :
    balance left value right = join left value right := by
  rw [balance, if_neg (Nat.not_lt.mpr leftBound), if_neg (Nat.not_lt.mpr rightBound)]

/-- What leans to the left is still a node. -/
theorem exists_leanLeft (outer : Balanced α) (above : α) (inner : Balanced α) (known : Nat) :
    ∃ first top second depth, (node outer above inner known).leanLeft = node first top second depth := by
  rw [leanLeft]
  split
  · cases inner <;> exact ⟨_, _, _, _, rfl⟩
  · exact ⟨_, _, _, _, rfl⟩

/-- What leans to the right is still a node. -/
theorem exists_leanRight (inner : Balanced α) (above : α) (outer : Balanced α) (known : Nat) :
    ∃ first top second depth, (node inner above outer known).leanRight = node first top second depth := by
  rw [leanRight]
  split
  · cases inner <;> exact ⟨_, _, _, _, rfl⟩
  · exact ⟨_, _, _, _, rfl⟩

/-- A left side that is too deep by one is rotated away, after its inner side if that is the deeper one. -/
theorem balance_of_left_deep (value : α) (isLeft : left.IsBalanced) (isRight : right.IsBalanced)
    (deep : left.depth = right.depth + 2) :
    (balance left value right).IsBalanced ∧ left.depth ≤ (balance left value right).depth ∧
      (balance left value right).depth ≤ left.depth + 1 := by
  rw [balance, if_pos (by omega)]
  cases left with
  | empty => exact absurd deep (Nat.succ_ne_zero _).symm
  | node outer above inner known =>
    obtain ⟨rfl, ⟨outerBound, innerBound⟩, isOuter, isInner⟩ := isLeft
    simp only [depth_node] at deep ⊢
    by_cases lean : outer.depth < inner.depth
    · rw [leanLeft, if_pos lean]
      cases inner with
      | empty => exact absurd lean (Nat.not_lt_zero _)
      | node first middle second known =>
        obtain ⟨rfl, ⟨firstBound, secondBound⟩, isFirst, isSecond⟩ := isInner
        simp only [depth_node] at deep lean innerBound outerBound ⊢
        obtain ⟨isBalanced, depth⟩ := isBalanced_pairs above middle value isOuter isFirst isSecond isRight (by omega)
          rfl (by omega) firstBound secondBound
        exact ⟨isBalanced, depth.ge.trans' (by omega), depth.le.trans (by omega)⟩
    · have lower := depth_join inner value right
      have whole := depth_join outer above (join inner value right)
      rw [leanLeft, if_neg lean]
      refine ⟨isBalanced_join isOuter (isBalanced_join isInner isRight ?_ ?_) ?_ ?_, whole.ge.trans' ?_,
        whole.le.trans ?_⟩ <;> omega

/-- The same for a right side that is too deep by one. -/
theorem balance_of_right_deep (value : α) (isLeft : left.IsBalanced) (isRight : right.IsBalanced)
    (deep : right.depth = left.depth + 2) :
    (balance left value right).IsBalanced ∧ right.depth ≤ (balance left value right).depth ∧
      (balance left value right).depth ≤ right.depth + 1 := by
  rw [balance, if_neg (by omega), if_pos (by omega)]
  cases right with
  | empty => exact absurd deep (Nat.succ_ne_zero _).symm
  | node inner above outer known =>
    obtain ⟨rfl, ⟨innerBound, outerBound⟩, isInner, isOuter⟩ := isRight
    simp only [depth_node] at deep ⊢
    by_cases lean : outer.depth < inner.depth
    · rw [leanRight, if_pos lean]
      cases inner with
      | empty => exact absurd lean (Nat.not_lt_zero _)
      | node first middle second known =>
        obtain ⟨rfl, ⟨firstBound, secondBound⟩, isFirst, isSecond⟩ := isInner
        simp only [depth_node] at deep lean innerBound outerBound ⊢
        obtain ⟨isBalanced, depth⟩ := isBalanced_pairs value middle above isLeft isFirst isSecond isOuter rfl
          (by omega) (by omega) firstBound secondBound
        exact ⟨isBalanced, depth.ge.trans' (by omega), depth.le.trans (by omega)⟩
    · have lower := depth_join left value inner
      have whole := depth_join (join left value inner) above outer
      rw [leanRight, if_neg lean]
      refine ⟨isBalanced_join (isBalanced_join isLeft isInner ?_ ?_) isOuter ?_ ?_, whole.ge.trans' ?_,
        whole.le.trans ?_⟩ <;> omega

/-- **Balancing** two balanced sides whose depths differ by at most two. -/
theorem balance_spec (value : α) (isLeft : left.IsBalanced) (isRight : right.IsBalanced)
    (leftBound : left.depth ≤ right.depth + 2) (rightBound : right.depth ≤ left.depth + 2) :
    (balance left value right).IsBalanced ∧ max left.depth right.depth ≤ (balance left value right).depth ∧
      (balance left value right).depth ≤ max left.depth right.depth + 1 := by
  rcases Nat.lt_or_ge (right.depth + 1) left.depth with leftDeep | leftFlat
  · have deep : left.depth = right.depth + 2 := by omega
    obtain ⟨isBalanced, lower, upper⟩ := balance_of_left_deep value isLeft isRight deep
    exact ⟨isBalanced, by omega, by omega⟩
  rcases Nat.lt_or_ge (left.depth + 1) right.depth with rightDeep | rightFlat
  · have deep : right.depth = left.depth + 2 := by omega
    obtain ⟨isBalanced, lower, upper⟩ := balance_of_right_deep value isLeft isRight deep
    exact ⟨isBalanced, by omega, by omega⟩
  · rw [balance_eq_join leftFlat rightFlat, depth_join]
    exact ⟨isBalanced_join isLeft isRight leftFlat rightFlat, Nat.le_succ _, Nat.le_refl _⟩

/-- **Balancing makes up for growth**: of two sides whose depths differed by at most one, one has got deeper by at most
one. -/
theorem balance_of_grown (value : α) (isLeft : left.IsBalanced) (isRight : right.IsBalanced) {before behind : Nat}
    (leftBound : before ≤ behind + 1) (rightBound : behind ≤ before + 1) (leftGrown : before ≤ left.depth)
    (rightGrown : behind ≤ right.depth) (byOne : left.depth + right.depth ≤ before + behind + 1) :
    (balance left value right).IsBalanced ∧ max before behind + 1 ≤ (balance left value right).depth ∧
      (balance left value right).depth ≤ max before behind + 1 + 1 := by
  obtain ⟨isBalanced, lower, upper⟩ := balance_spec value isLeft isRight (by omega) (by omega)
  refine ⟨isBalanced, ?_, by omega⟩
  by_cases flat : left.depth ≤ right.depth + 1 ∧ right.depth ≤ left.depth + 1
  · rw [balance_eq_join flat.1 flat.2, depth_join]
    omega
  · omega

/-- **An insertion keeps a tree balanced** and makes it deeper by at most one. -/
theorem isBalanced_of_add? {order : α → α → Ordering} {new : α} {tree grown : Balanced α}
    (isBalanced : tree.IsBalanced) (added : tree.add? order new = some grown) :
    grown.IsBalanced ∧ tree.depth ≤ grown.depth ∧ grown.depth ≤ tree.depth + 1 := by
  induction tree generalizing grown with
  | empty =>
    obtain rfl := Option.some.inj added
    exact ⟨⟨rfl, ⟨Nat.zero_le _, Nat.zero_le _⟩, trivial, trivial⟩, Nat.zero_le _, Nat.le_refl _⟩
  | node left value right known ihLeft ihRight =>
    obtain ⟨rfl, ⟨leftBound, rightBound⟩, isLeft, isRight⟩ := isBalanced
    rcases add?_node_eq_some_iff.mp added with ⟨-, side, addedSide, rfl⟩ | ⟨-, side, addedSide, rfl⟩
    · obtain ⟨isGrown, lower, upper⟩ := ihLeft isLeft addedSide
      exact balance_of_grown value isGrown isRight leftBound rightBound lower (Nat.le_refl _) (by omega)
    · obtain ⟨isGrown, lower, upper⟩ := ihRight isRight addedSide
      exact balance_of_grown value isLeft isGrown leftBound rightBound (Nat.le_refl _) lower (by omega)

/-! ### Strict total orders -/

/-- An order that is strict and total on the values of a kind. -/
structure StrictOrder (order : α → α → Ordering) (kind : α → Prop) : Prop where
  eq_iff : ∀ a b, kind a → kind b → (order a b = .eq ↔ a = b)
  gt_iff : ∀ a b, kind a → kind b → (order a b = .gt ↔ order b a = .lt)
  trans : ∀ a b c, kind a → kind b → kind c → order a b = .lt → order b c = .lt → order a c = .lt

/-- A tree that lists values of a kind in rising order. -/
structure Rising (order : α → α → Ordering) (kind : α → Prop) (tree : Balanced α) : Prop where
  known : ∀ x ∈ tree.toList, kind x
  sorted : tree.toList.Pairwise fun a b => order a b = .lt

/-- An order that a key tells is strict and total. -/
theorem Keyed.strictOrder {β : Type} [LinearOrder β] {order : α → α → Ordering} {key : α → β} {kind : α → Prop}
    (keyed : Keyed order key kind) : StrictOrder order kind where
  eq_iff := keyed.eq
  gt_iff a b isA isB := (keyed.gt a b isA isB).trans (keyed.lt b a isB isA).symm
  trans a b c isA isB isC less next :=
    (keyed.lt a c isA isC).mpr (((keyed.lt a b isA isB).mp less).trans ((keyed.lt b c isB isC).mp next))

section StrictOrder

variable {order : α → α → Ordering} {kind : α → Prop} (strict : StrictOrder order kind) {new : α} (isKind : kind new)

include strict isKind

theorem StrictOrder.irrefl : order new new ≠ .lt := by
  rw [(strict.eq_iff new new isKind isKind).mpr rfl]
  simp

theorem StrictOrder.fits {row : List α} (known : ∀ x ∈ row, kind x) :
    Fits order (fun a b => order a b = .lt) row new :=
  ⟨fun _ _ less => less, fun x met => (strict.gt_iff new x isKind (known x met)).mp,
    fun x metX y metY => strict.trans new x y isKind (known x metX) (known y metY),
    fun x metX y metY => strict.trans x y new (known x metX) (known y metY) isKind⟩

/-- An inserted value keeps a tree rising, and was not in it. -/
theorem Rising.of_add? {tree grown : Balanced α} (rising : Rising order kind tree)
    (added : tree.add? order new = some grown) :
    Rising order kind grown ∧ new ∉ tree.toList ∧ ∀ x, x ∈ grown.toList ↔ x = new ∨ x ∈ tree.toList := by
  have fits := strict.fits isKind rising.known
  obtain ⟨front, back, same, -, below, above⟩ := exists_split_of_add? fits rising.sorted added
  have members := mem_toList_of_add? fits rising.sorted added
  refine ⟨⟨fun x met => ?_, pairwise_of_add? fits rising.sorted added⟩, fun there => ?_, members⟩
  · rcases (members x).mp met with rfl | met
    · exact isKind
    · exact rising.known x met
  · rw [same, List.mem_append] at there
    rcases there with there | there
    · exact strict.irrefl isKind (below new there)
    · exact strict.irrefl isKind (above new there)

/-- **A value is refused** if and only if it is there. -/
theorem Rising.add?_eq_none_iff {tree : Balanced α} (rising : Rising order kind tree) :
    tree.add? order new = none ↔ new ∈ tree.toList := by
  refine ⟨mem_of_add?_eq_none fun x met => (strict.eq_iff new x isKind (rising.known x met)).mp, fun there => ?_⟩
  cases added : tree.add? order new with
  | none => rfl
  | some grown => exact absurd there (rising.of_add? strict isKind added).2.1

end StrictOrder

/-! ### Trees made by insertions -/

section OfList

variable {order : α → α → Ordering} {kind : α → Prop} {values : List α}

theorem ofList_append_singleton (values : List α) (new : α) :
    ofList order (values ++ [new]) = (ofList order values).add order new := List.foldl_concat ..

theorem isBalanced_ofList : (ofList order values).IsBalanced := by
  induction values using List.reverseRecOn with
  | nil => trivial
  | append_singleton values new ih =>
    rw [ofList_append_singleton, add]
    cases added : (ofList order values).add? order new with
    | none => exact ih
    | some grown => exact (isBalanced_of_add? ih added).1

/-- **Values are listed in rising order**, each of those inserted. -/
theorem rising_ofList (strict : StrictOrder order kind) (known : ∀ x ∈ values, kind x) :
    Rising order kind (ofList order values) ∧ ∀ x, x ∈ (ofList order values).toList ↔ x ∈ values := by
  induction values using List.reverseRecOn with
  | nil => exact ⟨⟨fun _ met => absurd met List.not_mem_nil, List.Pairwise.nil⟩, fun _ => Iff.rfl⟩
  | append_singleton values new ih =>
    rw [List.forall_mem_append, List.forall_mem_singleton] at known
    obtain ⟨rising, members⟩ := ih known.1
    rw [ofList_append_singleton, add]
    cases added : (ofList order values).add? order new with
    | none =>
      have there := (rising.add?_eq_none_iff strict known.2).mp added
      refine ⟨rising, fun x => ?_⟩
      rw [Option.getD_none, members, List.mem_append, List.mem_singleton, iff_self_or]
      rintro rfl
      exact (members x).mp there
    | some grown =>
      obtain ⟨risingGrown, _, grows⟩ := rising.of_add? strict known.2 added
      refine ⟨risingGrown, fun x => ?_⟩
      rw [Option.getD_some, grows, members, List.mem_append, List.mem_singleton, or_comm]

end OfList

end Balanced

end XPathAnnotator
