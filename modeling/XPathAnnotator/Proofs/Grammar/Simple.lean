/-
**Simple grammars.**

A grammar is simple if the terminals that may stand after the left sides of its productions keep the actions of
every state apart, whatever the state expects. `Numbered.isSimple` decides this on rows of binary digits: bounds
for the first terminals and for the terminals after each symbol, and sets of items, one of which covers each
state of the automaton.

* `Starts.bounded`, `Expects.bounded` — what starts a symbol and what is expected stays within the bounds;
* `exists_cover` — the items of every state are within a set in which no two actions meet.
-/

import Mathlib
import XPathAnnotator.Proofs.Grammar.Decided

namespace XPathAnnotator.Grammar

open Automaton (Explored)

/-! ### Rows of binary digits -/

theorem testBit_of_lor_eq {a b i : Nat} (within : a ||| b = b) (set : a.testBit i = true) :
    b.testBit i = true := by
  rw [← within, Nat.testBit_or, set, Bool.true_or]

theorem not_testBit_of_land_eq_zero {a b i : Nat} (apart : a &&& b = 0) (set : a.testBit i = true) :
    b.testBit i = false := by
  have both := Nat.testBit_and a b i
  rw [apart, Nat.zero_testBit, set, Bool.true_and] at both
  exact both.symm

theorem testBit_one_shiftLeft {i : Nat} : (1 <<< i).testBit i = true := by
  rw [Nat.testBit_shiftLeft]
  simp

namespace Numbered

/-- The place of an item in a set of items; those of productions of up to seven symbols differ. -/
def place (item : Item) : Nat := 8 * item.production + item.dot

/-- The places of the items with the symbols next. -/
def occurrences (n : Numbered) : List (Nat × Nat) :=
  n.productions.toList.zipIdx.flatMap fun (p, k) => p.right.zipIdx.map fun (x, d) => (place ⟨k, d⟩, x)

/-- The items that have a symbol next. -/
def before (n : Numbered) (x : Nat) : Nat :=
  n.occurrences.foldr (fun occurrence set =>
    bif occurrence.2 == x then set ||| 1 <<< occurrence.1 else set) 0

/-- The items at the start of the productions of a symbol. -/
def starting (n : Numbered) (b : Nat) : Nat :=
  n.productions.toList.zipIdx.foldr (fun (p, k) set =>
    bif p.left == b then set ||| 1 <<< place ⟨k, 0⟩ else set) 0

/-- A set that is made of the digits of chosen entries has the digit of each of them. -/
theorem testBit_foldr_of_mem {α : Type} (chosen : α → Bool) (digit : α → Nat) {entries : List α} {entry : α}
    (member : entry ∈ entries) (isChosen : chosen entry = true) :
    (entries.foldr (fun entry set => bif chosen entry then set ||| 1 <<< digit entry else set) 0).testBit
      (digit entry) = true := by
  induction entries with
  | nil => exact absurd member List.not_mem_nil
  | cons first rest ih =>
    rw [List.foldr_cons]
    rcases List.mem_cons.mp member with rfl | member
    · rw [isChosen, cond_true, Nat.testBit_or, testBit_one_shiftLeft, Bool.or_true]
    · cases chosen first with
      | true => rw [cond_true, Nat.testBit_or, ih member, Bool.true_or]
      | false => exact ih member

variable {n : Numbered}

theorem mem_zipIdx_productions {k : Nat} {p : NumberedProduction} (found : n.productions[k]? = some p) :
    (p, k) ∈ n.productions.toList.zipIdx := by
  rw [List.mem_zipIdx_iff_getElem?, Array.getElem?_toList]
  exact found

theorem testBit_before {item : Item} {x : Nat} (next : n.nextSymbol? item = some x) :
    (n.before x).testBit (place item) = true := by
  obtain ⟨p, found, atDot⟩ := nextSymbol?_eq_some.mp next
  have occurs : (place item, x) ∈ n.occurrences := by
    refine List.mem_flatMap.mpr ⟨(p, item.production), mem_zipIdx_productions found, ?_⟩
    exact List.mem_map.mpr ⟨(x, item.dot), List.mem_zipIdx_iff_getElem?.mpr atDot, rfl⟩
  exact testBit_foldr_of_mem (fun occurrence : Nat × Nat => occurrence.2 == x) Prod.fst occurs
    (beq_self_eq_true x)

theorem testBit_starting {k : Nat} {p : NumberedProduction} (found : n.productions[k]? = some p) :
    (n.starting p.left).testBit (place ⟨k, 0⟩) = true :=
  testBit_foldr_of_mem (fun pair : NumberedProduction × Nat => pair.1.left == p.left)
    (fun pair => place ⟨pair.2, 0⟩) (mem_zipIdx_productions found) (beq_self_eq_true p.left)

/-! ### First terminals -/

/-- The digits of one number in a row of sets. -/
abbrev row (sets : List Nat) (x : Nat) : Nat := sets.getD x 0

/-- One round of adding the first terminals of right sides to their left sides. -/
def firstRound (n : Numbered) (firsts : List Nat) : List Nat :=
  n.productions.toList.foldr (fun p firsts =>
    match p.right with
    | [] => firsts
    | s :: _ => firsts.modify p.left (· ||| row firsts s)) firsts

/-- The first terminals of each symbol, as far as some rounds find them. -/
def firstRows (n : Numbered) (rounds : Nat) : List Nat :=
  Nat.repeat n.firstRound rounds
    ((List.range n.symbolCount).map fun s => bif n.isNonterminal s then 0 else 1 <<< s)

/-- Whether a row of sets bounds the first terminals of each symbol. -/
def boundsFirst (n : Numbered) (firsts : List Nat) : Bool :=
  ((List.range n.symbolCount).all fun s => n.isNonterminal s || (row firsts s).testBit s) &&
    n.productions.toList.all fun p =>
      match p.right with
      | [] => true
      | s :: _ => (row firsts s ||| row firsts p.left) == row firsts p.left

theorem Starts.bounded (proper : n.Proper) {firsts : List Nat} (bounds : n.boundsFirst firsts = true)
    {s x : Nat} (starts : n.Starts s x) : (row firsts s).testBit x = true := by
  obtain ⟨terminals, rules⟩ := Bool.and_eq_true_iff.mp bounds
  induction starts with
  | @terminal x isTerminal =>
    obtain ⟨above, below⟩ := proper.mem_terminal.mp isTerminal
    have known := List.all_eq_true.mp terminals x (List.mem_range.mpr below)
    rcases Bool.or_eq_true_iff.mp known with isNonterminal | set
    · exact absurd (of_decide_eq_true isNonterminal) (Nat.not_lt.mpr above)
    · exact set
  | @production k p s rest x found shape _ ih =>
    have known := List.all_eq_true.mp rules p (Array.mem_toList_iff.mpr (Array.mem_of_getElem? found))
    rw [shape] at known
    exact testBit_of_lor_eq (beq_iff_eq.mp known) ih

/-! ### Terminals after a symbol -/

/-- What stands after a place of a production: the first terminals of the next symbol, or what stands after
the left side. -/
def after (firsts follows : List Nat) (p : NumberedProduction) (d : Nat) : Nat :=
  match p.right[d + 1]? with
  | some s => row firsts s
  | none => row follows p.left

/-- One round of adding what stands after the symbols of right sides. -/
def followRound (n : Numbered) (firsts follows : List Nat) : List Nat :=
  n.productions.toList.foldl (fun follows p =>
    p.right.zipIdx.foldl (fun follows (b, d) => follows.modify b (· ||| after firsts follows p d)) follows)
    follows

/-- What stands after each symbol, as far as some rounds find it. -/
def followRows (n : Numbered) (rounds : Nat) : List Nat :=
  Nat.repeat (n.followRound (n.firstRows rounds)) rounds
    ((List.replicate n.nonterminalCount 0).modify 0 fun _ => 1 <<< n.endMark)

/-- Whether a row of sets bounds the terminals after each nonterminal. -/
def boundsFollow (n : Numbered) (firsts follows : List Nat) : Bool :=
  (row follows 0).testBit n.endMark &&
    n.productions.toList.all fun p => p.right.zipIdx.all fun (b, d) =>
      !n.isNonterminal b || (after firsts follows p d ||| row follows b) == row follows b

section Follow

variable {a : Automaton} {firsts follows : List Nat}

theorem testBit_after (proper : n.Proper) (boundsFirst : n.boundsFirst firsts = true) {item : Item}
    {p : NumberedProduction} (found : n.productions[item.production]? = some p) {x y : Nat}
    (expected : (row follows p.left).testBit y = true) (ends : n.Follows y (n.restAfterNext item) x) :
    (after firsts follows p item.dot).testBit x = true := by
  rw [restAfterNext_eq found] at ends
  unfold after
  generalize rest : p.right.drop (item.dot + 1) = symbols at ends
  have next : p.right[item.dot + 1]? = symbols.head? := by rw [← rest, List.head?_drop]
  cases ends with
  | inherited =>
    rw [next]
    exact expected
  | started starts =>
    rw [next]
    exact starts.bounded proper boundsFirst

end Follow

/-! ### Sets of items -/

/-- For each nonterminal the items that have it next, and those at the start of its productions. -/
def openings (n : Numbered) : List (Nat × Nat) :=
  (List.range n.nonterminalCount).map fun b => (n.before b, n.starting b)

/-- A set of items with what the openings of its next symbols add. -/
def opened (openings : List (Nat × Nat)) (items : Nat) : Nat :=
  openings.foldl (fun more (mask, set) => bif more &&& mask == 0 then more else more ||| set) items

/-- For each nonterminal the items that have it next, and all that start with it, as far as some rounds find
them. -/
def deepOpenings (n : Numbered) (rounds : Nat) : List (Nat × Nat) :=
  n.openings.map fun (mask, set) => (mask, Nat.repeat (opened n.openings) rounds set)

/-- The items that have each symbol next. -/
def masks (n : Numbered) : List Nat := (List.range n.symbolCount).map n.before

/-- The sets of items that reading a symbol leads to. -/
def stepsFrom (masks : List Nat) (openings : List (Nat × Nat)) (items : Nat) : List Nat :=
  masks.foldr (fun mask rest =>
    bif items &&& mask == 0 then rest else opened openings ((items &&& mask) <<< 1) :: rest) []

/-- The numbers of a list that are not known. -/
def unknown (known : List Nat) : List Nat → List Nat
  | [] => []
  | c :: cs => bif known.any (· == c) then unknown known cs else c :: unknown (c :: known) cs

/-- Whether all sets of items that are reached from those to do, and not known, are quiet. -/
def explores (quiet : Nat → Bool) (steps : Nat → List Nat) (known todo : List Nat) : Nat → Bool
  | 0 => todo.isEmpty
  | fuel + 1 =>
    match todo with
    | [] => true
    | items :: todo =>
      let new := unknown known (steps items)
      quiet items && explores quiet steps (new ++ known) (todo ++ new) fuel

/-- For each production the place of the item at its end, and what stands after its left side. -/
def endings (n : Numbered) (follows : List Nat) : List (Nat × Nat) :=
  n.productions.toList.zipIdx.map fun (p, k) => (place ⟨k, p.right.length⟩, row follows p.left)

/-- The terminals that the items of a set have next. -/
def shifting (n : Numbered) (items : Nat) : Nat :=
  (List.range n.symbolCount).foldr (fun x set =>
    bif !n.isNonterminal x && (items &&& n.before x) != 0 then set ||| 1 <<< x else set) 0

/-- Whether the endings that are in a set of items have nothing in common with each other and with what is
taken. -/
def apart (items : Nat) : List (Nat × Nat) → Nat → Bool
  | [], _ => true
  | (at_, terminals) :: rest, taken =>
    bif items.testBit at_ then taken &&& terminals == 0 && apart items rest (taken ||| terminals)
    else apart items rest taken

/-- Whether a set of items holds all that its next symbols start, and no two actions meet in it. -/
def isQuiet (n : Numbered) (follows : List Nat) (items : Nat) : Bool :=
  (n.openings.all fun (mask, set) => items &&& mask == 0 || (set ||| items) == items) &&
    apart items (n.endings follows) (n.shifting items)

/-- Whether a grammar is simple, as far as some rounds and some steps of exploration tell. -/
def isSimple (n : Numbered) (rounds fuel : Nat) : Bool :=
  n.boundsFirst (n.firstRows rounds) &&
    (n.boundsFollow (n.firstRows rounds) (n.followRows rounds) &&
      let start := opened (n.deepOpenings rounds) (1 <<< place ⟨0, 0⟩)
      explores (n.isQuiet (n.followRows rounds)) (stepsFrom n.masks (n.deepOpenings rounds)) [start] [start] fuel)

/-! ### Exploring sets of items -/

theorem testBit_opened {openings : List (Nat × Nat)} {items i : Nat} (set : items.testBit i = true) :
    (opened openings items).testBit i = true := by
  unfold opened
  induction openings generalizing items with
  | nil => exact set
  | cons opening openings ih =>
    obtain ⟨mask, more⟩ := opening
    rw [List.foldl_cons]
    refine ih ?_
    dsimp only
    cases items &&& mask == 0 with
    | true => exact set
    | false => rw [cond_false, Nat.testBit_or, set, Bool.true_or]

/-- Reading a symbol leads to a set with the advanced items. -/
theorem exists_mem_stepsFrom {masks : List Nat} (openings : List (Nat × Nat)) {items mask : Nat}
    (member : mask ∈ masks) {i : Nat} (inItems : items.testBit i = true) (inMask : mask.testBit i = true) :
    ∃ d ∈ stepsFrom masks openings items,
      ∀ j, items.testBit j = true → mask.testBit j = true → d.testBit (j + 1) = true := by
  unfold stepsFrom
  induction masks with
  | nil => exact absurd member List.not_mem_nil
  | cons first rest ih =>
    rw [List.foldr_cons]
    rcases List.mem_cons.mp member with rfl | member
    · have both : (items &&& mask == 0) = false := by
        rw [beq_eq_false_iff_ne]
        intro empty
        rw [not_testBit_of_land_eq_zero empty inItems] at inMask
        exact absurd inMask (by simp)
      rw [both, cond_false]
      refine ⟨_, List.mem_cons_self, fun j inItems inMask => testBit_opened ?_⟩
      rw [Nat.testBit_shiftLeft, Nat.add_sub_cancel, Nat.testBit_and, inItems, inMask]
      simp
    · obtain ⟨d, reached, holds⟩ := ih member
      refine ⟨d, ?_, holds⟩
      cases items &&& first == 0 with
      | true => exact reached
      | false => exact List.mem_cons_of_mem _ reached

theorem mem_or_mem_unknown (known : List Nat) {cs : List Nat} {c : Nat} (member : c ∈ cs) :
    c ∈ known ∨ c ∈ unknown known cs := by
  induction cs generalizing known with
  | nil => exact absurd member List.not_mem_nil
  | cons first cs ih =>
    rw [unknown]
    cases seen : known.any (· == first) with
    | true =>
      rw [cond_true]
      rcases List.mem_cons.mp member with rfl | member
      · obtain ⟨other, inKnown, same⟩ := List.any_eq_true.mp seen
        exact Or.inl (beq_iff_eq.mp same ▸ inKnown)
      · exact ih known member
    | false =>
      rw [cond_false]
      rcases List.mem_cons.mp member with rfl | member
      · exact Or.inr List.mem_cons_self
      · rcases ih (first :: known) member with old | new
        · rcases List.mem_cons.mp old with rfl | old
          · exact Or.inr List.mem_cons_self
          · exact Or.inl old
        · exact Or.inr (List.mem_cons_of_mem _ new)

/-- **An exploration that succeeds finds quiet sets only**, and all that they lead to. -/
theorem exists_of_explores {quiet : Nat → Bool} {steps : Nat → List Nat} {known todo : List Nat} {fuel : Nat}
    (explored : explores quiet steps known todo fuel = true)
    (done : ∀ c ∈ known, c ∈ todo ∨ (quiet c = true ∧ ∀ d ∈ steps c, d ∈ known)) :
    ∃ all : List Nat, (∀ c ∈ known, c ∈ all) ∧ ∀ c ∈ all, quiet c = true ∧ ∀ d ∈ steps c, d ∈ all := by
  have finished : todo = [] → ∃ all : List Nat, (∀ c ∈ known, c ∈ all) ∧
      ∀ c ∈ all, quiet c = true ∧ ∀ d ∈ steps c, d ∈ all := by
    rintro rfl
    exact ⟨known, fun c member => member, fun c member => (done c member).resolve_left List.not_mem_nil⟩
  induction fuel generalizing known todo with
  | zero => exact finished (List.isEmpty_iff.mp explored)
  | succ fuel ih =>
    cases todo with
    | nil => exact finished rfl
    | cons items todo =>
      obtain ⟨isQuiet, more⟩ := Bool.and_eq_true_iff.mp explored
      have next : ∀ c ∈ unknown known (steps items) ++ known, c ∈ todo ++ unknown known (steps items) ∨
          (quiet c = true ∧ ∀ d ∈ steps c, d ∈ unknown known (steps items) ++ known) := by
        intro c member
        rcases List.mem_append.mp member with new | old
        · exact Or.inl (List.mem_append_right _ new)
        · rcases done c old with waiting | ⟨quietC, closed⟩
          · rcases List.mem_cons.mp waiting with rfl | waiting
            · refine Or.inr ⟨isQuiet, fun d reached => ?_⟩
              exact List.mem_append.mpr (mem_or_mem_unknown known reached).symm
            · exact Or.inl (List.mem_append_left _ waiting)
          · exact Or.inr ⟨quietC, fun d reached => List.mem_append_right _ (closed d reached)⟩
      obtain ⟨all, within, holds⟩ := ih more next (by
        intro empty
        exact ⟨_, fun c member => member, fun c member => (next c member).resolve_left (by simp [empty])⟩)
      exact ⟨all, fun c member => within c (List.mem_append_right _ member), holds⟩

/-! ### Quiet sets -/

theorem apart_taken {items : Nat} {endings : List (Nat × Nat)} {taken : Nat}
    (isApart : apart items endings taken = true) {ending : Nat × Nat} (member : ending ∈ endings)
    (inItems : items.testBit ending.1 = true) {x : Nat} (isTaken : taken.testBit x = true) :
    ending.2.testBit x = false := by
  induction endings generalizing taken with
  | nil => exact absurd member List.not_mem_nil
  | cons first rest ih =>
    rw [apart] at isApart
    rcases List.mem_cons.mp member with rfl | member
    · rw [inItems, cond_true, Bool.and_eq_true_iff, beq_iff_eq] at isApart
      exact not_testBit_of_land_eq_zero isApart.1 isTaken
    · cases inFirst : items.testBit first.1 with
      | true =>
        rw [inFirst, cond_true, Bool.and_eq_true_iff] at isApart
        exact ih isApart.2 member (by rw [Nat.testBit_or, isTaken, Bool.true_or])
      | false =>
        rw [inFirst, cond_false] at isApart
        exact ih isApart member isTaken

/-- Two endings of a set that are apart and share a terminal are at one place of the list. -/
theorem pairwise_of_apart {items : Nat} {endings : List (Nat × Nat)} {taken : Nat}
    (isApart : apart items endings taken = true) :
    endings.Pairwise fun one other => items.testBit one.1 = true → items.testBit other.1 = true →
      ∀ x, one.2.testBit x = true → other.2.testBit x = false := by
  induction endings generalizing taken with
  | nil => exact List.Pairwise.nil
  | cons first rest ih =>
    rw [apart] at isApart
    cases inFirst : items.testBit first.1 with
    | true =>
      rw [inFirst, cond_true, Bool.and_eq_true_iff] at isApart
      refine List.pairwise_cons.mpr ⟨fun other member _ inOther x inTerminals => ?_, ih isApart.2⟩
      exact apart_taken isApart.2 member inOther (by rw [Nat.testBit_or, inTerminals, Bool.or_true])
    | false =>
      rw [inFirst, cond_false] at isApart
      exact List.pairwise_cons.mpr ⟨fun other _ present => absurd (inFirst.symm.trans present) (by simp),
        ih isApart⟩

/-- A set of items in which no two actions meet. -/
structure Quiet (n : Numbered) (follows : List Nat) (items : Nat) : Prop where
  opens : ∀ b < n.nonterminalCount, ∀ i, items.testBit i = true → (n.before b).testBit i = true →
    ∀ j, (n.starting b).testBit j = true → items.testBit j = true
  shiftReduce : ∀ {item : Item} {k x : Nat} {p : NumberedProduction}, items.testBit (place item) = true →
    n.nextSymbol? item = some x → n.isNonterminal x = false → x < n.symbolCount →
      n.productions[k]? = some p → items.testBit (place ⟨k, p.right.length⟩) = true →
        (row follows p.left).testBit x = false
  reduceReduce : ∀ {j k : Nat} {p q : NumberedProduction}, j < k → n.productions[j]? = some p →
    n.productions[k]? = some q → items.testBit (place ⟨j, p.right.length⟩) = true →
      items.testBit (place ⟨k, q.right.length⟩) = true →
        ∀ x, (row follows p.left).testBit x = true → (row follows q.left).testBit x = false

theorem testBit_shifting {items : Nat} {item : Item} (inItems : items.testBit (place item) = true) {x : Nat}
    (next : n.nextSymbol? item = some x) (isTerminal : n.isNonterminal x = false) (below : x < n.symbolCount) :
    (n.shifting items).testBit x = true := by
  refine testBit_foldr_of_mem (fun x => !n.isNonterminal x && (items &&& n.before x) != 0) id
    (List.mem_range.mpr below) ?_
  rw [isTerminal, Bool.not_false, Bool.true_and, bne_iff_ne]
  intro empty
  have absent := not_testBit_of_land_eq_zero empty inItems
  rw [testBit_before next] at absent
  exact absurd absent (by simp)

theorem endings_getElem? (follows : List Nat) {k : Nat} {p : NumberedProduction}
    (found : n.productions[k]? = some p) :
    (n.endings follows)[k]? = some (place ⟨k, p.right.length⟩, row follows p.left) := by
  unfold endings
  rw [List.getElem?_map, List.getElem?_zipIdx, Array.getElem?_toList, found]
  simp

theorem quiet_of_isQuiet {follows : List Nat} {items : Nat} (isQuiet : n.isQuiet follows items = true) :
    n.Quiet follows items := by
  obtain ⟨opens, isApart⟩ := Bool.and_eq_true_iff.mp isQuiet
  refine ⟨fun b below i inItems inMask j inStart => ?_, ?_, ?_⟩
  · have known := List.all_eq_true.mp opens (n.before b, n.starting b)
      (List.mem_map.mpr ⟨b, List.mem_range.mpr below, rfl⟩)
    rcases Bool.or_eq_true_iff.mp known with empty | within
    · have absent := not_testBit_of_land_eq_zero (beq_iff_eq.mp empty) inItems
      rw [inMask] at absent
      exact absurd absent (by simp)
    · exact testBit_of_lor_eq (beq_iff_eq.mp within) inStart
  · intro item k x p inItems next isTerminal below found atEnd
    exact apart_taken isApart (List.mem_of_getElem? (endings_getElem? follows found)) atEnd
      (testBit_shifting inItems next isTerminal below)
  · intro j k p q earlier foundP foundQ atP atQ
    have pairs := List.pairwise_iff_getElem.mp (pairwise_of_apart isApart)
    obtain ⟨insideP, sameP⟩ := List.getElem?_eq_some_iff.mp (endings_getElem? follows foundP)
    obtain ⟨insideQ, sameQ⟩ := List.getElem?_eq_some_iff.mp (endings_getElem? follows foundQ)
    have holds := pairs j k insideP insideQ earlier
    rw [sameP, sameQ] at holds
    exact holds atP atQ

end Numbered

/-! ### States within the bounds -/

section States

variable {n : Numbered} {a : Automaton}

/-- **What is expected after an item may stand after the left side of its production.** -/
theorem Expects.bounded (proper : n.Proper) {firsts follows : List Nat}
    (boundsFirst : n.boundsFirst firsts = true) (boundsFollow : n.boundsFollow firsts follows = true)
    {k x : Nat} {item : Item} (expects : Expects n a k item x) {p : NumberedProduction}
    (found : n.productions[item.production]? = some p) :
    (Numbered.row follows p.left).testBit x = true := by
  obtain ⟨atEnd, rules⟩ := Bool.and_eq_true_iff.mp boundsFollow
  induction expects generalizing p with
  | start =>
    obtain ⟨s, implicit⟩ := proper.implicit
    obtain rfl := Option.some.inj (implicit.symm.trans found)
    exact atEnd
  | @spread k i b y x item q _ next foundQ left ends ih =>
    obtain rfl := Option.some.inj (foundQ.symm.trans found)
    obtain ⟨r, foundR, atDot⟩ := Numbered.nextSymbol?_eq_some.mp next
    have inAfter := Numbered.testBit_after proper boundsFirst foundR (ih foundR) ends
    have known := List.all_eq_true.mp
      (List.all_eq_true.mp rules r (Array.mem_toList_iff.mpr (Array.mem_of_getElem? foundR)))
      (b, item.dot) (List.mem_zipIdx_iff_getElem?.mpr atDot)
    have isNonterminal : n.isNonterminal b = true := decide_eq_true (left ▸ proper.left_lt foundQ)
    dsimp only at known
    rw [isNonterminal, Bool.not_true, Bool.false_or, beq_iff_eq] at known
    rw [left]
    exact testBit_of_lor_eq known inAfter
  | advance _ _ ih => exact ih found

/-- A set of items covers a state. -/
def Covers (n : Numbered) (items : Nat) (kernel : List Item) : Prop :=
  ∀ item ∈ n.itemsOf kernel, items.testBit (Numbered.place item) = true

/-- A quiet set with the kernel of a state covers the state. -/
theorem Numbered.Quiet.covers (proper : n.Proper) {follows : List Nat} {items : Nat}
    (quiet : n.Quiet follows items) {kernel : List Item}
    (within : ∀ item ∈ kernel, items.testBit (Numbered.place item) = true) : Covers n items kernel := by
  have reached : ∀ b, n.Reaches kernel b →
      ∃ i, items.testBit i = true ∧ (n.before b).testBit i = true := by
    intro b reaches
    induction reaches with
    | @kernel item b member next _ => exact ⟨_, within item member, Numbered.testBit_before next⟩
    | @production k p b found reaches head _ ih =>
      obtain ⟨i, inItems, inMask⟩ := ih
      refine ⟨Numbered.place ⟨k, 0⟩, quiet.opens p.left (proper.left_lt found) i inItems inMask _
        (Numbered.testBit_starting found), Numbered.testBit_before ?_⟩
      exact Numbered.nextSymbol?_eq_some.mpr ⟨p, found, by rw [← List.head?_eq_getElem?, head]⟩
  intro item member
  rcases Numbered.mem_itemsOf.mp member with inKernel | ⟨atStart, p, found, reaches⟩
  · exact within item inKernel
  · obtain ⟨i, inItems, inMask⟩ := reached p.left reaches
    have started := quiet.opens p.left (proper.left_lt found) i inItems inMask _
      (Numbered.testBit_starting found)
    rw [← atStart] at started
    exact started

/-- **The items of every state of a simple grammar are within a quiet set.** -/
theorem exists_cover (proper : n.Proper) (explored : Explored n a) {rounds fuel : Nat}
    (simple : n.isSimple rounds fuel = true) {k : Nat} {kernel : List Item}
    (atState : a.kernels[k]? = some kernel) :
    ∃ items, n.Quiet (n.followRows rounds) items ∧ Covers n items kernel := by
  obtain ⟨_, simple⟩ := Bool.and_eq_true_iff.mp simple
  obtain ⟨_, simple⟩ := Bool.and_eq_true_iff.mp simple
  obtain ⟨all, starts, holds⟩ := Numbered.exists_of_explores simple
    fun c member => Or.inl member
  have quiet : ∀ c ∈ all, n.Quiet (n.followRows rounds) c :=
    fun c member => Numbered.quiet_of_isQuiet (holds c member).1
  suffices ∃ items ∈ all, ∀ item ∈ kernel, items.testBit (Numbered.place item) = true by
    obtain ⟨items, member, within⟩ := this
    exact ⟨items, quiet items member, (quiet items member).covers proper within⟩
  induction k using Nat.strong_induction_on generalizing kernel with
  | _ k ih =>
    rcases Nat.eq_zero_or_pos k with rfl | positive
    · obtain rfl := Option.some.inj (explored.start.symm.trans atState)
      refine ⟨_, starts _ (List.mem_singleton_self _), fun item member => ?_⟩
      rw [List.mem_singleton.mp member]
      exact Numbered.testBit_opened testBit_one_shiftLeft
    · obtain ⟨j, earlier, x, target⟩ := explored.origin k positive (Array.getElem?_eq_some_iff.mp atState).1
      obtain ⟨before, atBefore, below, nonempty, reached⟩ := explored.target target
      obtain ⟨items, member, within⟩ := ih j earlier atBefore
      have covers := (quiet items member).covers proper within
      obtain ⟨first, inFirst⟩ := List.exists_mem_of_ne_nil _ nonempty
      obtain ⟨origin, inBefore, next, rfl⟩ := Numbered.mem_advance.mp inFirst
      obtain ⟨d, inSteps, moved⟩ := Numbered.exists_mem_stepsFrom (n.deepOpenings rounds)
        (List.mem_map.mpr ⟨x, List.mem_range.mpr below, rfl⟩) (covers origin inBefore)
        (Numbered.testBit_before next)
      refine ⟨d, (holds items member).2 d inSteps, fun item inKernel => ?_⟩
      obtain ⟨origin', inBefore', next', rfl⟩ :=
        (explored.mem_target_iff atBefore target atState).mp inKernel
      exact moved _ (covers origin' inBefore') (Numbered.testBit_before next')

end States

end XPathAnnotator.Grammar
