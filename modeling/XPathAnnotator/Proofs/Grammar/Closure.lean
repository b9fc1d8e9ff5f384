/-
**The closure of a kernel with look-aheads.**

`Spreads` says which terminals a kernel with look-aheads expects after the productions that start within
its state: a terminal expected after an item is handed on to the productions of the nonterminal that the
item has next, or replaced by the first terminals of what stands between.

* `mem_spread` — the computed look-aheads are exactly those that spread;
* `mem_closure` — the closure is the kernel and the productions of what is reached, each with what spreads
  to its left side;
* `Closes.spreads` — what is expected after an item of the closure spreads to its next symbol.
-/

import Mathlib
import XPathAnnotator.Grammar.Lookahead
import XPathAnnotator.Proofs.Grammar.First
import XPathAnnotator.Proofs.Grammar.Items

namespace XPathAnnotator.Grammar

/-- The sets of a spread as one row. -/
def Spread.row (s : Spread) : Array SymbolSet := s.lookaheads.push s.reached

theorem Spread.row_injective : Function.Injective Spread.row := by
  intro first second same
  cases first
  cases second
  obtain ⟨reached, lookaheads⟩ := Array.push_eq_push.mp same
  simp_all

namespace Numbered

/-- The terminals expected after the productions of the nonterminals that start within the state of a
kernel with look-aheads. -/
inductive Spreads (g : Numbered) (kernel : List (Item × SymbolSet)) : Nat → Nat → Prop
  | kernel {item : Item} {lookaheads : SymbolSet} {b y x : Nat} :
      (item, lookaheads) ∈ kernel → g.nextSymbol? item = some b → b < g.nonterminalCount →
        y ∈ lookaheads → g.Follows y (g.restAfterNext item) x → Spreads g kernel b x
  | production {k : Nat} {p : NumberedProduction} {b : Nat} {rest : List Nat} {y x : Nat} :
      g.productions[k]? = some p → p.right = b :: rest → b < g.nonterminalCount →
        Spreads g kernel p.left y → g.Follows y rest x → Spreads g kernel b x

variable {g : Numbered}

/-! ### Noting a symbol -/

section Note

variable {s : Spread} {symbol : Option Nat} {more : SymbolSet}

theorem mem_note_lookaheads {b x : Nat} :
    x ∈ setAt (g.note s symbol more).lookaheads b ↔ x ∈ setAt s.lookaheads b ∨
      (symbol = some b ∧ b < g.nonterminalCount ∧ b < s.lookaheads.size ∧ x ∈ more) := by
  unfold note isNonterminal
  cases symbol with
  | none => simp
  | some a =>
    simp only [decide_eq_true_eq, Option.some.injEq]
    split
    · rename_i below
      rw [mem_setAt_modify_union]
      constructor
      · rintro (old | ⟨rfl, inside, new⟩)
        · exact Or.inl old
        · exact Or.inr ⟨rfl, below, inside, new⟩
      · rintro (old | ⟨rfl, _, inside, new⟩)
        · exact Or.inl old
        · exact Or.inr ⟨rfl, inside, new⟩
    · rename_i above
      constructor
      · exact Or.inl
      · rintro (old | ⟨rfl, below, _⟩)
        · exact old
        · exact absurd below above

theorem mem_note_reached {b : Nat} :
    b ∈ (g.note s symbol more).reached ↔ b ∈ s.reached ∨ (symbol = some b ∧ b < g.nonterminalCount) := by
  unfold note isNonterminal
  cases symbol with
  | none => simp
  | some a =>
    simp only [decide_eq_true_eq, Option.some.injEq]
    split
    · rename_i below
      rw [SymbolSet.mem_insert]
      constructor
      · rintro (old | rfl)
        · exact Or.inl old
        · exact Or.inr ⟨rfl, below⟩
      · rintro (old | ⟨rfl, _⟩)
        · exact Or.inl old
        · exact Or.inr rfl
    · rename_i above
      constructor
      · exact Or.inl
      · rintro (old | ⟨rfl, below⟩)
        · exact old
        · exact absurd below above

theorem size_note : (g.note s symbol more).lookaheads.size = s.lookaheads.size := by
  unfold note
  cases symbol with
  | none => rfl
  | some a =>
    dsimp only
    split
    · exact Array.size_modify
    · rfl

/-- Noting a symbol only adds members. -/
theorem grows_note : Grows s.row (g.note s symbol more).row := by
  refine ⟨by simp [Spread.row, size_note], fun i x member => ?_⟩
  rw [Spread.row, mem_setAt_push] at member ⊢
  rw [size_note]
  rcases member with old | ⟨last, old⟩
  · exact Or.inl (mem_note_lookaheads.mpr (Or.inl old))
  · exact Or.inr ⟨last, mem_note_reached.mpr (Or.inl old)⟩

theorem bounded_note (proper : g.Proper) {count : Nat} (within : Bounded count (g.symbolCount + 1) s.row)
    (few : ∀ x ∈ more, x < g.symbolCount + 1) :
    Bounded count (g.symbolCount + 1) (g.note s symbol more).row := by
  refine ⟨grows_note.size_eq.trans within.size_eq, fun i x member => ?_⟩
  rw [Spread.row, mem_setAt_push, size_note] at member
  have old : ∀ y, y ∈ setAt s.row i → y < g.symbolCount + 1 := within.lt_of_mem i
  simp only [Spread.row, mem_setAt_push] at old
  rcases member with inRow | ⟨last, inReached⟩
  · rcases mem_note_lookaheads.mp inRow with before | ⟨_, _, _, new⟩
    · exact old x (Or.inl before)
    · exact few x new
  · rcases mem_note_reached.mp inReached with before | ⟨_, below⟩
    · exact old x (Or.inr ⟨last, before⟩)
    · have := proper.nonterminalCount_le
      omega

end Note

/-! ### What is found is right -/

/-- A spread that holds nothing that the kernel does not lead to. -/
structure Sound (g : Numbered) (kernel : List (Item × SymbolSet)) (s : Spread) : Prop where
  size_eq : s.lookaheads.size = g.nonterminalCount
  spreads : ∀ b x : Nat, x ∈ setAt s.lookaheads b → g.Spreads kernel b x
  reaches : ∀ b : Nat, b ∈ s.reached → g.Reaches (kernel.map Prod.fst) b
  reached : ∀ b x : Nat, x ∈ setAt s.lookaheads b → b ∈ s.reached

theorem Sound.note {kernel : List (Item × SymbolSet)} {s : Spread} (sound : g.Sound kernel s)
    {symbol : Option Nat} {more : SymbolSet}
    (right : ∀ b, symbol = some b → b < g.nonterminalCount →
      (∀ x ∈ more, g.Spreads kernel b x) ∧ g.Reaches (kernel.map Prod.fst) b) :
    g.Sound kernel (g.note s symbol more) := by
  refine ⟨size_note.trans sound.size_eq, fun b x member => ?_, fun b member => ?_, fun b x member => ?_⟩
  · rcases mem_note_lookaheads.mp member with old | ⟨next, below, _, new⟩
    · exact sound.spreads b x old
    · exact (right b next below).1 x new
  · rcases mem_note_reached.mp member with old | ⟨next, below⟩
    · exact sound.reaches b old
    · exact (right b next below).2
  · refine mem_note_reached.mpr ?_
    rcases mem_note_lookaheads.mp member with old | ⟨next, below, _⟩
    · exact Or.inl (sound.reached b x old)
    · exact Or.inr ⟨next, below⟩

/-- One update of a spread: that of a kernel item. -/
def seedUpdate (g : Numbered) (sets : Array SymbolSet) (s : Spread) (pair : Item × SymbolSet) : Spread :=
  g.note s (g.nextSymbol? pair.1) (following sets (g.restAfterNext pair.1) pair.2)

/-- One update of a spread: that of a production. -/
def spreadUpdate (g : Numbered) (sets : Array SymbolSet) (s : Spread) (p : NumberedProduction) : Spread :=
  if (setAt s.lookaheads p.left).isEmpty then s
  else g.note s p.right.head? (following sets p.right.tail (setAt s.lookaheads p.left))

theorem spreadSeeds_eq (sets : Array SymbolSet) (kernel : List (Item × SymbolSet)) :
    g.spreadSeeds sets kernel =
      kernel.foldl (g.seedUpdate sets) ⟨.empty, Array.replicate g.nonterminalCount .empty⟩ := rfl

theorem spreadStep_eq (sets : Array SymbolSet) (s : Spread) :
    g.spreadStep sets s = g.productions.toList.foldl (g.spreadUpdate sets) s := by
  rw [spreadStep, ← Array.foldl_toList]
  rfl

theorem sound_seeds (proper : g.Proper) (kernel : List (Item × SymbolSet)) :
    g.Sound kernel (g.spreadSeeds g.first kernel) := by
  rw [spreadSeeds_eq]
  refine foldl_induction (P := g.Sound kernel) ?_ ?_
  · rintro s ⟨item, lookaheads⟩ member sound
    refine sound.note fun b next below => ⟨fun x inMore => ?_, ?_⟩
    · obtain ⟨y, expected, follows⟩ := (mem_following proper).mp inMore
      exact .kernel member next below expected follows
    · exact .kernel (List.mem_map.mpr ⟨_, member, rfl⟩) next below
  · refine ⟨Array.size_replicate, fun b x member => ?_, fun b member => ?_, fun b x member => ?_⟩
    · rw [setAt_replicate] at member
      exact absurd member (SymbolSet.not_mem_empty x)
    · exact absurd member (SymbolSet.not_mem_empty b)
    · rw [setAt_replicate] at member
      exact absurd member (SymbolSet.not_mem_empty x)

theorem Sound.update (proper : g.Proper) {kernel : List (Item × SymbolSet)} {s : Spread}
    (sound : g.Sound kernel s) {k : Nat} {p : NumberedProduction} (found : g.productions[k]? = some p) :
    g.Sound kernel (g.spreadUpdate g.first s p) := by
  unfold spreadUpdate
  split
  · exact sound
  · rename_i notEmpty
    obtain ⟨z, some⟩ := SymbolSet.isEmpty_eq_false_iff.mp (Bool.not_eq_true _ ▸ notEmpty)
    refine sound.note fun b next below => ⟨fun x inMore => ?_, ?_⟩
    · obtain ⟨y, expected, follows⟩ := (mem_following proper).mp inMore
      obtain ⟨rest, shape⟩ := List.head?_eq_some_iff.mp next
      rw [shape] at follows
      exact .production found shape below (sound.spreads _ y expected) follows
    · exact .production found (sound.reaches _ (sound.reached _ z some)) next below

theorem sound_spread (proper : g.Proper) (kernel : List (Item × SymbolSet)) :
    g.Sound kernel (g.spread g.first kernel) := by
  refine saturate_induction (P := g.Sound kernel) ?_ _ (sound_seeds proper kernel)
  intro s sound
  rw [spreadStep_eq]
  refine foldl_induction (P := g.Sound kernel) ?_ sound
  intro s p inList sound
  obtain ⟨k, inside, rfl⟩ := List.getElem_of_mem inList
  exact sound.update (k := k) proper (by simp)

/-! ### All is found -/

theorem grows_seedUpdate (sets : Array SymbolSet) (s : Spread) (pair : Item × SymbolSet) :
    Grows s.row (g.seedUpdate sets s pair).row := grows_note

theorem grows_spreadUpdate (sets : Array SymbolSet) (s : Spread) (p : NumberedProduction) :
    Grows s.row (g.spreadUpdate sets s p).row := by
  unfold spreadUpdate
  split
  · exact Grows.refl _
  · exact grows_note

theorem grows_spreadStep (sets : Array SymbolSet) (s : Spread) :
    Grows s.row (g.spreadStep sets s).row := by
  rw [spreadStep_eq]
  exact grows_foldl Spread.row (grows_spreadUpdate sets) g.productions.toList s

/-- Followers of bounded look-aheads are bounded. -/
theorem lt_of_mem_following (proper : g.Proper) {rest : List Nat} {lookaheads : SymbolSet}
    (few : ∀ x ∈ lookaheads, x < g.symbolCount + 1) :
    ∀ x ∈ following g.first rest lookaheads, x < g.symbolCount + 1 := by
  intro x member
  obtain ⟨y, expected, follows⟩ := (mem_following proper).mp member
  cases follows with
  | inherited => exact few x expected
  | started starts =>
    have := (proper.mem_terminal.mp starts.mem_terminal).2
    omega

/-- The row of a spread has a place for each nonterminal and one for what is reached. -/
abbrev RowBounded (g : Numbered) (s : Spread) : Prop :=
  Bounded (g.nonterminalCount + 1) (g.symbolCount + 1) s.row

theorem bounded_seeds (proper : g.Proper) {kernel : List (Item × SymbolSet)}
    (few : ∀ pair ∈ kernel, ∀ x ∈ pair.2, x < g.symbolCount + 1) :
    g.RowBounded (g.spreadSeeds g.first kernel) := by
  rw [spreadSeeds_eq]
  refine foldl_induction (P := g.RowBounded) ?_ ?_
  · intro s pair member within
    exact bounded_note proper within (lt_of_mem_following proper (few pair member))
  · refine ⟨by simp [Spread.row], fun i x member => ?_⟩
    rw [Spread.row, mem_setAt_push, setAt_replicate] at member
    rcases member with none | ⟨_, none⟩
    · exact absurd none (SymbolSet.not_mem_empty x)
    · exact absurd none (SymbolSet.not_mem_empty x)

theorem bounded_spreadStep (proper : g.Proper) {s : Spread} (within : g.RowBounded s) :
    g.RowBounded (g.spreadStep g.first s) := by
  rw [spreadStep_eq]
  refine foldl_induction (P := g.RowBounded) ?_ within
  intro s p _ within
  unfold spreadUpdate
  split
  · exact within
  · refine bounded_note proper within (lt_of_mem_following proper fun x member => ?_)
    refine within.lt_of_mem p.left x ?_
    rw [Spread.row, mem_setAt_push]
    exact Or.inl member

theorem spreadStep_spread (proper : g.Proper) {kernel : List (Item × SymbolSet)}
    (few : ∀ pair ∈ kernel, ∀ x ∈ pair.2, x < g.symbolCount + 1) :
    g.spreadStep g.first (g.spread g.first kernel) = g.spread g.first kernel :=
  saturate_fixed Spread.row (g.nonterminalCount + 1) (g.symbolCount + 1) Spread.row_injective
    (fun _ within => bounded_spreadStep proper within) (grows_spreadStep g.first)
    (bounded_seeds proper few) (Nat.lt_succ_self _)

/-- The look-aheads of a row that has grown are still there. -/
theorem mem_lookaheads_of_grows {first second : Spread} (grows : Grows first.row second.row) {b x : Nat}
    (member : x ∈ setAt first.lookaheads b) : x ∈ setAt second.lookaheads b := by
  have inside := lt_size_of_mem member
  have sizes := grows.size_eq
  simp only [Spread.row, Array.size_push] at sizes
  have carried := grows.mem b x (mem_setAt_push.mpr (Or.inl member))
  rw [Spread.row, mem_setAt_push] at carried
  refine carried.resolve_right fun last => ?_
  omega

/-- What a kernel item hands to its next symbol is among the seeds. -/
theorem mem_seeds (proper : g.Proper) {kernel : List (Item × SymbolSet)} {item : Item}
    {lookaheads : SymbolSet} {b y x : Nat} (member : (item, lookaheads) ∈ kernel)
    (next : g.nextSymbol? item = some b) (below : b < g.nonterminalCount) (expected : y ∈ lookaheads)
    (follows : g.Follows y (g.restAfterNext item) x) :
    x ∈ setAt (g.spreadSeeds g.first kernel).lookaheads b := by
  rw [spreadSeeds_eq]
  obtain ⟨before, after, rfl⟩ := List.append_of_mem member
  rw [List.foldl_append, List.foldl_cons]
  refine mem_lookaheads_of_grows (grows_foldl Spread.row (grows_seedUpdate g.first) after _) ?_
  refine mem_note_lookaheads.mpr (Or.inr ⟨next, below, ?_, (mem_following proper).mpr ⟨y, expected, follows⟩⟩)
  have sizes := (grows_foldl Spread.row (grows_seedUpdate (g := g) g.first) before
    ⟨.empty, Array.replicate g.nonterminalCount .empty⟩).size_eq
  simp only [Spread.row, Array.size_push, Array.size_replicate] at sizes
  omega

/-- **The computed look-aheads are exactly those that spread.** -/
theorem mem_spread (proper : g.Proper) {kernel : List (Item × SymbolSet)}
    (few : ∀ pair ∈ kernel, ∀ x ∈ pair.2, x < g.symbolCount + 1) {b x : Nat} :
    x ∈ setAt (g.spread g.first kernel).lookaheads b ↔ g.Spreads kernel b x := by
  refine ⟨(sound_spread proper kernel).spreads b x, fun spreads => ?_⟩
  induction spreads with
  | @kernel item lookaheads b y x member next below expected follows =>
    refine saturate_induction (P := fun s : Spread => x ∈ setAt s.lookaheads b) ?_ _
      (mem_seeds proper member next below expected follows)
    exact fun s old => mem_lookaheads_of_grows (grows_spreadStep g.first s) old
  | @production k p b rest y x found shape below _ follows ih =>
    have fixed := spreadStep_spread proper few
    rw [spreadStep_eq] at fixed
    have member : p ∈ g.productions.toList := by
      rw [Array.mem_toList_iff]
      exact Array.mem_of_getElem? found
    rw [← update_eq_of_foldl_eq Spread.row Spread.row_injective (grows_spreadUpdate g.first) fixed p member]
    unfold spreadUpdate
    rw [if_neg (Bool.not_eq_true _ ▸ SymbolSet.isEmpty_eq_false_iff.mpr ⟨y, ih⟩)]
    refine mem_note_lookaheads.mpr (Or.inr ⟨by simp [shape], below, ?_, ?_⟩)
    · rw [(sound_spread proper kernel).size_eq]
      exact below
    · rw [shape]
      exact (mem_following proper).mpr ⟨y, ih, follows⟩

/-! ### The items of the closure -/

/-- A kernel with look-aheads as states have it: its items are valid, only that of the implicit production
has its dot at the start, and its look-aheads are symbols or the placeholder. -/
structure Fit (g : Numbered) (kernel : List (Item × SymbolSet)) : Prop where
  valid : ∀ pair ∈ kernel, g.ValidItem pair.1
  started : ∀ pair ∈ kernel, pair.1.dot = 0 → pair.1.production = 0
  few : ∀ pair ∈ kernel, ∀ x ∈ pair.2, x < g.symbolCount + 1

/-- The symbol of the implicit production is never reached. -/
theorem Reaches.ne_zero (proper : g.Proper) {kernel : List Item} {b : Nat} (reaches : g.Reaches kernel b) :
    b ≠ 0 := by
  cases reaches with
  | kernel _ next _ =>
    obtain ⟨p, found, atDot⟩ := nextSymbol?_eq_some.mp next
    exact proper.right_ne_zero found b (List.mem_of_getElem? atDot)
  | production found _ head _ =>
    exact proper.right_ne_zero found b (List.mem_of_mem_head? head)

/-- The items of the closure that belong to one production. -/
def closureRow (s : Spread) (kernel : List (Item × SymbolSet)) (k : Nat) (p : NumberedProduction) :
    List (Item × SymbolSet) :=
  let own := kernel.filter (·.1.production == k)
  if s.reached.contains p.left then
    let inherited := setAt s.lookaheads p.left
    match own with
    | (⟨_, 0⟩, lookaheads) :: rest => (⟨k, 0⟩, lookaheads.union inherited) :: rest
    | _ => (⟨k, 0⟩, inherited) :: own
  else own

theorem closure_eq (kernel : List (Item × SymbolSet)) :
    g.closure g.first kernel = (List.range g.productions.size).flatMap fun k =>
      match g.productions[k]? with
      | none => kernel.filter (·.1.production == k)
      | some p => closureRow (g.spread g.first kernel) kernel k p := by
  unfold closure
  refine congrArg (fun row => List.flatMap row (List.range g.productions.size)) (funext fun k => ?_)
  cases g.productions[k]? with
  | none => rfl
  | some p =>
    dsimp only [closureRow]
    split
    · cases kernel.filter (·.1.production == k) with
      | nil => rfl
      | cons pair rest =>
        obtain ⟨⟨_, dot⟩, _⟩ := pair
        cases dot with
        | zero => rfl
        | succ dot => rfl
    · rfl

theorem mem_closureRow (proper : g.Proper) {kernel : List (Item × SymbolSet)} (fit : g.Fit kernel)
    {k : Nat} {p : NumberedProduction} (found : g.productions[k]? = some p) {pair : Item × SymbolSet} :
    pair ∈ closureRow (g.spread g.first kernel) kernel k p ↔
      (pair ∈ kernel ∧ pair.1.production = k) ∨
        (pair.1 = ⟨k, 0⟩ ∧ p.left ∈ (g.spread g.first kernel).reached ∧
          pair.2 = setAt (g.spread g.first kernel).lookaheads p.left) := by
  have own : pair ∈ kernel.filter (·.1.production == k) ↔ pair ∈ kernel ∧ pair.1.production = k := by
    simp
  unfold closureRow
  dsimp only
  split
  · rename_i inside
    rw [SymbolSet.contains_iff] at inside
    split
    · -- A kernel item at the start is that of the implicit production, which is never reached.
      rename_i k' lookaheads rest shape
      have member : (⟨k', 0⟩, lookaheads) ∈ kernel.filter (·.1.production == k) := by
        rw [shape]
        exact List.mem_cons_self
      obtain ⟨inKernel, same⟩ := List.mem_filter.mp member
      have same : k' = k := by simpa using same
      have atZero : k' = 0 := fit.started _ inKernel rfl
      obtain ⟨s, implicit⟩ := proper.implicit
      rw [← same, atZero, implicit] at found
      obtain rfl := Option.some.inj found
      exact absurd rfl (((sound_spread proper kernel).reaches _ inside).ne_zero proper)
    · rw [List.mem_cons, own, or_comm]
      refine or_congr_right ⟨?_, ?_⟩
      · rintro rfl
        exact ⟨rfl, inside, rfl⟩
      · rintro ⟨item, _, lookaheads⟩
        exact Prod.ext item lookaheads
  · rename_i outside
    rw [SymbolSet.contains_iff] at outside
    rw [own]
    constructor
    · exact Or.inl
    · rintro (old | ⟨_, inside, _⟩)
      · exact old
      · exact absurd inside outside

/-- **The closure** is the kernel and the productions of what is reached. -/
theorem mem_closure (proper : g.Proper) {kernel : List (Item × SymbolSet)} (fit : g.Fit kernel)
    {pair : Item × SymbolSet} :
    pair ∈ g.closure g.first kernel ↔ pair ∈ kernel ∨
      (pair.1.dot = 0 ∧ ∃ p, g.productions[pair.1.production]? = some p ∧
        p.left ∈ (g.spread g.first kernel).reached ∧
          pair.2 = setAt (g.spread g.first kernel).lookaheads p.left) := by
  rw [closure_eq, List.mem_flatMap]
  constructor
  · rintro ⟨k, inside, member⟩
    obtain ⟨p, found⟩ : ∃ p, g.productions[k]? = some p :=
      ⟨_, Array.getElem?_eq_getElem (List.mem_range.mp inside)⟩
    rw [found] at member
    rcases (mem_closureRow proper fit found).mp member with ⟨inKernel, _⟩ | ⟨item, rest⟩
    · exact Or.inl inKernel
    · exact Or.inr ⟨by rw [item], _, by rw [item]; exact found, rest⟩
  · intro member
    obtain ⟨p, found⟩ : ∃ p, g.productions[pair.1.production]? = some p := by
      rcases member with inKernel | ⟨_, p, found, _⟩
      · obtain ⟨p, found, _⟩ := fit.valid pair inKernel
        exact ⟨p, found⟩
      · exact ⟨p, found⟩
    refine ⟨pair.1.production, List.mem_range.mpr (Array.getElem?_eq_some_iff.mp found).1, ?_⟩
    rw [found]
    refine (mem_closureRow proper fit found).mpr ?_
    rcases member with inKernel | ⟨atStart, p', found', inside, lookaheads⟩
    · exact Or.inl ⟨inKernel, rfl⟩
    · obtain rfl := Option.some.inj (found.symm.trans found')
      refine Or.inr ⟨?_, inside, lookaheads⟩
      rw [← atStart]

/-- The items of the closure are items of the state. -/
theorem mem_itemsOf_of_mem_closure (proper : g.Proper) {kernel : List (Item × SymbolSet)}
    (fit : g.Fit kernel) {pair : Item × SymbolSet} (member : pair ∈ g.closure g.first kernel) :
    pair.1 ∈ g.itemsOf (kernel.map Prod.fst) := by
  rw [mem_itemsOf]
  rcases (mem_closure proper fit).mp member with inKernel | ⟨atStart, p, found, inside, _⟩
  · exact Or.inl (List.mem_map_of_mem inKernel)
  · exact Or.inr ⟨atStart, p, found, (sound_spread proper kernel).reaches _ inside⟩

/-- A terminal is expected after an item of the closure of a kernel with look-aheads. -/
def Closes (g : Numbered) (kernel : List (Item × SymbolSet)) (item : Item) (x : Nat) : Prop :=
  (∃ lookaheads, (item, lookaheads) ∈ kernel ∧ x ∈ lookaheads) ∨
    (item.dot = 0 ∧ ∃ p, g.productions[item.production]? = some p ∧ g.Spreads kernel p.left x)

/-- **The look-aheads of the closure** are the terminals that are expected. -/
theorem mem_closure_lookaheads (proper : g.Proper) {kernel : List (Item × SymbolSet)}
    (fit : g.Fit kernel) {item : Item} {x : Nat} :
    (∃ lookaheads, (item, lookaheads) ∈ g.closure g.first kernel ∧ x ∈ lookaheads) ↔
      g.Closes kernel item x := by
  have spread : ∀ {b x : Nat}, x ∈ setAt (g.spread g.first kernel).lookaheads b ↔ g.Spreads kernel b x :=
    mem_spread proper fit.few
  constructor
  · rintro ⟨lookaheads, member, expected⟩
    rcases (mem_closure proper fit).mp member with inKernel | ⟨atStart, p, found, _, rfl⟩
    · exact Or.inl ⟨lookaheads, inKernel, expected⟩
    · exact Or.inr ⟨atStart, p, found, spread.mp expected⟩
  · rintro (⟨lookaheads, inKernel, expected⟩ | ⟨atStart, p, found, spreads⟩)
    · exact ⟨lookaheads, (mem_closure proper fit).mpr (Or.inl inKernel), expected⟩
    · have inside := (sound_spread proper kernel).reached _ x (spread.mpr spreads)
      exact ⟨_, (mem_closure proper fit).mpr (Or.inr ⟨atStart, p, found, inside, rfl⟩), spread.mpr spreads⟩

theorem restAfterNext_eq {item : Item} {p : NumberedProduction}
    (found : g.productions[item.production]? = some p) :
    g.restAfterNext item = p.right.drop (item.dot + 1) := by
  unfold restAfterNext
  rw [found]

/-- What is expected after an item of the closure spreads to the nonterminal that it has next. -/
theorem Closes.spreads {kernel : List (Item × SymbolSet)} {item : Item} {y : Nat}
    (closes : g.Closes kernel item y) {b x : Nat} (next : g.nextSymbol? item = some b)
    (below : b < g.nonterminalCount) (follows : g.Follows y (g.restAfterNext item) x) :
    g.Spreads kernel b x := by
  rcases closes with ⟨lookaheads, inKernel, expected⟩ | ⟨atStart, p, found, spreads⟩
  · exact .kernel inKernel next below expected follows
  · obtain ⟨p', found', atDot⟩ := nextSymbol?_eq_some.mp next
    obtain rfl := Option.some.inj (found.symm.trans found')
    rw [restAfterNext_eq found, atStart] at follows
    rw [atStart] at atDot
    have shape : p.right = b :: p.right.drop 1 := by
      cases symbols : p.right with
      | nil => simp [symbols] at atDot
      | cons first rest => simpa [symbols] using atDot
    exact .production found shape below spreads follows

end Numbered

end XPathAnnotator.Grammar
