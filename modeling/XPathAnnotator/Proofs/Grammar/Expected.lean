/-
**Expected terminals.**

`Expects` says which terminals are expected after an item of a state: the end mark after the implicit
production, what follows the next symbol after its productions, and what is expected after an item after the
advanced item in the next state.

* `lookaheadSet_induction` — how the computed look-aheads of kernel items come about;
* `mem_lookaheadSet` — the computed look-aheads of kernel items are exactly these terminals;
* `closes_iff_expects` — so are the look-aheads of the closures that a table is made from.

The placeholder only finds look-aheads that arise if something is expected after each traced item, which is
why every symbol must start with some terminal (`Productive`).
-/

import Mathlib
import XPathAnnotator.Proofs.Grammar.Tracing

namespace XPathAnnotator.Grammar

variable {g : Numbered} {a : Automaton}

/-! ### Handing on -/

/-- One update of the row of look-aheads: that of an inheritance. -/
def inheritUpdate (sets : Array SymbolSet) (edge : Nat × Nat) : Array SymbolSet :=
  sets.modify edge.2 (·.union (setAt sets edge.1))

theorem inheritStep_eq (inheritance : List (Nat × Nat)) (sets : Array SymbolSet) :
    inheritStep inheritance sets = inheritance.foldl inheritUpdate sets := rfl

theorem grows_inheritUpdate (sets : Array SymbolSet) (edge : Nat × Nat) :
    Grows sets (inheritUpdate sets edge) := Grows.modify_union _ _ _

theorem grows_inheritStep (inheritance : List (Nat × Nat)) (sets : Array SymbolSet) :
    Grows sets (inheritStep inheritance sets) :=
  grows_foldl id grows_inheritUpdate inheritance sets

theorem mem_inheritUpdate {sets : Array SymbolSet} {edge : Nat × Nat} {t x : Nat} :
    x ∈ setAt (inheritUpdate sets edge) t ↔
      x ∈ setAt sets t ∨ (t = edge.2 ∧ edge.2 < sets.size ∧ x ∈ setAt sets edge.1) :=
  mem_setAt_modify_union

/-- What tracing collects is kept. -/
theorem grows_lookaheadSets :
    Grows (traceAll g a (Slots.of a) g.first).lookaheads (lookaheadSets g a) := by
  unfold lookaheadSets
  refine saturate_induction (P := fun sets => Grows _ sets) ?_ _ (Grows.refl _)
  exact fun sets grown => grown.trans (grows_inheritStep _ sets)

theorem size_lookaheadSets : (lookaheadSets g a).size = (Slots.of a).count :=
  grows_lookaheadSets.size_eq.trans size_traces

/-- What holds of the traces and is inherited holds of all look-aheads. -/
theorem lookaheadSets_induction {P : Nat → Nat → Prop}
    (traced : ∀ t x, x ∈ setAt (traceAll g a (Slots.of a) g.first).lookaheads t → P t x)
    (inherited : ∀ u t x, (u, t) ∈ (traceAll g a (Slots.of a) g.first).inheritance → P u x → P t x) :
    ∀ t x, x ∈ setAt (lookaheadSets g a) t → P t x := by
  unfold lookaheadSets
  refine saturate_induction (P := fun sets => ∀ t x, x ∈ setAt sets t → P t x) ?_ _ traced
  intro sets holds
  rw [inheritStep_eq]
  refine foldl_induction (P := fun sets => ∀ t x, x ∈ setAt sets t → P t x) ?_ holds
  rintro sets ⟨u, t⟩ edge holds t' x member
  rcases mem_inheritUpdate.mp member with old | ⟨rfl, _, new⟩
  · exact holds t' x old
  · exact inherited u _ x edge (holds u x new)

/-! ### What may be traced -/

namespace Numbered

theorem Follows.lt (proper : g.Proper) {rest : List Nat} {x y : Nat} (follows : g.Follows y rest x)
    (below : y < g.symbolCount + 1) : x < g.symbolCount + 1 := by
  cases follows with
  | inherited => exact below
  | started starts =>
    have := (proper.mem_terminal.mp starts.mem_terminal).2
    omega

theorem Spreads.lt (proper : g.Proper) {kernel : List (Item × SymbolSet)} (fit : g.Fit kernel) {b x : Nat}
    (spreads : g.Spreads kernel b x) : x < g.symbolCount + 1 := by
  induction spreads with
  | kernel member _ _ expected follows => exact follows.lt proper (fit.few _ member _ expected)
  | production _ _ _ _ follows ih => exact follows.lt proper ih

theorem Spreads.reaches {kernel : List (Item × SymbolSet)} {b x : Nat} (spreads : g.Spreads kernel b x) :
    g.Reaches (kernel.map Prod.fst) b := by
  induction spreads with
  | kernel member next below _ _ => exact .kernel (List.mem_map_of_mem member) next below
  | production found shape below _ _ ih => exact .production found ih (by rw [shape]; rfl) below

theorem Reaches.mono {kernel more : List Item} (sub : ∀ item ∈ kernel, item ∈ more) {b : Nat}
    (reaches : g.Reaches kernel b) : g.Reaches more b := by
  induction reaches with
  | kernel member next below => exact .kernel (sub _ member) next below
  | production found _ head below ih => exact .production found ih head below

/-- What the next symbol of an item of a state starts is reached there. -/
theorem reaches_of_next {kernel : List Item} {item : Item} (member : item ∈ g.itemsOf kernel) {b : Nat}
    (next : g.nextSymbol? item = some b) (below : b < g.nonterminalCount) : g.Reaches kernel b := by
  rcases mem_itemsOf.mp member with inKernel | ⟨atStart, p, found, reaches⟩
  · exact .kernel inKernel next below
  · obtain ⟨p', found', atDot⟩ := nextSymbol?_eq_some.mp next
    obtain rfl := Option.some.inj (found.symm.trans found')
    rw [atStart, ← List.head?_eq_getElem?] at atDot
    exact .production found reaches atDot below

theorem Closes.lt (proper : g.Proper) {kernel : List (Item × SymbolSet)} (fit : g.Fit kernel) {item : Item}
    {x : Nat} (closes : g.Closes kernel item x) : x < g.symbolCount + 1 := by
  rcases closes with ⟨lookaheads, inKernel, expected⟩ | ⟨_, p, _, spreads⟩
  · exact fit.few _ inKernel x expected
  · exact spreads.lt proper fit

end Numbered

namespace Automaton.Explored

theorem production_eq_zero (explored : Explored g a) {k : Nat} {kernel : List Item}
    (found : a.kernels[k]? = some kernel) {item : Item} (member : item ∈ kernel)
    (atStart : item.dot = 0) : item.production = 0 := by
  obtain rfl := explored.eq_zero_of_dot_eq_zero found member atStart
  obtain rfl := Option.some.inj (explored.start.symm.trans found)
  rw [List.mem_singleton.mp member]

/-- A kernel item with the placeholder fits. -/
theorem fit_traced (proper : g.Proper) (explored : Explored g a) {k : Nat} {kernel : List Item}
    (found : a.kernels[k]? = some kernel) {item : Item} (member : item ∈ kernel) :
    g.Fit [(item, .singleton g.placeholder)] := by
  refine ⟨fun pair only => ?_, fun pair only atStart => ?_, fun pair only x expected => ?_⟩
  · rw [List.mem_singleton.mp only]
    exact (explored.good_of found).valid item member
  · rw [List.mem_singleton.mp only] at atStart ⊢
    exact explored.production_eq_zero found member atStart
  · rw [List.mem_singleton.mp only, SymbolSet.mem_singleton] at expected
    rw [expected]
    exact Nat.lt_succ_of_le proper.placeholder_le

end Automaton.Explored

open Automaton (Explored Steps)

/-- What tracing meets, in terms of what spreads. -/
theorem Meets.closes (proper : g.Proper) (explored : Explored g a) {k j : Nat} {origin item : Item}
    {lookaheads : SymbolSet} (meets : Meets g a k origin item lookaheads j) {x : Nat}
    (expected : x ∈ lookaheads) : g.Closes [(origin, .singleton g.placeholder)] item x := by
  obtain ⟨kernel, found, member⟩ := meets.atState
  exact (Numbered.mem_closure_lookaheads proper (explored.fit_traced proper found member)).mp
    ⟨lookaheads, meets.member, expected⟩

theorem exists_meets (proper : g.Proper) (explored : Explored g a) {k j : Nat} {kernel : List Item}
    {origin item : Item} (found : a.kernels[k]? = some kernel) (member : origin ∈ kernel) {x : Nat}
    (closes : g.Closes [(origin, .singleton g.placeholder)] item x) (steps : a.Steps g k item j) :
    ∃ lookaheads, Meets g a k origin item lookaheads j ∧ x ∈ lookaheads := by
  obtain ⟨lookaheads, inClosure, expected⟩ :=
    (Numbered.mem_closure_lookaheads proper (explored.fit_traced proper found member)).mpr closes
  exact ⟨lookaheads, ⟨⟨kernel, found, member⟩, inClosure, steps⟩, expected⟩

/-- An item that is met is continued by a kernel item of the next state. -/
theorem Automaton.Explored.mem_of_steps (explored : Explored g a) {k j : Nat} {kernel : List Item}
    (found : a.kernels[k]? = some kernel) {item : Item} (member : item ∈ g.itemsOf kernel)
    (steps : a.Steps g k item j) : ∃ next, a.kernels[j]? = some next ∧ item.advanced ∈ next := by
  obtain ⟨s, next, target⟩ := steps
  obtain ⟨_, _, reached⟩ := (explored.target_iff found).mp target
  exact ⟨_, reached, Numbered.mem_advance.mpr ⟨item, member, next, rfl⟩⟩

/-- What is met is continued by a kernel item of the next state. -/
theorem Meets.target (proper : g.Proper) (explored : Explored g a) {k j : Nat} {origin item : Item}
    {lookaheads : SymbolSet} (meets : Meets g a k origin item lookaheads j) :
    ∃ next, a.kernels[j]? = some next ∧ item.advanced ∈ next := by
  obtain ⟨kernel, found, member⟩ := meets.atState
  refine explored.mem_of_steps found ?_ meets.steps
  have fit := explored.fit_traced proper found member
  have inTrace := Numbered.mem_itemsOf_of_mem_closure proper fit meets.member
  rw [Numbered.mem_itemsOf] at inTrace ⊢
  have sub : ∀ other ∈ [(origin, SymbolSet.singleton g.placeholder)].map Prod.fst, other ∈ kernel := by
    intro other only
    rw [List.mem_singleton.mp only]
    exact member
  rcases inTrace with own | ⟨atStart, p, inProductions, reaches⟩
  · exact Or.inl (sub item own)
  · exact Or.inr ⟨atStart, p, inProductions, reaches.mono sub⟩

/-! ### Handing on has ended -/

theorem lt_of_mem_lookaheadSets (proper : g.Proper) (explored : Explored g a) :
    ∀ t x, x ∈ setAt (lookaheadSets g a) t → x < g.symbolCount + 1 := by
  refine lookaheadSets_induction (P := fun _ x => x < g.symbolCount + 1) ?_ fun _ _ _ _ below => below
  intro t x member
  rcases (mem_traces_lookaheads.mp member).2 with ⟨_, rfl⟩ | ⟨k, origin, item, lookaheads, j, meets, rest⟩
  · have := (proper.mem_terminal.mp proper.end_mem).2
    omega
  · obtain ⟨kernel, found, inKernel⟩ := meets.atState
    exact (meets.closes proper explored rest.2.1).lt proper (explored.fit_traced proper found inKernel)

theorem inheritStep_lookaheadSets (proper : g.Proper) (explored : Explored g a) :
    inheritStep (traceAll g a (Slots.of a) g.first).inheritance (lookaheadSets g a) =
      lookaheadSets g a := by
  refine saturate_fixed id (Slots.of a).count (g.symbolCount + 1) Function.injective_id ?_
    (grows_inheritStep _) ⟨size_traces, fun t x member => ?_⟩ (Nat.lt_succ_self _)
  · intro sets within
    refine ⟨(grows_inheritStep _ sets).size_eq.trans within.size_eq, ?_⟩
    show ∀ t x, x ∈ setAt (inheritStep _ sets) t → x < g.symbolCount + 1
    rw [inheritStep_eq]
    refine foldl_induction (P := fun sets => ∀ t x, x ∈ setAt sets t → x < g.symbolCount + 1) ?_
      within.lt_of_mem
    intro sets edge _ below t x member
    rcases mem_inheritUpdate.mp member with old | ⟨_, _, new⟩
    · exact below t x old
    · exact below _ x new
  · exact lt_of_mem_lookaheadSets proper explored t x (grows_lookaheadSets.mem t x member)

/-- What may be inherited has been. -/
theorem mem_lookaheadSets_of_inherits (proper : g.Proper) (explored : Explored g a) {u t x : Nat}
    (edge : (u, t) ∈ (traceAll g a (Slots.of a) g.first).inheritance) (inside : t < (Slots.of a).count)
    (member : x ∈ setAt (lookaheadSets g a) u) : x ∈ setAt (lookaheadSets g a) t := by
  have fixed := inheritStep_lookaheadSets proper explored
  rw [inheritStep_eq] at fixed
  rw [← update_eq_of_foldl_eq id Function.injective_id grows_inheritUpdate fixed _ edge]
  refine mem_inheritUpdate.mpr (Or.inr ⟨rfl, ?_, member⟩)
  rw [size_lookaheadSets]
  exact inside

/-- The look-aheads of a kernel item of a state. -/
def lookaheadSet (g : Numbered) (a : Automaton) (k : Nat) (item : Item) : SymbolSet :=
  setAt (lookaheadSets g a) ((Slots.of a).slot a k item)

theorem endMark_mem_lookaheadSet (explored : Explored g a) : g.endMark ∈ lookaheadSet g a 0 ⟨0, 0⟩ := by
  refine grows_lookaheadSets.mem _ _ (mem_traces_lookaheads.mpr ⟨?_, Or.inl ⟨rfl, rfl⟩⟩)
  exact Slots.slot_lt explored.start (List.mem_singleton_self _)

/-- What tracing finds is a look-ahead of the item that continues what it meets. -/
theorem Meets.found (proper : g.Proper) (explored : Explored g a) {k j x : Nat} {origin item : Item}
    {lookaheads : SymbolSet} (meets : Meets g a k origin item lookaheads j) (expected : x ∈ lookaheads)
    (notPlaceholder : x ≠ g.placeholder) : x ∈ lookaheadSet g a j item.advanced := by
  obtain ⟨next, atNext, inNext⟩ := meets.target proper explored
  refine grows_lookaheadSets.mem _ x (mem_traces_lookaheads.mpr ⟨Slots.slot_lt atNext inNext, Or.inr ?_⟩)
  exact ⟨k, origin, item, lookaheads, j, meets, rfl, expected, notPlaceholder⟩

/-- Where the placeholder is found, the look-aheads of the traced item are handed on. -/
theorem Meets.handed (proper : g.Proper) (explored : Explored g a) {k j x : Nat} {origin item : Item}
    {lookaheads : SymbolSet} (meets : Meets g a k origin item lookaheads j) (expected : g.placeholder ∈ lookaheads)
    (known : x ∈ lookaheadSet g a k origin) : x ∈ lookaheadSet g a j item.advanced := by
  obtain ⟨next, atNext, inNext⟩ := meets.target proper explored
  refine mem_lookaheadSets_of_inherits proper explored ?_ (Slots.slot_lt atNext inNext) known
  exact mem_traces_inheritance.mpr ⟨k, origin, item, lookaheads, j, meets, rfl, rfl, expected⟩

/-- **Look-aheads come about in these ways only**: the end mark at the start, what tracing finds, and what is handed
on. -/
theorem lookaheadSet_induction (proper : g.Proper) (explored : Explored g a) {P : Nat → Item → Nat → Prop}
    (start : P 0 ⟨0, 0⟩ g.endMark)
    (found : ∀ {k j x origin item lookaheads}, Meets g a k origin item lookaheads j → x ∈ lookaheads →
      x ≠ g.placeholder → P j item.advanced x)
    (handed : ∀ {k j x origin item lookaheads}, Meets g a k origin item lookaheads j →
      g.placeholder ∈ lookaheads → P k origin x → P j item.advanced x)
    {k x : Nat} {kernel : List Item} (atState : a.kernels[k]? = some kernel) {item : Item} (inKernel : item ∈ kernel)
    (member : x ∈ lookaheadSet g a k item) : P k item x := by
  have bySlot := lookaheadSets_induction (g := g) (a := a)
    (P := fun t x => ∀ k kernel item, a.kernels[k]? = some kernel → item ∈ kernel →
      t = (Slots.of a).slot a k item → P k item x) ?_ ?_
  · exact bySlot _ x member k kernel item atState inKernel rfl
  · rintro t x traced k kernel item atState inKernel rfl
    rcases (mem_traces_lookaheads.mp traced).2 with
      ⟨same, rfl⟩ | ⟨k', origin, item', lookaheads, j, meets, same, expected, notPlaceholder⟩
    · obtain ⟨rfl, rfl⟩ := Slots.slot_inj atState inKernel explored.start (List.mem_singleton_self _) same
      exact start
    · obtain ⟨next, atNext, inNext⟩ := meets.target proper explored
      obtain ⟨rfl, rfl⟩ := Slots.slot_inj atState inKernel atNext inNext same
      exact found meets expected notPlaceholder
  · rintro u t x edge ih k kernel item atState inKernel rfl
    obtain ⟨k', origin, item', lookaheads, j, meets, rfl, same, expected⟩ := mem_traces_inheritance.mp edge
    obtain ⟨next, atNext, inNext⟩ := meets.target proper explored
    obtain ⟨rfl, rfl⟩ := Slots.slot_inj atState inKernel atNext inNext same
    obtain ⟨originKernel, atOrigin, inOrigin⟩ := meets.atState
    exact handed meets expected (ih k' originKernel origin atOrigin inOrigin rfl)

/-- The kernel of a state with the look-aheads of its items. -/
def kernelLookaheads (g : Numbered) (a : Automaton) (k : Nat) : List (Item × SymbolSet) :=
  (a.kernels.getD k []).map fun item => (item, lookaheadSet g a k item)

theorem lookaheads_eq (g : Numbered) (a : Automaton) :
    lookaheads g a = ((List.range a.kernels.size).map (kernelLookaheads g a)).toArray := rfl

theorem kernelLookaheads_eq {k : Nat} {kernel : List Item} (found : a.kernels[k]? = some kernel) :
    kernelLookaheads g a k = kernel.map fun item => (item, lookaheadSet g a k item) := by
  unfold kernelLookaheads
  rw [Array.getD_eq_getD_getElem?, found, Option.getD_some]

theorem map_fst_kernelLookaheads {k : Nat} {kernel : List Item} (found : a.kernels[k]? = some kernel) :
    (kernelLookaheads g a k).map Prod.fst = kernel := by
  rw [kernelLookaheads_eq found, List.map_map]
  exact List.map_id kernel

theorem fit_kernelLookaheads (proper : g.Proper) (explored : Explored g a) {k : Nat} {kernel : List Item}
    (found : a.kernels[k]? = some kernel) : g.Fit (kernelLookaheads g a k) := by
  have inKernel : ∀ pair ∈ kernelLookaheads g a k,
      pair.1 ∈ kernel ∧ pair.2 = lookaheadSet g a k pair.1 := by
    intro pair member
    rw [kernelLookaheads_eq found] at member
    obtain ⟨item, inside, rfl⟩ := List.mem_map.mp member
    exact ⟨inside, rfl⟩
  refine ⟨fun pair member => ?_, fun pair member atStart => ?_, fun pair member x expected => ?_⟩
  · exact (explored.good_of found).valid _ (inKernel pair member).1
  · exact explored.production_eq_zero found (inKernel pair member).1 atStart
  · rw [(inKernel pair member).2] at expected
    exact lt_of_mem_lookaheadSets proper explored _ x expected

/-! ### What is expected -/

/-- The terminals expected after an item of a state. -/
inductive Expects (g : Numbered) (a : Automaton) : Nat → Item → Nat → Prop
  | start : Expects g a 0 ⟨0, 0⟩ g.endMark
  | spread {k i b y x : Nat} {item : Item} {p : NumberedProduction} :
      Expects g a k item y → g.nextSymbol? item = some b → g.productions[i]? = some p → p.left = b →
        g.Follows y (g.restAfterNext item) x → Expects g a k ⟨i, 0⟩ x
  | advance {k j x : Nat} {item : Item} :
      Expects g a k item x → a.Steps g k item j → Expects g a j item.advanced x

/-- Something is expected after items of states only. -/
theorem Expects.mem_itemsOf (proper : g.Proper) (explored : Explored g a) {k x : Nat} {item : Item}
    (expects : Expects g a k item x) :
    ∃ kernel, a.kernels[k]? = some kernel ∧ item ∈ g.itemsOf kernel := by
  induction expects with
  | start => exact ⟨_, explored.start, Numbered.mem_itemsOf.mpr (Or.inl (List.mem_singleton_self _))⟩
  | @spread k i b y x item p _ next found left _ ih =>
    obtain ⟨kernel, atState, member⟩ := ih
    have below : b < g.nonterminalCount := left ▸ proper.left_lt found
    refine ⟨kernel, atState, Numbered.mem_itemsOf.mpr (Or.inr ⟨rfl, p, found, ?_⟩)⟩
    rw [left]
    exact Numbered.reaches_of_next member next below
  | advance _ steps ih =>
    obtain ⟨kernel, atState, member⟩ := ih
    obtain ⟨next, reached, advanced⟩ := explored.mem_of_steps atState member steps
    exact ⟨next, reached, Numbered.mem_itemsOf.mpr (Or.inl advanced)⟩

/-- Only terminals are expected. -/
theorem Expects.mem_terminal (proper : g.Proper) {k x : Nat} {item : Item}
    (expects : Expects g a k item x) : x ∈ g.terminal := by
  induction expects with
  | start => exact proper.end_mem
  | spread _ _ _ _ follows ih => exact follows.mem_terminal ih
  | advance _ _ ih => exact ih

theorem Expects.ne_placeholder (proper : g.Proper) {k x : Nat} {item : Item}
    (expects : Expects g a k item x) : x ≠ g.placeholder := by
  rintro rfl
  exact proper.placeholder_not_mem (expects.mem_terminal proper)

/-! ### Something is expected everywhere -/

namespace Numbered

/-- Every symbol starts with some terminal. -/
def Productive (g : Numbered) : Prop := ∀ s < g.symbolCount, ∃ x, g.Starts s x

theorem exists_follows (productive : g.Productive) {rest : List Nat} (symbols : ∀ s ∈ rest, s < g.symbolCount)
    (y : Nat) : ∃ x, g.Follows y rest x := by
  cases rest with
  | nil => exact ⟨y, .inherited⟩
  | cons s rest =>
    obtain ⟨x, starts⟩ := productive s (symbols s List.mem_cons_self)
    exact ⟨x, .started starts⟩

theorem lt_symbolCount_of_mem_rest (proper : g.Proper) (item : Item) :
    ∀ s ∈ g.restAfterNext item, s < g.symbolCount := by
  intro s member
  unfold restAfterNext at member
  split at member
  · exact absurd member List.not_mem_nil
  · rename_i p found
    exact proper.right_lt found s (List.mem_of_mem_drop member)

end Numbered

/-- What is expected after an item is handed to the productions of its next symbol. -/
theorem Expects.exists_spread (proper : g.Proper) (productive : g.Productive) {k y b i : Nat} {item : Item}
    {p : NumberedProduction} (expects : Expects g a k item y) (next : g.nextSymbol? item = some b)
    (found : g.productions[i]? = some p) (left : p.left = b) : ∃ x, Expects g a k ⟨i, 0⟩ x := by
  obtain ⟨x, follows⟩ := Numbered.exists_follows productive
    (Numbered.lt_symbolCount_of_mem_rest proper item) y
  exact ⟨x, expects.spread next found left follows⟩

/-- **Something is expected after every item of every state.** -/
theorem exists_expects (proper : g.Proper) (explored : Explored g a) (productive : g.Productive) {k : Nat}
    {kernel : List Item} (atState : a.kernels[k]? = some kernel) {item : Item}
    (member : item ∈ g.itemsOf kernel) : ∃ x, Expects g a k item x := by
  induction k using Nat.strong_induction_on generalizing kernel item with
  | _ k ih =>
    have ofKernel : ∀ item ∈ kernel, ∃ x, Expects g a k item x := by
      intro item inKernel
      rcases Nat.eq_zero_or_pos k with rfl | positive
      · obtain rfl := Option.some.inj (explored.start.symm.trans atState)
        rw [List.mem_singleton.mp inKernel]
        exact ⟨_, .start⟩
      · obtain ⟨j, earlier, s, target⟩ := explored.origin k positive
          (Array.getElem?_eq_some_iff.mp atState).1
        obtain ⟨before, atBefore, _⟩ := explored.target target
        obtain ⟨origin, inBefore, next, rfl⟩ :=
          (explored.mem_target_iff atBefore target atState).mp inKernel
        obtain ⟨x, expects⟩ := ih j earlier atBefore inBefore
        exact ⟨x, expects.advance ⟨s, next, target⟩⟩
    have ofReached : ∀ b, g.Reaches kernel b → ∀ i p, g.productions[i]? = some p → p.left = b →
        ∃ x, Expects g a k ⟨i, 0⟩ x := by
      intro b reaches
      induction reaches with
      | kernel inKernel next _ =>
        intro i p found left
        obtain ⟨y, expects⟩ := ofKernel _ inKernel
        exact expects.exists_spread proper productive next found left
      | @production k' p' b found' _ head _ reached =>
        intro i p found left
        obtain ⟨y, expects⟩ := reached k' p' found' rfl
        refine expects.exists_spread proper productive ?_ found left
        refine Numbered.nextSymbol?_eq_some.mpr ⟨p', found', ?_⟩
        rw [← List.head?_eq_getElem?, head]
    rcases Numbered.mem_itemsOf.mp member with inKernel | ⟨atStart, p, found, reaches⟩
    · exact ofKernel item inKernel
    · obtain ⟨x, expects⟩ := ofReached p.left reaches item.production p found rfl
      refine ⟨x, ?_⟩
      rw [← atStart] at expects
      exact expects

/-! ### The computed look-aheads are right -/

namespace Numbered

/-- A symbol, or what the placeholder stands for. -/
def standing (g : Numbered) (y x : Nat) : Nat := if x = g.placeholder then y else x

theorem standing_of_mem_terminal (proper : g.Proper) {y x : Nat} (isTerminal : x ∈ g.terminal) :
    g.standing y x = x := by
  rw [standing, if_neg]
  rintro rfl
  exact proper.placeholder_not_mem isTerminal

theorem Follows.standing (proper : g.Proper) {u x : Nat} {rest : List Nat} (follows : g.Follows u rest x)
    (y : Nat) : g.Follows (g.standing y u) rest (g.standing y x) := by
  cases follows with
  | inherited => exact .inherited
  | started starts =>
    rw [standing_of_mem_terminal proper starts.mem_terminal]
    exact .started starts

end Numbered

/-- What a production at its start leads to is expected, too. -/
theorem Expects.started {k i i' b y x : Nat} {rest : List Nat} {p p' : NumberedProduction}
    (expects : Expects g a k ⟨i', 0⟩ y) (found' : g.productions[i']? = some p') (shape : p'.right = b :: rest)
    (found : g.productions[i]? = some p) (left : p.left = b) (follows : g.Follows y rest x) :
    Expects g a k ⟨i, 0⟩ x := by
  refine expects.spread ?_ found left ?_
  · exact Numbered.nextSymbol?_eq_some.mpr ⟨p', found', by simp [shape]⟩
  · rw [Numbered.restAfterNext_eq found', shape]
    exact follows

/-- What a traced item leads to is expected, with what is expected after the item for the placeholder. -/
theorem Expects.of_spreads (proper : g.Proper) {k y b x : Nat} {origin : Item}
    (expects : Expects g a k origin y) (spreads : g.Spreads [(origin, .singleton g.placeholder)] b x) :
    ∀ i p, g.productions[i]? = some p → p.left = b → Expects g a k ⟨i, 0⟩ (g.standing y x) := by
  induction spreads with
  | kernel member next _ expected follows =>
    intro i p found left
    obtain ⟨rfl, rfl⟩ := Prod.mk.inj (List.mem_singleton.mp member)
    rw [SymbolSet.mem_singleton.mp expected] at follows
    have handed := follows.standing proper y
    rw [show g.standing y g.placeholder = y from if_pos rfl] at handed
    exact expects.spread next found left handed
  | @production k' p' b rest y' x found' shape _ _ follows ih =>
    intro i p found left
    exact (ih k' p' found' rfl).started found' shape found left (follows.standing proper y)

theorem Expects.of_closes (proper : g.Proper) {k y x : Nat} {origin item : Item}
    (expects : Expects g a k origin y) (closes : g.Closes [(origin, .singleton g.placeholder)] item x) :
    Expects g a k item (g.standing y x) := by
  rcases closes with ⟨lookaheads, inKernel, expected⟩ | ⟨atStart, p, found, spreads⟩
  · obtain ⟨rfl, rfl⟩ := Prod.mk.inj (List.mem_singleton.mp inKernel)
    rw [SymbolSet.mem_singleton.mp expected, show g.standing y g.placeholder = y from if_pos rfl]
    exact expects
  · have started := expects.of_spreads proper spreads item.production p found rfl
    rw [← atStart] at started
    exact started

/-- The computed look-aheads are expected. -/
theorem expects_of_mem_lookaheadSet (proper : g.Proper) (explored : Explored g a)
    (productive : g.Productive) {k x : Nat} {kernel : List Item} (atState : a.kernels[k]? = some kernel)
    {item : Item} (inKernel : item ∈ kernel) (member : x ∈ lookaheadSet g a k item) :
    Expects g a k item x := by
  refine lookaheadSet_induction proper explored (P := Expects g a) .start (fun meets expected notPlaceholder => ?_)
    (fun meets expected known => ?_) atState inKernel member
  · -- Something is expected after the traced item; the placeholder found stands for that.
    obtain ⟨originKernel, atOrigin, inOrigin⟩ := meets.atState
    obtain ⟨y, known⟩ := exists_expects proper explored productive atOrigin
      (Numbered.mem_itemsOf.mpr (Or.inl inOrigin))
    have found := known.of_closes proper (meets.closes proper explored expected)
    rw [Numbered.standing, if_neg notPlaceholder] at found
    exact found.advance meets.steps
  · have found := known.of_closes proper (meets.closes proper explored expected)
    rw [Numbered.standing, if_pos rfl] at found
    exact found.advance meets.steps

/-! ### The computed look-aheads are all -/

/-- A terminal expected after an item is found by tracing some kernel item of the state. -/
structure Traced (g : Numbered) (a : Automaton) (k : Nat) (item : Item) (x : Nat) (kernel : List Item)
    (origin : Item) : Prop where
  atState : a.kernels[k]? = some kernel
  member : origin ∈ kernel
  traced : (x ≠ g.placeholder ∧ g.Closes [(origin, .singleton g.placeholder)] item x) ∨
    (x ∈ lookaheadSet g a k origin ∧ g.Closes [(origin, .singleton g.placeholder)] item g.placeholder)

/-- What tracing finds is handed to the next state. -/
theorem Traced.handed (proper : g.Proper) (explored : Explored g a) {k x : Nat} {item origin : Item}
    {kernel : List Item} (traced : Traced g a k item x kernel origin) {j : Nat}
    (steps : a.Steps g k item j) : x ∈ lookaheadSet g a j item.advanced := by
  rcases traced.traced with ⟨notPlaceholder, closes⟩ | ⟨known, closes⟩
  · obtain ⟨lookaheads, meets, expected⟩ :=
      exists_meets proper explored traced.atState traced.member closes steps
    exact meets.found proper explored expected notPlaceholder
  · obtain ⟨lookaheads, meets, expected⟩ :=
      exists_meets proper explored traced.atState traced.member closes steps
    exact meets.handed proper explored expected known

theorem closes_origin (origin : Item) :
    g.Closes [(origin, .singleton g.placeholder)] origin g.placeholder :=
  Or.inl ⟨_, List.mem_singleton_self _, SymbolSet.mem_singleton.mpr rfl⟩

theorem Numbered.Closes.start {kernel : List (Item × SymbolSet)} {b x i : Nat} {p : NumberedProduction}
    (spreads : g.Spreads kernel b x) (found : g.productions[i]? = some p) (left : p.left = b) :
    g.Closes kernel ⟨i, 0⟩ x :=
  Or.inr ⟨rfl, p, found, left ▸ spreads⟩

/-- **Tracing finds all that is expected.** -/
theorem Expects.traced (proper : g.Proper) (explored : Explored g a) {k x : Nat} {item : Item}
    (expects : Expects g a k item x) : ∃ kernel origin, Traced g a k item x kernel origin := by
  induction expects with
  | start =>
    exact ⟨_, ⟨0, 0⟩, explored.start, List.mem_singleton_self _,
      Or.inr ⟨endMark_mem_lookaheadSet explored, closes_origin _⟩⟩
  | @spread k i b y x item p expects next found left follows ih =>
    obtain ⟨kernel, origin, atState, member, traced⟩ := ih
    have below : b < g.nonterminalCount := left ▸ proper.left_lt found
    have notPlaceholder := (expects.spread next found left follows).ne_placeholder proper
    refine ⟨kernel, origin, atState, member, ?_⟩
    rcases traced with ⟨_, closes⟩ | ⟨known, closes⟩
    · exact Or.inl ⟨notPlaceholder, .start (closes.spreads next below follows) found left⟩
    · generalize rest_eq : g.restAfterNext item = rest at follows
      cases follows with
      | inherited =>
        refine Or.inr ⟨known, .start (closes.spreads next below ?_) found left⟩
        rw [rest_eq]
        exact .inherited
      | started starts =>
        refine Or.inl ⟨notPlaceholder, .start (closes.spreads next below ?_) found left⟩
        rw [rest_eq]
        exact .started starts
  | @advance k j x item expects steps ih =>
    obtain ⟨kernel, origin, traced⟩ := ih
    obtain ⟨_, atState, inItems⟩ := expects.mem_itemsOf proper explored
    obtain ⟨next, atNext, inNext⟩ := explored.mem_of_steps atState inItems steps
    exact ⟨next, _, atNext, inNext, Or.inr ⟨traced.handed proper explored steps, closes_origin _⟩⟩

/-- **The look-aheads of kernel items** are exactly the terminals that are expected. -/
theorem mem_lookaheadSet (proper : g.Proper) (explored : Explored g a) (productive : g.Productive)
    {k x : Nat} {kernel : List Item} (atState : a.kernels[k]? = some kernel) {item : Item}
    (inKernel : item ∈ kernel) : x ∈ lookaheadSet g a k item ↔ Expects g a k item x := by
  refine ⟨expects_of_mem_lookaheadSet proper explored productive atState inKernel, fun expects => ?_⟩
  cases expects with
  | start => exact endMark_mem_lookaheadSet explored
  | @spread _ i b _ _ origin p _ next found left _ =>
    -- A kernel item at the start is that of the implicit production, whose left side is in no right side.
    have implicit : i = 0 := explored.production_eq_zero atState inKernel rfl
    obtain ⟨s, first⟩ := proper.implicit
    rw [implicit, first] at found
    obtain rfl := Option.some.inj found
    obtain ⟨p', found', atDot⟩ := Numbered.nextSymbol?_eq_some.mp next
    exact absurd left.symm (proper.right_ne_zero found' b (List.mem_of_getElem? atDot))
  | advance expects steps =>
    obtain ⟨_, _, traced⟩ := expects.traced proper explored
    exact traced.handed proper explored steps

/-- **The look-aheads of the closure of a state** are exactly the terminals that are expected. -/
theorem closes_iff_expects (proper : g.Proper) (explored : Explored g a) (productive : g.Productive)
    {k x : Nat} {kernel : List Item} (atState : a.kernels[k]? = some kernel) {item : Item} :
    g.Closes (kernelLookaheads g a k) item x ↔ Expects g a k item x := by
  have inKernel : ∀ {item : Item} {lookaheads : SymbolSet},
      (item, lookaheads) ∈ kernelLookaheads g a k ↔
        item ∈ kernel ∧ lookaheads = lookaheadSet g a k item := by
    intro item lookaheads
    rw [kernelLookaheads_eq atState, List.mem_map]
    constructor
    · rintro ⟨other, inside, same⟩
      obtain ⟨rfl, rfl⟩ := Prod.mk.inj same
      exact ⟨inside, rfl⟩
    · rintro ⟨inside, rfl⟩
      exact ⟨item, inside, rfl⟩
  constructor
  · have started : ∀ b x, g.Spreads (kernelLookaheads g a k) b x →
        ∀ i p, g.productions[i]? = some p → p.left = b → Expects g a k ⟨i, 0⟩ x := by
      intro b x spreads
      induction spreads with
      | kernel member next _ expected follows =>
        intro i p found left
        obtain ⟨inside, rfl⟩ := inKernel.mp member
        have known := (mem_lookaheadSet proper explored productive atState inside).mp expected
        exact known.spread next found left follows
      | @production k' p' b rest y x found' shape _ _ follows ih =>
        intro i p found left
        exact (ih k' p' found' rfl).started found' shape found left follows
    rintro (⟨lookaheads, member, expected⟩ | ⟨atStart, p, found, spreads⟩)
    · obtain ⟨inside, rfl⟩ := inKernel.mp member
      exact (mem_lookaheadSet proper explored productive atState inside).mp expected
    · have known := started _ x spreads item.production p found rfl
      rw [← atStart] at known
      exact known
  · intro expects
    induction expects generalizing kernel with
    | start =>
      obtain rfl := Option.some.inj (explored.start.symm.trans atState)
      exact Or.inl ⟨_, inKernel.mpr ⟨List.mem_singleton_self _, rfl⟩,
        (mem_lookaheadSet proper explored productive atState (List.mem_singleton_self _)).mpr .start⟩
    | spread _ next found left follows ih =>
      have below := left ▸ proper.left_lt found
      exact .start ((ih atState inKernel).spreads next below follows) found left
    | advance expects steps _ =>
      obtain ⟨_, atOrigin, inItems⟩ := expects.mem_itemsOf proper explored
      obtain ⟨next, atNext, inNext⟩ := explored.mem_of_steps atOrigin inItems steps
      obtain rfl := Option.some.inj (atState.symm.trans atNext)
      exact Or.inl ⟨_, inKernel.mpr ⟨inNext, rfl⟩,
        (mem_lookaheadSet proper explored productive atState inNext).mpr (expects.advance steps)⟩

end XPathAnnotator.Grammar
