/-
**Tracing kernel items.**

The kernel items of all states have distinct slots in one row (`slot_lt`, `slot_inj`). A kernel item is
traced with the placeholder as its only look-ahead; `Meets` says that this meets an item which another
state continues. `mem_traces_lookaheads` and `mem_traces_inheritance` say what tracing collects in the row;
`lookaheadSets` are the look-aheads after that has been handed on.
-/

import Mathlib
import XPathAnnotator.Proofs.Grammar.Closure
import XPathAnnotator.Proofs.Grammar.Exploration

namespace XPathAnnotator.Grammar

/-- A round of updates that each may bring something about. -/
theorem foldl_iff {α γ : Type} {update : α → γ → α} {Kept P : α → Prop} {Brings : γ → Prop}
    (keeps : ∀ a c, Kept a → Kept (update a c))
    (each : ∀ a c, Kept a → (P (update a c) ↔ P a ∨ Brings c)) (items : List γ) {a : α} (start : Kept a) :
    P (items.foldl update a) ↔ P a ∨ ∃ c ∈ items, Brings c := by
  induction items generalizing a with
  | nil => simp
  | cons item items ih =>
    rw [List.foldl_cons, ih (keeps a item start), each a item start, List.exists_mem_cons_iff, or_assoc]

/-! ### Slots -/

namespace Slots

/-- The number of kernel items before a state. -/
def offset (kernels : List (List Item)) (k : Nat) : Nat := ((kernels.take k).map List.length).sum

theorem offset_succ {kernels : List (List Item)} {k : Nat} {kernel : List Item}
    (found : kernels[k]? = some kernel) : offset kernels (k + 1) = offset kernels k + kernel.length := by
  unfold offset
  rw [List.take_add_one, found]
  simp

theorem offset_le {kernels : List (List Item)} {j k : Nat} (order : j ≤ k) :
    offset kernels j ≤ offset kernels k := by
  unfold offset
  refine List.Sublist.sum_le_sum ?_ (fun _ _ => Nat.zero_le _)
  exact ((List.take_sublist_take_left order).map _)

/-- The offsets and the count that a row of kernels gives. -/
theorem foldl_offsets (kernels : List (List Item)) (offsets : Array Nat) (count : Nat) :
    let result := kernels.foldl (fun (pair : Array Nat × Nat) kernel =>
      (pair.1.push pair.2, pair.2 + kernel.length)) (offsets, count)
    result.2 = count + offset kernels kernels.length ∧
      (∀ k < offsets.size, result.1[k]? = offsets[k]?) ∧
        ∀ k < kernels.length, result.1[offsets.size + k]? = some (count + offset kernels k) := by
  induction kernels generalizing offsets count with
  | nil => simp [offset]
  | cons kernel kernels ih =>
    have cut : ∀ k, offset (kernel :: kernels) (k + 1) = kernel.length + offset kernels k := by
      simp [offset]
    obtain ⟨total, old, new⟩ := ih (offsets.push count) (count + kernel.length)
    simp only [List.foldl_cons, List.length_cons]
    refine ⟨?_, fun k below => ?_, fun k below => ?_⟩
    · rw [total, cut, Nat.add_assoc]
    · rw [old k (by rw [Array.size_push]; omega), Array.getElem?_push, if_neg (by omega)]
    · cases k with
      | zero =>
        rw [old _ (by rw [Array.size_push]; omega)]
        simp [offset]
      | succ k =>
        have found := new k (by omega)
        rw [Array.size_push] at found
        rw [cut, ← Nat.add_assoc count, ← found]
        congr 1
        omega

variable {a : Automaton}

theorem offsets_getD {k : Nat} (below : k < a.kernels.size) :
    (Slots.of a).offsets.getD k 0 = offset a.kernels.toList k := by
  have result := (foldl_offsets a.kernels.toList #[] 0).2.2 k (by simpa using below)
  have made : (Slots.of a).offsets = (a.kernels.toList.foldl (fun (pair : Array Nat × Nat) kernel =>
      (pair.1.push pair.2, pair.2 + kernel.length)) (#[], 0)).1 := by
    unfold Slots.of
    rw [← Array.foldl_toList]
  rw [made, Array.getD_eq_getD_getElem?]
  simpa using congrArg (Option.getD · 0) result

theorem count_eq : (Slots.of a).count = offset a.kernels.toList a.kernels.size := by
  have result := (foldl_offsets a.kernels.toList #[] 0).1
  have made : (Slots.of a).count = (a.kernels.toList.foldl (fun (pair : Array Nat × Nat) kernel =>
      (pair.1.push pair.2, pair.2 + kernel.length)) (#[], 0)).2 := by
    unfold Slots.of
    rw [← Array.foldl_toList]
  rw [made, result]
  simp

/-- A slot lies between the offsets of its state and of the next one. -/
theorem slot_between {k : Nat} {kernel : List Item} {item : Item} (found : a.kernels[k]? = some kernel)
    (member : item ∈ kernel) :
    (Slots.of a).slot a k item = offset a.kernels.toList k + kernel.idxOf item ∧
      (Slots.of a).slot a k item < offset a.kernels.toList (k + 1) := by
  have below := (Array.getElem?_eq_some_iff.mp found).1
  have inList : a.kernels.toList[k]? = some kernel := by rw [Array.getElem?_toList, found]
  have own : a.kernels.getD k [] = kernel := by
    rw [Array.getD_eq_getD_getElem?, found, Option.getD_some]
  have inKernel := List.idxOf_lt_length_iff.mpr member
  unfold slot
  rw [offsets_getD below, own, offset_succ inList]
  omega

theorem slot_lt {k : Nat} {kernel : List Item} {item : Item} (found : a.kernels[k]? = some kernel)
    (member : item ∈ kernel) : (Slots.of a).slot a k item < (Slots.of a).count := by
  have below := (Array.getElem?_eq_some_iff.mp found).1
  rw [count_eq]
  exact Nat.lt_of_lt_of_le (slot_between found member).2 (offset_le below)

/-- **Kernel items have distinct slots.** -/
theorem slot_inj {j k : Nat} {first second : List Item} {item other : Item}
    (foundFirst : a.kernels[j]? = some first) (inFirst : item ∈ first)
    (foundSecond : a.kernels[k]? = some second) (inSecond : other ∈ second)
    (same : (Slots.of a).slot a j item = (Slots.of a).slot a k other) : j = k ∧ item = other := by
  obtain ⟨eqFirst, ltFirst⟩ := slot_between foundFirst inFirst
  obtain ⟨eqSecond, ltSecond⟩ := slot_between foundSecond inSecond
  rcases Nat.lt_trichotomy j k with before | rfl | after
  · have apart : offset a.kernels.toList (j + 1) ≤ offset a.kernels.toList k := offset_le before
    omega
  · refine ⟨rfl, (List.idxOf_inj inFirst).mp ?_⟩
    obtain rfl := Option.some.inj (foundFirst.symm.trans foundSecond)
    omega
  · have apart : offset a.kernels.toList (k + 1) ≤ offset a.kernels.toList j := offset_le after
    omega

end Slots

/-! ### One trace -/

variable {g : Numbered} {a : Automaton}

/-- An item of a state is continued in another state, over the symbol that it has next. -/
def Automaton.Steps (g : Numbered) (a : Automaton) (k : Nat) (item : Item) (j : Nat) : Prop :=
  ∃ s, g.nextSymbol? item = some s ∧ a.target? k s = some j

/-- One update of the traces: that of an item met with look-aheads. -/
def traceUpdate (g : Numbered) (a : Automaton) (k source : Nat) (traces : Traces)
    (pair : Item × SymbolSet) : Traces :=
  match g.nextSymbol? pair.1 with
  | none => traces
  | some symbol =>
    match a.target? k symbol with
    | none => traces
    | some next =>
      let target := (Slots.of a).slot a next pair.1.advanced
      ⟨traces.lookaheads.modify target (·.union (pair.2.erase g.placeholder)),
        if pair.2.contains g.placeholder then (source, target) :: traces.inheritance
        else traces.inheritance⟩

theorem traceItem_eq (k : Nat) (traces : Traces) (item : Item) :
    traceItem g a (Slots.of a) g.first k traces item =
      (g.closure g.first [(item, .singleton g.placeholder)]).foldl
        (traceUpdate g a k ((Slots.of a).slot a k item)) traces := rfl

section Update

variable {k source : Nat} {traces : Traces} {pair : Item × SymbolSet}

theorem size_traceUpdate :
    (traceUpdate g a k source traces pair).lookaheads.size = traces.lookaheads.size := by
  unfold traceUpdate
  split
  · rfl
  · split
    · rfl
    · exact Array.size_modify

theorem mem_traceUpdate_lookaheads {t x : Nat} :
    x ∈ setAt (traceUpdate g a k source traces pair).lookaheads t ↔ x ∈ setAt traces.lookaheads t ∨
      ∃ j, a.Steps g k pair.1 j ∧ t = (Slots.of a).slot a j pair.1.advanced ∧
        t < traces.lookaheads.size ∧ x ∈ pair.2 ∧ x ≠ g.placeholder := by
  unfold traceUpdate Automaton.Steps
  split
  · rename_i ends
    simp [ends]
  · rename_i symbol next
    split
    · rename_i stuck
      simp [next, stuck]
    · rename_i j found
      rw [mem_setAt_modify_union, SymbolSet.mem_erase]
      refine or_congr_right ⟨?_, ?_⟩
      · rintro ⟨rfl, inside, expected⟩
        exact ⟨j, ⟨symbol, next, found⟩, rfl, inside, expected⟩
      · rintro ⟨j', ⟨symbol', next', found'⟩, rfl, inside, expected⟩
        obtain rfl := Option.some.inj (next.symm.trans next')
        obtain rfl := Option.some.inj (found.symm.trans found')
        exact ⟨rfl, inside, expected⟩

theorem mem_traceUpdate_inheritance {edge : Nat × Nat} :
    edge ∈ (traceUpdate g a k source traces pair).inheritance ↔ edge ∈ traces.inheritance ∨
      ∃ j, a.Steps g k pair.1 j ∧ edge = (source, (Slots.of a).slot a j pair.1.advanced) ∧
        g.placeholder ∈ pair.2 := by
  unfold traceUpdate Automaton.Steps
  split
  · rename_i ends
    simp [ends]
  · rename_i symbol next
    split
    · rename_i stuck
      simp [next, stuck]
    · rename_i j found
      have only : (∃ j', (∃ s, g.nextSymbol? pair.1 = some s ∧ a.target? k s = some j') ∧
          edge = (source, (Slots.of a).slot a j' pair.1.advanced) ∧ g.placeholder ∈ pair.2) ↔
            edge = (source, (Slots.of a).slot a j pair.1.advanced) ∧ g.placeholder ∈ pair.2 := by
        constructor
        · rintro ⟨j', ⟨symbol', next', found'⟩, rest⟩
          obtain rfl := Option.some.inj (next.symm.trans next')
          obtain rfl := Option.some.inj (found.symm.trans found')
          exact rest
        · exact fun rest => ⟨j, ⟨symbol, next, found⟩, rest⟩
      rw [only]
      dsimp only
      split
      · rename_i inside
        rw [SymbolSet.contains_iff] at inside
        rw [List.mem_cons, or_comm]
        simp [inside]
      · rename_i outside
        rw [SymbolSet.contains_iff] at outside
        simp [outside]

end Update

/-! ### All traces -/

/-- Tracing a kernel item of state `k` meets an item with look-aheads that state `j` continues. -/
structure Meets (g : Numbered) (a : Automaton) (k : Nat) (origin item : Item) (lookaheads : SymbolSet)
    (j : Nat) : Prop where
  atState : ∃ kernel, a.kernels[k]? = some kernel ∧ origin ∈ kernel
  member : (item, lookaheads) ∈ g.closure g.first [(origin, .singleton g.placeholder)]
  steps : a.Steps g k item j

/-- The traces of the kernel items of a state. -/
def traceState (g : Numbered) (a : Automaton) (traces : Traces) (k : Nat) : Traces :=
  (a.kernels.getD k []).foldl (traceItem g a (Slots.of a) g.first k) traces

/-- The traces before any item is traced. -/
def startTraces (g : Numbered) (a : Automaton) : Traces :=
  ⟨(Array.replicate (Slots.of a).count .empty).modify ((Slots.of a).slot a 0 ⟨0, 0⟩)
    (·.union (.singleton g.endMark)), []⟩

theorem traceAll_eq (g : Numbered) (a : Automaton) :
    traceAll g a (Slots.of a) g.first =
      (List.range a.kernels.size).foldl (traceState g a) (startTraces g a) := rfl

/-- What every update of the traces keeps and may bring about, tracing keeps and brings about for the items
that it meets. -/
theorem trace_iff (Kept P : Traces → Prop) (Brings : Nat → Item → Item × SymbolSet → Prop)
    (keeps : ∀ k source traces pair, Kept traces → Kept (traceUpdate g a k source traces pair))
    (each : ∀ k origin traces pair, Kept traces →
      (P (traceUpdate g a k ((Slots.of a).slot a k origin) traces pair) ↔ P traces ∨ Brings k origin pair))
    (start : Kept (startTraces g a)) :
    P (traceAll g a (Slots.of a) g.first) ↔ P (startTraces g a) ∨
      ∃ k ∈ List.range a.kernels.size, ∃ origin ∈ a.kernels.getD k [],
        ∃ pair ∈ g.closure g.first [(origin, .singleton g.placeholder)], Brings k origin pair := by
  have keepsItem : ∀ k traces item, Kept traces →
      Kept (traceItem g a (Slots.of a) g.first k traces item) := by
    intro k traces item kept
    rw [traceItem_eq]
    exact foldl_induction (P := Kept) (fun traces pair _ => keeps k _ traces pair) kept
  have keepsState : ∀ traces k, Kept traces → Kept (traceState g a traces k) := by
    intro traces k kept
    exact foldl_induction (P := Kept) (fun traces item _ => keepsItem k traces item) kept
  rw [traceAll_eq]
  refine foldl_iff keepsState (fun traces k kept => ?_) _ start
  refine foldl_iff (keepsItem k) (fun traces origin kept => ?_) _ kept
  rw [traceItem_eq]
  exact foldl_iff (fun traces pair => keeps k _ traces pair)
    (fun traces pair => each k origin traces pair) _ kept

/-- Kernel items of states as tracing finds them. -/
theorem exists_kernel_iff {k : Nat} {origin : Item} :
    (k ∈ List.range a.kernels.size ∧ origin ∈ a.kernels.getD k []) ↔
      ∃ kernel, a.kernels[k]? = some kernel ∧ origin ∈ kernel := by
  rw [List.mem_range, Array.getD_eq_getD_getElem?]
  constructor
  · rintro ⟨below, member⟩
    rw [Array.getElem?_eq_getElem below] at member
    exact ⟨_, Array.getElem?_eq_getElem below, member⟩
  · rintro ⟨kernel, found, member⟩
    rw [found]
    exact ⟨(Array.getElem?_eq_some_iff.mp found).1, member⟩

theorem size_traces : (traceAll g a (Slots.of a) g.first).lookaheads.size = (Slots.of a).count := by
  refine (trace_iff (g := g) (a := a) (fun _ => True)
    (fun traces => traces.lookaheads.size = (Slots.of a).count) (fun _ _ _ => False)
    (fun _ _ _ _ _ => trivial) (fun _ _ _ _ _ => ?_) trivial).mpr (Or.inl ?_)
  · rw [size_traceUpdate, or_false]
  · simp [startTraces]

/-- **The look-aheads that tracing collects**: the end mark at the start, and what is met besides the
placeholder. -/
theorem mem_traces_lookaheads {t x : Nat} :
    x ∈ setAt (traceAll g a (Slots.of a) g.first).lookaheads t ↔
      t < (Slots.of a).count ∧ ((t = (Slots.of a).slot a 0 ⟨0, 0⟩ ∧ x = g.endMark) ∨
        ∃ k origin item lookaheads j, Meets g a k origin item lookaheads j ∧
          t = (Slots.of a).slot a j item.advanced ∧ x ∈ lookaheads ∧ x ≠ g.placeholder) := by
  have all := trace_iff (g := g) (a := a)
    (fun traces => traces.lookaheads.size = (Slots.of a).count)
    (fun traces => x ∈ setAt traces.lookaheads t)
    (fun k _ pair => ∃ j, a.Steps g k pair.1 j ∧
      t = (Slots.of a).slot a j pair.1.advanced ∧ t < (Slots.of a).count ∧ x ∈ pair.2 ∧
        x ≠ g.placeholder)
    (fun _ _ _ _ kept => size_traceUpdate.trans kept)
    (fun _ _ _ _ kept => by rw [mem_traceUpdate_lookaheads, kept]) (by simp [startTraces])
  rw [all, startTraces, mem_setAt_modify_union, setAt_replicate, SymbolSet.mem_singleton, Array.size_replicate]
  constructor
  · rintro ((none | ⟨rfl, inside, rfl⟩) | ⟨k, below, origin, inKernel, pair, member, j, steps, rfl, inside, rest⟩)
    · exact absurd none (SymbolSet.not_mem_empty x)
    · exact ⟨inside, Or.inl ⟨rfl, rfl⟩⟩
    · exact ⟨inside, Or.inr ⟨k, origin, pair.1, pair.2, j,
        ⟨exists_kernel_iff.mp ⟨below, inKernel⟩, member, steps⟩, rfl, rest⟩⟩
  · rintro ⟨inside, ⟨rfl, rfl⟩ | ⟨k, origin, item, lookaheads, j, meets, rfl, rest⟩⟩
    · exact Or.inl (Or.inr ⟨rfl, inside, rfl⟩)
    · obtain ⟨below, inKernel⟩ := exists_kernel_iff.mpr meets.atState
      exact Or.inr ⟨k, below, origin, inKernel, _, meets.member, j, meets.steps, rfl, inside, rest⟩

/-- **The inheritance that tracing collects**: from the traced item to what is met with the placeholder. -/
theorem mem_traces_inheritance {source target : Nat} :
    (source, target) ∈ (traceAll g a (Slots.of a) g.first).inheritance ↔
      ∃ k origin item lookaheads j, Meets g a k origin item lookaheads j ∧
        source = (Slots.of a).slot a k origin ∧ target = (Slots.of a).slot a j item.advanced ∧
          g.placeholder ∈ lookaheads := by
  have all := trace_iff (g := g) (a := a) (fun _ => True)
    (fun traces => (source, target) ∈ traces.inheritance)
    (fun k origin pair => ∃ j, a.Steps g k pair.1 j ∧
      (source, target) = ((Slots.of a).slot a k origin, (Slots.of a).slot a j pair.1.advanced) ∧
        g.placeholder ∈ pair.2)
    (fun _ _ _ _ _ => trivial) (fun _ _ _ _ _ => mem_traceUpdate_inheritance) trivial
  rw [all]
  constructor
  · rintro (none | ⟨k, below, origin, inKernel, pair, member, j, steps, edge, inherits⟩)
    · exact absurd none List.not_mem_nil
    · obtain ⟨rfl, rfl⟩ := Prod.mk.inj edge
      exact ⟨k, origin, pair.1, pair.2, j, ⟨exists_kernel_iff.mp ⟨below, inKernel⟩, member, steps⟩,
        rfl, rfl, inherits⟩
  · rintro ⟨k, origin, item, lookaheads, j, meets, rfl, rfl, inherits⟩
    obtain ⟨below, inKernel⟩ := exists_kernel_iff.mpr meets.atState
    exact Or.inr ⟨k, below, origin, inKernel, _, meets.member, j, meets.steps, rfl, inherits⟩

/-! ### Handing on -/

/-- The look-aheads of the kernel items by slot, after handing on has ended. -/
def lookaheadSets (g : Numbered) (a : Automaton) : Array SymbolSet :=
  let traces := traceAll g a (Slots.of a) g.first
  saturate (inheritStep traces.inheritance) (g.growth (Slots.of a).count) traces.lookaheads

end XPathAnnotator.Grammar
