/-
**The items of a state.**

`Reaches` says which nonterminals a kernel leads to: those after a dot, and those that the productions of
a nonterminal reached begin with.

* `mem_reached`, `mem_itemsOf` — the items of a state are its kernel and the productions of what it reaches;
* `mem_advance` — reading a symbol moves the dot of the items that have it next;
* `Ascending` kernels are known by their items (`Ascending.ext`), and there are at most
  `2 ^ itemCount` kernels of valid items (`length_le_of_valid`).
-/

import Mathlib
import XPathAnnotator.Grammar.Automaton
import XPathAnnotator.Proofs.Grammar.Numbering

namespace XPathAnnotator.Grammar

namespace Item

/-- An item with its dot moved over one symbol. -/
def advanced (item : Item) : Item := ⟨item.production, item.dot + 1⟩

/-! ### Ascending lists -/

/-- The order of items as a proposition. -/
abbrev Before (a b : Item) : Prop := a.before b = true

theorem before_iff {a b : Item} :
    a.Before b ↔ a.production < b.production ∨ (a.production = b.production ∧ a.dot < b.dot) := by
  simp [Before, before]

theorem Before.trans {a b c : Item} (one : a.Before b) (other : b.Before c) : a.Before c := by
  rw [before_iff] at *
  omega

theorem Before.irrefl (a : Item) : ¬ a.Before a := by
  rw [before_iff]
  omega

theorem before_of_not {a b : Item} (different : a ≠ b) (notBefore : ¬ a.Before b) : b.Before a := by
  rw [before_iff] at *
  have : ¬ (a.production = b.production ∧ a.dot = b.dot) := by
    rintro ⟨sameProduction, sameDot⟩
    apply different
    cases a
    cases b
    simp_all
  omega

/-- A list of items in ascending order, without repetitions. -/
abbrev Ascending (items : List Item) : Prop := items.Pairwise Before

theorem Ascending.nodup {items : List Item} (ascending : Ascending items) : items.Nodup := by
  refine List.Pairwise.imp ?_ ascending
  rintro a b order rfl
  exact Before.irrefl a order

/-- Ascending lists with the same items are equal. -/
theorem Ascending.ext {first second : List Item} (one : Ascending first) (other : Ascending second)
    (same : ∀ item, item ∈ first ↔ item ∈ second) : first = second := by
  refine List.Perm.eq_of_pairwise ?_ one other ?_
  · exact fun a b _ _ forth back => absurd (forth.trans back) (Before.irrefl a)
  · exact (List.perm_ext_iff_of_nodup one.nodup other.nodup).mpr same

theorem mem_insertInto {item other : Item} {items : List Item} :
    other ∈ insertInto item items ↔ other = item ∨ other ∈ items := by
  induction items with
  | nil => simp [insertInto]
  | cons first rest ih =>
    unfold insertInto
    split
    · rename_i same
      simp [same]
    · split
      · simp
      · rw [List.mem_cons, ih, List.mem_cons]
        exact or_left_comm

theorem ascending_insertInto {item : Item} {items : List Item} (ascending : Ascending items) :
    Ascending (insertInto item items) := by
  induction items with
  | nil => exact List.pairwise_singleton _ _
  | cons first rest ih =>
    obtain ⟨least, restAscending⟩ := List.pairwise_cons.mp ascending
    unfold insertInto
    split
    · exact ascending
    · rename_i different
      split
      · rename_i order
        refine List.pairwise_cons.mpr ⟨fun other member => ?_, ascending⟩
        rcases List.mem_cons.mp member with rfl | member
        · exact order
        · exact Before.trans order (least other member)
      · rename_i notBefore
        refine List.pairwise_cons.mpr ⟨fun other member => ?_, ih restAscending⟩
        rcases mem_insertInto.mp member with rfl | member
        · exact before_of_not different notBefore
        · exact least other member

end Item

namespace Numbered

variable {g : Numbered}

/-! ### What a kernel reaches -/

/-- The nonterminals whose productions start within the state of a kernel. -/
inductive Reaches (g : Numbered) (kernel : List Item) : Nat → Prop
  | kernel {item : Item} {a : Nat} :
      item ∈ kernel → g.nextSymbol? item = some a → a < g.nonterminalCount → Reaches g kernel a
  | production {k : Nat} {p : NumberedProduction} {a : Nat} :
      g.productions[k]? = some p → Reaches g kernel p.left → p.right.head? = some a →
        a < g.nonterminalCount → Reaches g kernel a

theorem mem_nonterminalSet {symbol : Option Nat} {x : Nat} :
    x ∈ g.nonterminalSet symbol ↔ symbol = some x ∧ x < g.nonterminalCount := by
  unfold nonterminalSet isNonterminal
  cases symbol with
  | none => simp
  | some s =>
    simp only [decide_eq_true_eq, Option.some.injEq]
    split
    · rename_i below
      rw [SymbolSet.mem_singleton]
      constructor
      · rintro rfl
        exact ⟨rfl, below⟩
      · exact fun both => both.1.symm
    · rename_i above
      constructor
      · exact fun member => absurd member (SymbolSet.not_mem_empty x)
      · rintro ⟨rfl, below⟩
        exact absurd below above

/-- One update of the nonterminals reached: that of a production. -/
def reachUpdate (g : Numbered) (reached : SymbolSet) (p : NumberedProduction) : SymbolSet :=
  if reached.contains p.left then reached.union (g.nonterminalSet p.right.head?) else reached

theorem reachStep_eq (g : Numbered) (reached : SymbolSet) :
    g.reachStep reached = g.productions.toList.foldl g.reachUpdate reached := by
  rw [reachStep, ← Array.foldl_toList]
  rfl

theorem mem_reachUpdate {reached : SymbolSet} {p : NumberedProduction} {x : Nat} :
    x ∈ g.reachUpdate reached p ↔ x ∈ reached ∨
      (p.left ∈ reached ∧ p.right.head? = some x ∧ x < g.nonterminalCount) := by
  unfold reachUpdate
  split
  · rename_i inside
    rw [SymbolSet.contains_iff] at inside
    rw [SymbolSet.mem_union, mem_nonterminalSet]
    simp [inside]
  · rename_i outside
    rw [SymbolSet.contains_iff] at outside
    simp [outside]

/-- The seeds of what a kernel reaches. -/
theorem mem_reachSeeds {kernel : List Item} {start : SymbolSet} {x : Nat} :
    x ∈ kernel.foldl (fun (set : SymbolSet) item => set.union (g.nonterminalSet (g.nextSymbol? item)))
        start ↔
      x ∈ start ∨ ∃ item ∈ kernel, g.nextSymbol? item = some x ∧ x < g.nonterminalCount := by
  induction kernel generalizing start with
  | nil => simp
  | cons item kernel ih =>
    rw [List.foldl_cons, ih, SymbolSet.mem_union, mem_nonterminalSet, List.exists_mem_cons_iff, or_assoc]

/-- A set of symbols as a row of one set. -/
def single (set : SymbolSet) : Array SymbolSet := #[set]

theorem single_injective : Function.Injective single := fun _ _ same => by
  simpa [single] using same

theorem mem_setAt_single {set : SymbolSet} {i x : Nat} :
    x ∈ setAt (single set) i ↔ i = 0 ∧ x ∈ set := by
  cases i with
  | zero => simp [setAt, single]
  | succ i => simp [setAt, single, Array.getD]

theorem grows_reachUpdate (reached : SymbolSet) (p : NumberedProduction) :
    Grows (single reached) (single (g.reachUpdate reached p)) := by
  refine ⟨rfl, fun i x member => ?_⟩
  obtain ⟨rfl, old⟩ := mem_setAt_single.mp member
  exact mem_setAt_single.mpr ⟨rfl, mem_reachUpdate.mpr (Or.inl old)⟩

theorem reaches_of_mem {kernel : List Item} {a : Nat} (member : a ∈ g.reached kernel) :
    g.Reaches kernel a := by
  have sound : ∀ a, a ∈ g.reached kernel → g.Reaches kernel a := by
    refine saturate_induction (P := fun set : SymbolSet => ∀ a, a ∈ set → g.Reaches kernel a) ?_ _ ?_
    · intro reached holds
      rw [reachStep_eq]
      refine foldl_induction (P := fun set : SymbolSet => ∀ a, a ∈ set → g.Reaches kernel a) ?_ holds
      intro reached p inList holds a member
      obtain ⟨k, inside, rfl⟩ := List.getElem_of_mem inList
      rcases mem_reachUpdate.mp member with old | ⟨left, next, below⟩
      · exact holds a old
      · exact .production (k := k) (by simp) (holds _ left) next below
    · intro a member
      rcases mem_reachSeeds.mp member with none | ⟨item, inKernel, next, below⟩
      · exact absurd none (SymbolSet.not_mem_empty a)
      · exact .kernel inKernel next below
  exact sound a member

theorem reachStep_reached (g : Numbered) (kernel : List Item) :
    g.reachStep (g.reached kernel) = g.reached kernel := by
  refine saturate_fixed single 1 g.nonterminalCount single_injective ?_ ?_ ?_ (by omega)
  · intro reached within
    refine ⟨rfl, fun i x member => ?_⟩
    obtain ⟨_, member⟩ := mem_setAt_single.mp member
    rw [reachStep_eq] at member
    refine foldl_induction (P := fun set : SymbolSet => ∀ x, x ∈ set → x < g.nonterminalCount) ?_ ?_ x
      member
    · intro set p _ below x member
      rcases mem_reachUpdate.mp member with old | ⟨_, _, next⟩
      · exact below x old
      · exact next
    · exact fun x member => within.lt_of_mem 0 x (mem_setAt_single.mpr ⟨rfl, member⟩)
  · intro reached
    rw [reachStep_eq]
    exact grows_foldl single grows_reachUpdate g.productions.toList reached
  · refine ⟨rfl, fun i x member => ?_⟩
    obtain ⟨_, member⟩ := mem_setAt_single.mp member
    rcases mem_reachSeeds.mp member with none | ⟨_, _, _, below⟩
    · exact absurd none (SymbolSet.not_mem_empty x)
    · exact below

/-- **The computed nonterminals are exactly those that a kernel reaches.** -/
theorem mem_reached {kernel : List Item} {a : Nat} : a ∈ g.reached kernel ↔ g.Reaches kernel a := by
  refine ⟨reaches_of_mem, fun reaches => ?_⟩
  induction reaches with
  | @kernel item a inKernel next below =>
    refine saturate_induction (P := fun set : SymbolSet => a ∈ set) ?_ _
      (mem_reachSeeds.mpr (Or.inr ⟨item, inKernel, next, below⟩))
    intro set member
    rw [reachStep_eq]
    exact foldl_induction (P := fun set : SymbolSet => a ∈ set)
      (fun set p _ old => mem_reachUpdate.mpr (Or.inl old)) member
  | @production k p a found _ next below ih =>
    have fixed := reachStep_reached g kernel
    rw [reachStep_eq] at fixed
    have member : p ∈ g.productions.toList := by
      rw [Array.mem_toList_iff]
      exact Array.mem_of_getElem? found
    rw [← update_eq_of_foldl_eq single single_injective grows_reachUpdate fixed p member]
    exact mem_reachUpdate.mpr (Or.inr ⟨ih, next, below⟩)

/-- **The items of a state** are its kernel and the productions of the nonterminals that it reaches. -/
theorem mem_itemsOf {kernel : List Item} {item : Item} :
    item ∈ g.itemsOf kernel ↔ item ∈ kernel ∨
      (item.dot = 0 ∧ ∃ p, g.productions[item.production]? = some p ∧ g.Reaches kernel p.left) := by
  simp only [itemsOf, List.mem_append, List.mem_filterMap, List.mem_range]
  refine or_congr_right ?_
  constructor
  · rintro ⟨k, inside, made⟩
    split at made
    · rename_i p found
      split at made
      · rename_i inReached
        obtain rfl := Option.some.inj made
        exact ⟨rfl, p, found, mem_reached.mp inReached⟩
      · exact absurd made (by simp)
    · exact absurd made (by simp)
  · rintro ⟨atStart, p, found, reaches⟩
    have inside : item.production < g.productions.size := by
      by_contra beyond
      rw [Array.getElem?_eq_none (Nat.le_of_not_lt beyond)] at found
      exact absurd found (by simp)
    refine ⟨item.production, inside, ?_⟩
    have inReached : (g.reached kernel).contains p.left = true := mem_reached.mpr reaches
    cases item
    simp only at atStart found
    simp [found, inReached, atStart]

/-! ### Moving the dot -/

/-- One update of a kernel under construction. -/
theorem mem_advance_foldl {items kernel : List Item} {x : Nat} {item : Item} :
    item ∈ items.foldl (fun kernel item =>
        if g.nextSymbol? item = some x then Item.insertInto ⟨item.production, item.dot + 1⟩ kernel
        else kernel) kernel ↔
      item ∈ kernel ∨ ∃ origin ∈ items, g.nextSymbol? origin = some x ∧ item = origin.advanced := by
  induction items generalizing kernel with
  | nil => simp
  | cons origin items ih =>
    rw [List.foldl_cons, ih, List.exists_mem_cons_iff]
    split
    · rename_i next
      rw [Item.mem_insertInto]
      simp only [next, true_and, Item.advanced]
      rw [or_assoc, or_left_comm]
    · rename_i other
      simp [other]

/-- **Reading a symbol** moves the dot of the items that have it next. -/
theorem mem_advance {items : List Item} {x : Nat} {item : Item} :
    item ∈ g.advance items x ↔
      ∃ origin ∈ items, g.nextSymbol? origin = some x ∧ item = origin.advanced := by
  rw [advance, mem_advance_foldl]
  simp

theorem ascending_advance (items : List Item) (x : Nat) : Item.Ascending (g.advance items x) := by
  unfold advance
  refine foldl_induction (P := Item.Ascending) ?_ List.Pairwise.nil
  intro kernel item _ ascending
  split
  · exact Item.ascending_insertInto ascending
  · exact ascending

/-! ### Valid items -/

/-- An item of a production, with its dot within the right side. -/
def ValidItem (g : Numbered) (item : Item) : Prop :=
  ∃ p, g.productions[item.production]? = some p ∧ item.dot ≤ p.right.length

theorem nextSymbol?_eq_some {item : Item} {x : Nat} :
    g.nextSymbol? item = some x ↔
      ∃ p, g.productions[item.production]? = some p ∧ p.right[item.dot]? = some x := by
  unfold nextSymbol?
  cases g.productions[item.production]? <;> simp

theorem ValidItem.nextSymbol?_eq_none {item : Item} (valid : g.ValidItem item)
    (none : g.nextSymbol? item = none) :
    ∃ p, g.productions[item.production]? = some p ∧ item.dot = p.right.length := by
  obtain ⟨p, found, within⟩ := valid
  refine ⟨p, found, ?_⟩
  unfold nextSymbol? at none
  rw [found] at none
  have beyond := List.getElem?_eq_none_iff.mp none
  omega

theorem validItem_advanced {item : Item} {x : Nat} (next : g.nextSymbol? item = some x) :
    g.ValidItem item.advanced := by
  obtain ⟨p, found, atDot⟩ := nextSymbol?_eq_some.mp next
  refine ⟨p, found, ?_⟩
  have := (List.getElem?_eq_some_iff.mp atDot).1
  exact this

theorem lt_symbolCount_of_next (proper : g.Proper) {item : Item} {x : Nat}
    (next : g.nextSymbol? item = some x) : x < g.symbolCount := by
  obtain ⟨p, found, atDot⟩ := nextSymbol?_eq_some.mp next
  exact proper.right_lt found x (List.mem_of_getElem? atDot)

/-- All valid items, production by production. -/
def allItems (g : Numbered) : List Item :=
  g.productions.toList.zipIdx.flatMap fun (p, k) =>
    (List.range (p.right.length + 1)).map fun dot => ⟨k, dot⟩

theorem mem_allItems {item : Item} (valid : g.ValidItem item) : item ∈ g.allItems := by
  obtain ⟨p, found, within⟩ := valid
  refine List.mem_flatMap.mpr ⟨(p, item.production), ?_, ?_⟩
  · rw [List.mem_zipIdx_iff_getElem?]
    simpa using found
  · exact List.mem_map.mpr ⟨item.dot, List.mem_range.mpr (Nat.lt_succ_of_le within), rfl⟩

theorem length_allItems (g : Numbered) : g.allItems.length = g.itemCount := by
  unfold allItems itemCount
  rw [← Array.foldl_toList, List.length_flatMap]
  suffices general : ∀ (ps : List NumberedProduction) (k count : Nat),
      count + ((ps.zipIdx k).map fun pair =>
        ((List.range (pair.1.right.length + 1)).map fun dot => (⟨pair.2, dot⟩ : Item)).length).sum =
      ps.foldl (fun count p => count + p.right.length + 1) count by
    simpa using general g.productions.toList 0 0
  intro ps
  induction ps with
  | nil => simp
  | cons p ps ih =>
    intro k count
    rw [List.zipIdx_cons, List.map_cons, List.sum_cons, List.foldl_cons, ← ih (k + 1)]
    simp only [List.length_map, List.length_range]
    omega

/-- **There are at most `2 ^ itemCount` kernels**, ascending lists of valid items. -/
theorem length_le_of_valid {kernels : List (List Item)} (distinct : kernels.Nodup)
    (valid : ∀ kernel ∈ kernels, Item.Ascending kernel ∧ ∀ item ∈ kernel, g.ValidItem item) :
    kernels.length ≤ 2 ^ g.itemCount := by
  have image : kernels.toFinset.card ≤ g.allItems.toFinset.powerset.card := by
    refine Finset.card_le_card_of_injOn List.toFinset ?_ ?_
    · intro kernel member
      have inKernels : kernel ∈ kernels := by simpa using member
      rw [Finset.mem_coe, Finset.mem_powerset]
      intro item inside
      rw [List.mem_toFinset] at inside ⊢
      exact mem_allItems ((valid kernel inKernels).2 item inside)
    · intro first inFirst second inSecond same
      have inFirst : first ∈ kernels := by simpa using inFirst
      have inSecond : second ∈ kernels := by simpa using inSecond
      refine (valid first inFirst).1.ext (valid second inSecond).1 fun item => ?_
      rw [← List.mem_toFinset, ← List.mem_toFinset, same]
  calc kernels.length = kernels.toFinset.card := (List.toFinset_card_of_nodup distinct).symm
    _ ≤ g.allItems.toFinset.powerset.card := image
    _ = 2 ^ g.allItems.toFinset.card := Finset.card_powerset _
    _ ≤ 2 ^ g.allItems.length := Nat.pow_le_pow_right (by norm_num) (List.toFinset_card_le _)
    _ = 2 ^ g.itemCount := by rw [length_allItems]

end Numbered

end XPathAnnotator.Grammar
