/-
**The item automaton is complete.**

Exploration ends with all states visited, since there are fewer states than sets of items. `Explored` is
what it leaves behind:

* every transition leads from a state over a symbol to the state of the kernel that reading it gives, and
  every such kernel has a transition (`Explored.target_iff`);
* every state but the first is the target of a transition from an earlier one;
* `explored_of` — the automaton of a proper grammar is explored;
* `loopEnds_explore` — the loop that visits the next state ends once all states are visited.
-/

import Mathlib
import XPathAnnotator.Proofs.Grammar.Items

namespace XPathAnnotator.Grammar

namespace Automaton

/-- The kernel that reading a symbol in the state of a kernel gives. -/
abbrev stepKernel (g : Numbered) (kernel : List Item) (x : Nat) : List Item :=
  g.advance (g.itemsOf kernel) x

/-- A kernel of a state: ascending, of valid items. -/
structure GoodKernel (g : Numbered) (kernel : List Item) : Prop where
  ascending : Item.Ascending kernel
  valid : ∀ item ∈ kernel, g.ValidItem item

theorem goodKernel_advance (g : Numbered) (items : List Item) (x : Nat) :
    GoodKernel g (g.advance items x) := by
  refine ⟨Numbered.ascending_advance items x, fun item member => ?_⟩
  obtain ⟨origin, _, next, rfl⟩ := Numbered.mem_advance.mp member
  exact Numbered.validItem_advanced next

/-- One row of kernels continues another. -/
def Continues (kernels more : Array (List Item)) : Prop :=
  ∀ (k : Nat) (kernel : List Item), kernels[k]? = some kernel → more[k]? = some kernel

theorem Continues.trans {first second third : Array (List Item)} (one : Continues first second)
    (other : Continues second third) : Continues first third :=
  fun k kernel found => other k kernel (one k kernel found)

theorem Continues.size_le {kernels more : Array (List Item)} (continues : Continues kernels more) :
    kernels.size ≤ more.size := by
  by_contra shorter
  have inside : more.size < kernels.size := Nat.lt_of_not_le shorter
  have found := continues more.size kernels[more.size] (Array.getElem?_eq_getElem inside)
  rw [Array.getElem?_eq_none (Nat.le_refl _)] at found
  exact absurd found (by simp)

theorem continues_push (kernels : Array (List Item)) (kernel : List Item) :
    Continues kernels (kernels.push kernel) := by
  intro k other found
  have inside := (Array.getElem?_eq_some_iff.mp found).1
  rw [Array.getElem?_push, if_neg (by omega)]
  exact found

/-! ### The number of a kernel -/

/-- What `stateOf` gives: a number at which the kernel stands, in a row that is longer by at most it. -/
structure Numbers (kernels : Array (List Item)) (kernel : List Item) (k : Nat)
    (more : Array (List Item)) : Prop where
  continues : Continues kernels more
  found : more[k]? = some kernel
  distinct : kernels.toList.Nodup → more.toList.Nodup
  origin : ∀ other ∈ more, other ∈ kernels ∨ other = kernel
  fresh : ∀ j, kernels.size ≤ j → j < more.size → j = k

theorem numbers_stateOf (kernels : Array (List Item)) (kernel : List Item) :
    Numbers kernels kernel (stateOf kernels kernel).1 (stateOf kernels kernel).2 := by
  unfold stateOf
  cases searched : kernels.idxOf? kernel with
  | some k =>
    have inList : kernels.toList.idxOf? kernel = some k := by rw [Array.idxOf?_toList, searched]
    obtain ⟨inside, same, _⟩ := List.idxOf?_eq_some_iff.mp inList
    have inside : k < kernels.size := by simpa using inside
    refine ⟨fun _ _ found => found, ?_, id, fun other member => Or.inl member, ?_⟩
    · rw [Array.getElem?_eq_getElem inside]
      exact congrArg some (by simpa using same)
    · intro j above below
      exact absurd below (Nat.not_lt.mpr above)
  | none =>
    have absent : kernel ∉ kernels := by simpa using searched
    refine ⟨continues_push _ _, by simp, fun distinct => ?_, fun other member => ?_, ?_⟩
    · rw [Array.toList_push]
      refine List.nodup_append.mpr ⟨distinct, List.nodup_singleton _, ?_⟩
      rintro a inKernels b isKernel rfl
      rw [List.mem_singleton.mp isKernel, Array.mem_toList_iff] at inKernels
      exact absent inKernels
    · simpa using member
    · intro j above below
      rw [Array.size_push] at below
      exact Nat.le_antisymm (Nat.le_of_lt_succ below) above

/-! ### The transitions of a state -/

/-- What `expand` gives for the items of a state and some symbols. -/
structure Expands (g : Numbered) (items : List Item) (kernels : Array (List Item)) (symbols : List Nat)
    (row : List (Nat × Nat)) (more : Array (List Item)) : Prop where
  continues : Continues kernels more
  distinct : kernels.toList.Nodup → more.toList.Nodup
  good : (∀ kernel ∈ kernels, GoodKernel g kernel) → ∀ kernel ∈ more, GoodKernel g kernel
  target : ∀ x k, row.lookup x = some k →
    x ∈ symbols ∧ g.advance items x ≠ [] ∧ more[k]? = some (g.advance items x)
  complete : ∀ x ∈ symbols, g.advance items x ≠ [] → ∃ k, row.lookup x = some k
  fresh : ∀ k, kernels.size ≤ k → k < more.size → ∃ x, row.lookup x = some k

theorem expands_nil (g : Numbered) (items : List Item) (kernels : Array (List Item)) :
    Expands g items kernels [] [] kernels :=
  { continues := fun _ _ found => found
    distinct := id
    good := id
    target := fun _ _ found => absurd found (by simp)
    complete := fun _ member => absurd member List.not_mem_nil
    fresh := fun _ above below => absurd below (Nat.not_lt.mpr above) }

/-- A symbol that no item has next adds nothing. -/
theorem Expands.skip {g : Numbered} {items : List Item} {kernels more : Array (List Item)}
    {symbols : List Nat} {row : List (Nat × Nat)} (expands : Expands g items kernels symbols row more)
    {s : Nat} (unread : g.advance items s = []) :
    Expands g items kernels (s :: symbols) row more :=
  { continues := expands.continues
    distinct := expands.distinct
    good := expands.good
    target := fun x k found => by
      obtain ⟨member, rest⟩ := expands.target x k found
      exact ⟨List.mem_cons_of_mem _ member, rest⟩
    complete := fun x member nonempty => by
      rcases List.mem_cons.mp member with rfl | member
      · exact absurd unread nonempty
      · exact expands.complete x member nonempty
    fresh := expands.fresh }

/-- A symbol that is read adds the transition to the state of its kernel. -/
theorem Expands.read {g : Numbered} {items : List Item} {kernels middle more : Array (List Item)}
    {symbols : List Nat} {row : List (Nat × Nat)} {s k : Nat}
    (numbers : Numbers kernels (g.advance items s) k middle)
    (expands : Expands g items middle symbols row more) (new : s ∉ symbols)
    (nonempty : g.advance items s ≠ []) :
    Expands g items kernels (s :: symbols) ((s, k) :: row) more := by
  have absent : row.lookup s = none := by
    by_contra present
    obtain ⟨j, found⟩ := Option.ne_none_iff_exists'.mp present
    exact new (expands.target s j found).1
  refine
    { continues := numbers.continues.trans expands.continues
      distinct := fun distinct => expands.distinct (numbers.distinct distinct)
      good := fun good => expands.good fun kernel member => ?_
      target := fun x j found => ?_
      complete := fun x member read => ?_
      fresh := fun j above below => ?_ }
  · rcases numbers.origin kernel member with old | rfl
    · exact good kernel old
    · exact goodKernel_advance g items s
  · rw [List.lookup_cons] at found
    by_cases same : x = s
    · subst same
      simp only [beq_self_eq_true, Option.some.injEq] at found
      subst found
      exact ⟨List.mem_cons_self, nonempty, expands.continues _ _ numbers.found⟩
    · rw [show (x == s) = false by simpa using same] at found
      obtain ⟨member, rest⟩ := expands.target x j found
      exact ⟨List.mem_cons_of_mem _ member, rest⟩
  · rw [List.lookup_cons]
    by_cases same : x = s
    · subst same
      exact ⟨k, by simp⟩
    · rw [show (x == s) = false by simpa using same]
      exact expands.complete x ((List.mem_cons.mp member).resolve_left same) read
  · by_cases known : j < middle.size
    · refine ⟨s, ?_⟩
      rw [numbers.fresh j above known]
      simp
    · obtain ⟨x, found⟩ := expands.fresh j (Nat.le_of_not_lt known) below
      refine ⟨x, ?_⟩
      have different : x ≠ s := by
        rintro rfl
        rw [absent] at found
        exact absurd found (by simp)
      rw [List.lookup_cons, show (x == s) = false by simpa using different]
      exact found

/-- The transitions that `expand` finds. -/
theorem expands_expand (g : Numbered) (items : List Item) {symbols : List Nat}
    (distinct : symbols.Nodup) (kernels : Array (List Item)) :
    Expands g items kernels symbols (expand g items kernels symbols).1
      (expand g items kernels symbols).2 := by
  induction symbols generalizing kernels with
  | nil => exact expands_nil g items kernels
  | cons s symbols ih =>
    obtain ⟨new, rest⟩ := List.nodup_cons.mp distinct
    rw [expand]
    split
    · rename_i unread
      exact (ih rest kernels).skip unread
    · rename_i unread
      exact Expands.read (numbers_stateOf kernels _) (ih rest _) new unread

/-! ### Exploration -/

/-- An automaton under construction: the states that have a row are complete, and every known state is
reached from an earlier one. -/
structure Exploring (g : Numbered) (a : Automaton) : Prop where
  start : a.kernels[0]? = some [⟨0, 0⟩]
  visited : a.transitions.size ≤ a.kernels.size
  distinct : a.kernels.toList.Nodup
  good : ∀ kernel ∈ a.kernels, GoodKernel g kernel
  target : ∀ {k x j : Nat}, a.target? k x = some j → ∃ kernel, a.kernels[k]? = some kernel ∧
    x < g.symbolCount ∧ stepKernel g kernel x ≠ [] ∧ a.kernels[j]? = some (stepKernel g kernel x)
  complete : ∀ {k x : Nat} {kernel : List Item}, k < a.transitions.size →
    a.kernels[k]? = some kernel → x < g.symbolCount → stepKernel g kernel x ≠ [] →
      ∃ j, a.target? k x = some j
  origin : ∀ k, 0 < k → k < a.kernels.size → ∃ j < k, ∃ x, a.target? j x = some k

/-- An automaton all of whose states are visited. -/
structure Explored (g : Numbered) (a : Automaton) : Prop extends Exploring g a where
  all_visited : a.transitions.size = a.kernels.size

theorem target?_push (kernels : Array (List Item)) {more : Array (List Item)} {rows : Array (List (Nat × Nat))}
    {row : List (Nat × Nat)} {k x : Nat} :
    (Automaton.mk more (rows.push row)).target? k x =
      if k = rows.size then row.lookup x else (Automaton.mk kernels rows).target? k x := by
  unfold target?
  by_cases last : k = rows.size
  · simp [last]
  · simp [Array.getElem?_push, last]

/-- Visiting the next state keeps what holds of an automaton under construction. -/
theorem Exploring.visit {g : Numbered} {a : Automaton} (exploring : Exploring g a) {kernel : List Item}
    (next : a.kernels[a.transitions.size]? = some kernel) {row : List (Nat × Nat)}
    {more : Array (List Item)}
    (expands : Expands g (g.itemsOf kernel) a.kernels (List.range g.symbolCount) row more) :
    Exploring g ⟨more, a.transitions.push row⟩ := by
  have inside := (Array.getElem?_eq_some_iff.mp next).1
  have sizes := expands.continues.size_le
  refine
    { start := expands.continues _ _ exploring.start
      visited := ?_
      distinct := expands.distinct exploring.distinct
      good := expands.good exploring.good
      target := ?_
      complete := ?_
      origin := ?_ }
  · simp only [Array.size_push]
    omega
  · intro k x j found
    rw [target?_push a.kernels] at found
    split at found
    · rename_i here
      obtain ⟨member, nonempty, reached⟩ := expands.target x j found
      refine ⟨kernel, ?_, List.mem_range.mp member, nonempty, reached⟩
      rw [here]
      exact expands.continues _ _ next
    · obtain ⟨old, atState, below, nonempty, reached⟩ := exploring.target found
      exact ⟨old, expands.continues _ _ atState, below, nonempty, expands.continues _ _ reached⟩
  · intro k x old visitedNow atState below nonempty
    rw [Array.size_push] at visitedNow
    have known : a.kernels[k]? = some old := by
      have inOld : k < a.kernels.size := by omega
      have carried := expands.continues k _ (Array.getElem?_eq_getElem inOld)
      rw [Array.getElem?_eq_getElem inOld]
      exact carried.symm.trans atState
    rw [target?_push a.kernels]
    split
    · rename_i here
      rw [here, next] at known
      obtain rfl := Option.some.inj known
      exact expands.complete x (List.mem_range.mpr below) nonempty
    · rename_i elsewhere
      exact exploring.complete (by omega) known below nonempty
  · intro k positive below
    by_cases known : k < a.kernels.size
    · obtain ⟨j, earlier, x, found⟩ := exploring.origin k positive known
      refine ⟨j, earlier, x, ?_⟩
      rw [target?_push a.kernels]
      split
      · rename_i here
        rw [here] at found
        unfold target? at found
        rw [Array.getElem?_eq_none (Nat.le_refl _)] at found
        exact absurd found (by simp)
      · exact found
    · obtain ⟨x, found⟩ := expands.fresh k (Nat.le_of_not_lt known) below
      refine ⟨a.transitions.size, by omega, x, ?_⟩
      rw [target?_push a.kernels, if_pos rfl]
      exact found

/-- There are no more states than sets of items. -/
theorem Exploring.size_le {g : Numbered} {a : Automaton} (exploring : Exploring g a) :
    a.kernels.size ≤ 2 ^ g.itemCount := by
  rw [← Array.length_toList]
  refine Numbered.length_le_of_valid exploring.distinct fun kernel member => ?_
  have good := exploring.good kernel (Array.mem_toList_iff.mp member)
  exact ⟨good.ascending, good.valid⟩

/-- Exploration with enough fuel visits all states. -/
theorem explored_explore {g : Numbered} (fuel : Nat) {a : Automaton} (exploring : Exploring g a)
    (enough : 2 ^ g.itemCount < fuel + a.transitions.size) : Explored g (explore g a fuel) := by
  induction fuel generalizing a with
  | zero =>
    have few := exploring.size_le
    have visited := exploring.visited
    omega
  | succ fuel ih =>
    rw [explore]
    split
    · rename_i done
      have above := Array.getElem?_eq_none_iff.mp done
      exact { exploring with all_visited := Nat.le_antisymm exploring.visited above }
    · rename_i kernel next
      refine ih (exploring.visit next (expands_expand g _ List.nodup_range a.kernels)) ?_
      rw [Array.size_push]
      omega

/-- **The automaton of a proper grammar is explored.** -/
theorem explored_of {g : Numbered} (proper : g.Proper) : Explored g (Automaton.of g) := by
  obtain ⟨s, implicit⟩ := proper.implicit
  refine explored_explore _ ?_ (Nat.lt_add_right _ (Nat.lt_succ_self _))
  refine
    { start := rfl
      visited := Nat.zero_le _
      distinct := List.nodup_singleton _
      good := ?_
      target := ?_
      complete := ?_
      origin := ?_ }
  · intro kernel member
    obtain rfl : kernel = [⟨0, 0⟩] := by simpa using member
    refine ⟨List.pairwise_singleton _ _, fun item inside => ?_⟩
    obtain rfl := List.mem_singleton.mp inside
    exact ⟨_, implicit, Nat.zero_le _⟩
  · intro k x j found
    simp [target?] at found
  · intro k x kernel visited
    simp at visited
  · intro k positive below
    simp at below
    omega

/-! ### Exploration without fuel -/

/-- An automaton under construction after its next state is visited, if there is one. -/
def visit? (g : Numbered) (a : Automaton) : Option Automaton :=
  match a.kernels[a.transitions.size]? with
  | none => none
  | some kernel =>
    let (row, kernels) := expand g (g.itemsOf kernel) a.kernels (List.range g.symbolCount)
    some ⟨kernels, a.transitions.push row⟩

/-- **Exploration ends** when all states are visited. -/
theorem loopEnds_explore {g : Numbered} {fuel : Nat} {a : Automaton}
    (visited : (explore g a fuel).transitions.size = (explore g a fuel).kernels.size) :
    LoopEnds (visit? g) a (explore g a fuel) := by
  induction fuel generalizing a with
  | zero =>
    refine .ended ?_
    have visited : a.transitions.size = a.kernels.size := visited
    rw [visit?, visited, Array.getElem?_eq_none (Nat.le_refl _)]
  | succ fuel ih =>
    rw [explore] at visited ⊢
    cases next : a.kernels[a.transitions.size]? with
    | none => exact .ended (by rw [visit?, next])
    | some kernel =>
      rw [next] at visited
      exact .next (by rw [visit?, next]) (ih visited)

/-! ### What the explored automaton tells -/

namespace Explored

variable {g : Numbered} {a : Automaton}

/-- Two numbers of one kernel are equal. -/
theorem state_inj (explored : Explored g a) {j k : Nat} {kernel : List Item}
    (one : a.kernels[j]? = some kernel) (other : a.kernels[k]? = some kernel) : j = k := by
  have inFirst := (Array.getElem?_eq_some_iff.mp one).1
  refine (List.getElem?_inj (by simpa using inFirst) explored.distinct).mp ?_
  rw [Array.getElem?_toList, Array.getElem?_toList, one, other]

/-- **Transitions are exactly the steps between kernels.** -/
theorem target_iff (explored : Explored g a) {k x j : Nat} {kernel : List Item}
    (atState : a.kernels[k]? = some kernel) :
    a.target? k x = some j ↔ x < g.symbolCount ∧ stepKernel g kernel x ≠ [] ∧
      a.kernels[j]? = some (stepKernel g kernel x) := by
  constructor
  · intro found
    obtain ⟨other, atOther, below, nonempty, reached⟩ := explored.target found
    obtain rfl := Option.some.inj (atState.symm.trans atOther)
    exact ⟨below, nonempty, reached⟩
  · rintro ⟨below, nonempty, reached⟩
    have inside := (Array.getElem?_eq_some_iff.mp atState).1
    obtain ⟨i, found⟩ := explored.complete (by rw [explored.all_visited]; exact inside) atState below
      nonempty
    obtain ⟨other, atOther, _, _, reachedOther⟩ := explored.target found
    obtain rfl := Option.some.inj (atState.symm.trans atOther)
    rw [explored.state_inj reached reachedOther]
    exact found

/-- An item with a symbol next has a transition, to a state whose kernel holds it advanced. -/
theorem target_of_next (proper : g.Proper) (explored : Explored g a) {k x : Nat} {kernel : List Item}
    (atState : a.kernels[k]? = some kernel) {item : Item} (member : item ∈ g.itemsOf kernel)
    (next : g.nextSymbol? item = some x) :
    ∃ j, a.target? k x = some j ∧ ∃ other, a.kernels[j]? = some other ∧ item.advanced ∈ other := by
  have inStep : item.advanced ∈ stepKernel g kernel x :=
    Numbered.mem_advance.mpr ⟨item, member, next, rfl⟩
  have inside := (Array.getElem?_eq_some_iff.mp atState).1
  obtain ⟨j, found⟩ := explored.complete (by rw [explored.all_visited]; exact inside) atState
    (Numbered.lt_symbolCount_of_next proper next) (List.ne_nil_of_mem inStep)
  exact ⟨j, found, _, ((explored.target_iff atState).mp found).2.2, inStep⟩

/-- The kernel that a transition leads to holds the advanced items of its origin. -/
theorem mem_target_iff (explored : Explored g a) {k x j : Nat} {kernel other : List Item}
    (atState : a.kernels[k]? = some kernel) (found : a.target? k x = some j)
    (atTarget : a.kernels[j]? = some other) {item : Item} :
    item ∈ other ↔ ∃ origin ∈ g.itemsOf kernel, g.nextSymbol? origin = some x ∧
      item = origin.advanced := by
  have reached := ((explored.target_iff atState).mp found).2.2
  obtain rfl := Option.some.inj (atTarget.symm.trans reached)
  exact Numbered.mem_advance

/-- Only the first state has an item whose dot has not moved. -/
theorem eq_zero_of_dot_eq_zero (explored : Explored g a) {k : Nat} {kernel : List Item}
    (atState : a.kernels[k]? = some kernel) {item : Item} (member : item ∈ kernel)
    (atStart : item.dot = 0) : k = 0 := by
  by_contra positive
  obtain ⟨j, _, x, found⟩ := explored.origin k (Nat.pos_of_ne_zero positive)
    (Array.getElem?_eq_some_iff.mp atState).1
  obtain ⟨before, atBefore, _⟩ := explored.target found
  obtain ⟨origin, _, _, rfl⟩ := (explored.mem_target_iff atBefore found atState).mp member
  simp [Item.advanced] at atStart

/-- No transition leads to the first state. -/
theorem target_ne_zero (explored : Explored g a) {k x : Nat} : a.target? k x ≠ some 0 := by
  intro found
  obtain ⟨kernel, atState, _⟩ := explored.target found
  obtain ⟨origin, _, _, same⟩ := (explored.mem_target_iff atState found explored.start).mp
    (List.mem_singleton_self _)
  simp [Item.advanced] at same

theorem good_of (explored : Explored g a) {k : Nat} {kernel : List Item}
    (atState : a.kernels[k]? = some kernel) : GoodKernel g kernel :=
  explored.good kernel (Array.mem_of_getElem? atState)

end Explored

end Automaton

end XPathAnnotator.Grammar
