/-
**Closures item by item.**

The closure of a kernel can be completed item by item. A worklist keeps the look-aheads found for each item and the
items that are still to be looked at, the latest first. Looking at an item adds what may stand after its next symbol to
the look-aheads of the productions of that symbol, and only those whose look-aheads grow are to be looked at again.

So each look either leaves one item less to look at, or fills places of which there are only so many
(`Completing.step`), and when nothing is left, the closure is found (`Completing.found_iff`). Without look-aheads a list
will do that grows at its end while it is gone through (`Listed.step`).

* `Listing.exists_loopEnds_itemsOf` — listing the items of a state one after another ends with all of them;
* `Worklist.exists_loopEnds_closure` — **completing a kernel item by item ends with its closure.**
-/

import Mathlib
import XPathAnnotator.Proofs.Data.Lookups
import XPathAnnotator.Proofs.Grammar.Gathering

namespace XPathAnnotator.Grammar

namespace Numbered

/-- The items in which the productions of a symbol start. -/
def startsOf (g : Numbered) (symbol : Option Nat) : List Item :=
  ((List.range g.productions.size).filter fun p => g.productions[p]?.map (·.left) == symbol).map fun p => ⟨p, 0⟩

theorem mem_startsOf {g : Numbered} {symbol : Option Nat} {item : Item} :
    item ∈ g.startsOf symbol ↔
      item.dot = 0 ∧ ∃ p, g.productions[item.production]? = some p ∧ symbol = some p.left := by
  simp only [startsOf, List.mem_map, List.mem_filter, List.mem_range, beq_iff_eq]
  constructor
  · rintro ⟨k, ⟨inside, rfl⟩, rfl⟩
    exact ⟨rfl, _, Array.getElem?_eq_getElem inside, by rw [Array.getElem?_eq_getElem inside]; rfl⟩
  · rintro ⟨atStart, p, found, rfl⟩
    refine ⟨item.production, ⟨(Array.getElem?_eq_some_iff.mp found).1, by rw [found]; rfl⟩, ?_⟩
    rw [← atStart]

variable {g : Numbered} {k b : Nat} {p : NumberedProduction}

/-- The start of a production starts its left side. -/
theorem mem_startsOf_left (found : g.productions[k]? = some p) : ⟨k, 0⟩ ∈ g.startsOf (some p.left) :=
  mem_startsOf.mpr ⟨rfl, p, found, rfl⟩

theorem nextSymbol?_start (found : g.productions[k]? = some p) (head : p.right.head? = some b) :
    g.nextSymbol? ⟨k, 0⟩ = some b := by
  rw [List.head?_eq_getElem?] at head
  exact nextSymbol?_eq_some.mpr ⟨p, found, head⟩

theorem nodup_startsOf (symbol : Option Nat) : (g.startsOf symbol).Nodup :=
  (List.nodup_range.filter _).map fun _ _ same => (Item.mk.inj same).1

end Numbered

/-! ### The items of a state -/

/-- The items of a state under construction: those listed, and how many of them have been looked at. -/
structure Listing where
  items : List Item
  seen : Nat

namespace Listing

variable {g : Numbered} {kernel : List Item} {l : Listing}

/-- Looks at the next item listed, if there is one: the starts of the productions of its next symbol that are not
listed yet are put at the end. -/
def look? (g : Numbered) (l : Listing) : Option Listing :=
  match l.items[l.seen]? with
  | none => none
  | some item => some ⟨l.items ++ (g.startsOf (g.nextSymbol? item)).filter (· ∉ l.items), l.seen + 1⟩

theorem look?_eq_none : l.look? g = none ↔ l.items[l.seen]? = none := by
  unfold look?
  cases l.items[l.seen]? <;> simp

theorem look?_eq_some {next : Listing} : l.look? g = some next ↔ ∃ item, l.items[l.seen]? = some item ∧
    next = ⟨l.items ++ (g.startsOf (g.nextSymbol? item)).filter (· ∉ l.items), l.seen + 1⟩ := by
  unfold look?
  cases l.items[l.seen]? <;> simp [eq_comm]

/-- A list under construction: what is listed belongs to the state, each item once, and what an item starts that has
been looked at is listed. -/
structure Listed (g : Numbered) (kernel : List Item) (l : Listing) : Prop where
  distinct : l.items.Nodup
  kept : ∀ item ∈ kernel, item ∈ l.items
  origin : ∀ item ∈ l.items, item ∈ g.itemsOf kernel
  looked : ∀ i item, i < l.seen → l.items[i]? = some item →
    ∀ start ∈ g.startsOf (g.nextSymbol? item), start ∈ l.items

namespace Listed

/-- What an item of a state starts belongs to the state. -/
theorem mem_itemsOf_of_starts (proper : g.Proper) {item start : Item} (member : item ∈ g.itemsOf kernel)
    (starts : start ∈ g.startsOf (g.nextSymbol? item)) : start ∈ g.itemsOf kernel := by
  obtain ⟨atStart, p, found, next⟩ := Numbered.mem_startsOf.mp starts
  exact Numbered.mem_itemsOf.mpr (.inr ⟨atStart, p, found, Numbered.reaches_of_next member next (proper.left_lt found)⟩)

/-- **A look** keeps what holds of a list under construction, and leaves fewer items of the state to look at. -/
theorem step (listed : Listed g kernel l) (proper : g.Proper) {next : Listing} (looks : l.look? g = some next) :
    Listed g kernel next ∧ (g.itemsOf kernel).length - next.seen < (g.itemsOf kernel).length - l.seen := by
  obtain ⟨item, here, rfl⟩ := look?_eq_some.mp looks
  have inState := listed.origin item (List.mem_of_getElem? here)
  have inside := (List.getElem?_eq_some_iff.mp here).1
  refine ⟨?_, ?_⟩
  · refine
      { distinct := ?_
        kept := fun other inKernel => List.mem_append.mpr (.inl (listed.kept other inKernel))
        origin := fun other member => ?_
        looked := fun i other before atIndex start starts => ?_ }
    · refine listed.distinct.append ((Numbered.nodup_startsOf _).filter _) fun other old new => ?_
      exact of_decide_eq_true (List.mem_filter.mp new).2 old
    · rcases List.mem_append.mp member with old | new
      · exact listed.origin other old
      · exact mem_itemsOf_of_starts proper inState (List.mem_filter.mp new).1
    · have before : i < l.seen + 1 := before
      rw [List.getElem?_append_left (by omega)] at atIndex
      rcases Nat.lt_succ_iff_lt_or_eq.mp before with earlier | rfl
      · exact List.mem_append.mpr (.inl (listed.looked i other earlier atIndex start starts))
      · obtain rfl := Option.some.inj (here.symm.trans atIndex)
        by_cases known : start ∈ l.items
        · exact List.mem_append.mpr (.inl known)
        · exact List.mem_append.mpr (.inr (List.mem_filter.mpr ⟨starts, decide_eq_true known⟩))
  · have few : l.items.length ≤ (g.itemsOf kernel).length :=
      (List.subperm_of_subset listed.distinct listed.origin).length_le
    show (g.itemsOf kernel).length - (l.seen + 1) < _
    omega

/-- When all items listed have been looked at, all items of the state are listed. -/
theorem mem_items_iff (listed : Listed g kernel l) (done : l.items[l.seen]? = none) {item : Item} :
    item ∈ l.items ↔ item ∈ g.itemsOf kernel := by
  have starts_listed : ∀ other ∈ l.items, ∀ start ∈ g.startsOf (g.nextSymbol? other), start ∈ l.items := by
    intro other member
    obtain ⟨i, atIndex⟩ := List.mem_iff_getElem?.mp member
    have inside := (List.getElem?_eq_some_iff.mp atIndex).1
    have all := List.getElem?_eq_none_iff.mp done
    exact listed.looked i other (by omega) atIndex
  have reached_listed : ∀ b, g.Reaches kernel b → ∀ start ∈ g.startsOf (some b), start ∈ l.items := by
    intro b reaches
    induction reaches with
    | kernel inKernel next _ => exact next ▸ starts_listed _ (listed.kept _ inKernel)
    | production found _ head _ ih =>
      exact Numbered.nextSymbol?_start found head ▸ starts_listed _ (ih _ (Numbered.mem_startsOf_left found))
  refine ⟨listed.origin item, fun member => ?_⟩
  rcases Numbered.mem_itemsOf.mp member with inKernel | ⟨atStart, p, found, reaches⟩
  · exact listed.kept item inKernel
  · exact reached_listed _ reaches item (Numbered.mem_startsOf.mpr ⟨atStart, p, found, rfl⟩)

end Listed

/-- **Listing the items of a state one after another** ends with all of them. -/
theorem exists_loopEnds_itemsOf (proper : g.Proper) (distinct : kernel.Nodup) :
    ∃ l, LoopEnds (look? g) ⟨kernel, 0⟩ l ∧ ∀ item, item ∈ l.items ↔ item ∈ g.itemsOf kernel := by
  have start : Listed g kernel ⟨kernel, 0⟩ :=
    { distinct := distinct
      kept := fun _ inKernel => inKernel
      origin := fun _ inKernel => Numbered.mem_itemsOf.mpr (.inl inKernel)
      looked := fun _ _ before => absurd before (Nat.not_lt_zero _) }
  obtain ⟨l, ends, listed⟩ : ∃ l, LoopEnds (look? g) ⟨kernel, 0⟩ l ∧ Listed g kernel l :=
    exists_loopEnds (fun l => (g.itemsOf kernel).length - l.seen)
      (fun _ _ listed looks => listed.step proper looks) start
  exact ⟨l, ends, fun item => listed.mem_items_iff (look?_eq_none.mp ends.next?_eq_none)⟩

end Listing

/-! ### Closures -/

/-- A closure under construction: the look-aheads found for each item, and the items still to be looked at, the latest
first. -/
structure Worklist where
  found : Item → Option SymbolSet
  todo : List Item

namespace Worklist

/-- The look-aheads found for an item. -/
def known (w : Worklist) (item : Item) : SymbolSet := (w.found item).getD .empty

/-- Adds look-aheads to those of an item, which is to be looked at if they grow. -/
def offer (more : SymbolSet) (w : Worklist) (item : Item) : Worklist :=
  { found := Function.update w.found item (some ((w.known item).union more))
    todo := if (w.known item).union more = w.known item then w.todo else item :: w.todo }

/-- Adds look-aheads to those of some items, one after the other. -/
def offerAll (w : Worklist) (more : SymbolSet) (items : List Item) : Worklist := items.foldl (offer more) w

/-- What may stand after the next symbol of an item. -/
def handedOn (g : Numbered) (w : Worklist) (item : Item) : SymbolSet :=
  Numbered.following g.first (g.restAfterNext item) (w.known item)

/-- Adds what may stand after the next symbol of an item to the look-aheads of the productions of that symbol. -/
def lookAt (g : Numbered) (w : Worklist) (item : Item) : Worklist :=
  w.offerAll (w.handedOn g item) (g.startsOf (g.nextSymbol? item))

/-- Looks at the latest item, if there is one. -/
def look? (g : Numbered) (w : Worklist) : Option Worklist :=
  match w.todo with
  | [] => none
  | item :: rest => some (lookAt g ⟨w.found, rest⟩ item)

theorem look?_eq_none {g : Numbered} {w : Worklist} : w.look? g = none ↔ w.todo = [] := by
  unfold look?
  cases w.todo <;> simp

theorem look?_eq_some {g : Numbered} {w next : Worklist} :
    w.look? g = some next ↔ ∃ item rest, w.todo = item :: rest ∧ next = lookAt g ⟨w.found, rest⟩ item := by
  unfold look?
  cases w.todo <;> simp [eq_comm]

/-- The kernel, with all of its items to be looked at, the last one first. -/
def ofKernel (kernel : List (Item × SymbolSet)) : Worklist :=
  { found := fun item => kernel.lookup item
    todo := (kernel.map Prod.fst).reverse }

/-! ### What is added -/

section Offers

variable {more : SymbolSet} {w : Worklist} {items : List Item}

theorem known_eq {item : Item} {lookaheads : SymbolSet} (found : w.found item = some lookaheads) :
    w.known item = lookaheads := by
  rw [known, found, Option.getD_some]

theorem found_offer (item other : Item) :
    (w.offer more item).found other =
      if other = item then some ((w.known item).union more) else w.found other := by
  unfold offer
  by_cases same : other = item
  · subst same
    simp
  · simp [same]

theorem known_offer (item other : Item) :
    (w.offer more item).known other = if other = item then (w.known item).union more else w.known other := by
  rw [known, found_offer]
  split
  · rfl
  · rfl

/-- Adding the same look-aheads once more adds nothing. -/
theorem union_twice (s t : SymbolSet) : (s.union t).union t = s.union t :=
  SymbolSet.ext fun x => by rw [SymbolSet.mem_union, SymbolSet.mem_union, or_assoc, or_self]

theorem found_offerAll (other : Item) :
    (w.offerAll more items).found other =
      if other ∈ items then some ((w.known other).union more) else w.found other := by
  induction items generalizing w with
  | nil => simp [offerAll]
  | cons item items ih =>
    rw [offerAll, List.foldl_cons, ← offerAll, ih, known_offer, found_offer]
    by_cases same : other = item
    · subst same
      simp [union_twice]
    · simp [same]

theorem mem_todo_offerAll {other : Item} :
    other ∈ (w.offerAll more items).todo ↔
      other ∈ w.todo ∨ (other ∈ items ∧ (w.known other).union more ≠ w.known other) := by
  induction items generalizing w with
  | nil => simp [offerAll]
  | cons item items ih =>
    have first : other ∈ (w.offer more item).todo ↔
        other ∈ w.todo ∨ (other = item ∧ (w.known other).union more ≠ w.known other) := by
      unfold offer
      dsimp only
      split
      · rename_i same
        refine ⟨.inl, fun either => either.resolve_right ?_⟩
        rintro ⟨rfl, grown⟩
        exact grown same
      · rename_i grown
        rw [List.mem_cons, or_comm]
        refine or_congr_right ⟨?_, And.left⟩
        rintro rfl
        exact ⟨rfl, grown⟩
    rw [offerAll, List.foldl_cons, ← offerAll, ih, first, known_offer]
    by_cases same : other = item
    · subst same
      simp [union_twice]
    · simp [same]

theorem known_offerAll (other : Item) :
    (w.offerAll more items).known other =
      if other ∈ items then (w.known other).union more else w.known other := by
  rw [known, found_offerAll]
  split
  · rfl
  · rfl

/-- What is found is kept. -/
theorem found_offerAll_of_found {item : Item} (found : w.found item = some (w.known item)) :
    (w.offerAll more items).found item = some ((w.offerAll more items).known item) := by
  rw [known, found_offerAll]
  split
  · rfl
  · rw [found]
    rfl

theorem mem_known_offerAll {item : Item} {x : Nat} (member : x ∈ w.known item) :
    x ∈ (w.offerAll more items).known item := by
  rw [known_offerAll]
  split
  · exact SymbolSet.mem_union.mpr (.inl member)
  · exact member

end Offers

/-! ### What is left to do -/

section Left

variable {g : Numbered} {more : SymbolSet} {w : Worklist}

/-- The symbols that are no look-aheads of starting items so far. -/
def unfilled (g : Numbered) (w : Worklist) : Finset (Nat × Nat) :=
  (Finset.range g.productions.size ×ˢ Finset.range (g.symbolCount + 1)).filter fun place =>
    place.2 ∉ w.known ⟨place.1, 0⟩

/-- The items to be looked at, and the symbols that may still be added. -/
def left (g : Numbered) (w : Worklist) : Nat := w.todo.length + (w.unfilled g).card

/-- An item that is to be looked at again has filled a place. -/
theorem left_offer (few : ∀ x ∈ more, x < g.symbolCount + 1) {k : Nat} (inside : k < g.productions.size) :
    (w.offer more ⟨k, 0⟩).left g ≤ w.left g := by
  have kept : (w.offer more ⟨k, 0⟩).unfilled g ⊆ w.unfilled g := by
    intro place member
    simp only [unfilled, Finset.mem_filter, known_offer] at member ⊢
    refine ⟨member.1, fun old => member.2 ?_⟩
    split
    · rename_i here
      exact SymbolSet.mem_union.mpr (.inl (here ▸ old))
    · exact old
  by_cases same : (w.known ⟨k, 0⟩).union more = w.known ⟨k, 0⟩
  · have todo : (w.offer more ⟨k, 0⟩).todo = w.todo := if_pos same
    rw [left, left, todo]
    exact Nat.add_le_add_left (Finset.card_le_card kept) _
  · have todo : (w.offer more ⟨k, 0⟩).todo = ⟨k, 0⟩ :: w.todo := if_neg same
    obtain ⟨x, inMore, new⟩ : ∃ x ∈ more, x ∉ w.known ⟨k, 0⟩ := by
      by_contra none
      push Not at none
      refine same (SymbolSet.ext fun x => ?_)
      rw [SymbolSet.mem_union]
      exact or_iff_left_of_imp (none x)
    have before : (k, x) ∈ w.unfilled g := by
      simp only [unfilled, Finset.mem_filter, Finset.mem_product, Finset.mem_range]
      exact ⟨⟨inside, few x inMore⟩, new⟩
    have after : (k, x) ∉ (w.offer more ⟨k, 0⟩).unfilled g := by
      simp only [unfilled, Finset.mem_filter, known_offer, if_true, not_and, not_not]
      exact fun _ => SymbolSet.mem_union.mpr (.inr inMore)
    have fewer := Finset.card_lt_card ((Finset.ssubset_iff_of_subset kept).mpr ⟨_, before, after⟩)
    rw [left, left, todo, List.length_cons]
    omega

theorem left_offerAll (few : ∀ x ∈ more, x < g.symbolCount + 1) {symbol : Option Nat} {items : List Item}
    (starts : ∀ item ∈ items, item ∈ g.startsOf symbol) : (w.offerAll more items).left g ≤ w.left g := by
  induction items generalizing w with
  | nil => exact Nat.le_refl _
  | cons item items ih =>
    obtain ⟨atStart, p, found, _⟩ := Numbered.mem_startsOf.mp (starts item List.mem_cons_self)
    rw [offerAll, List.foldl_cons, ← offerAll]
    refine (ih fun other later => starts other (List.mem_cons_of_mem _ later)).trans ?_
    obtain ⟨k, dot⟩ := item
    obtain rfl : dot = 0 := atStart
    exact left_offer few (Array.getElem?_eq_some_iff.mp found).1

end Left

/-! ### Looking at an item -/

section Looking

variable {g : Numbered} {kernel : List (Item × SymbolSet)} {w : Worklist} {item : Item}

/-- Items whose productions have to be started: those of the kernel, and those with a look-ahead. -/
def Active (kernel : List (Item × SymbolSet)) (w : Worklist) (item : Item) : Prop :=
  (item, w.known item) ∈ kernel ∨ ∃ x, x ∈ w.known item

/-- A closure under construction: what is found belongs to the closure, and what follows from an item that is not to
be looked at is found. -/
structure Completing (g : Numbered) (kernel : List (Item × SymbolSet)) (w : Worklist) : Prop where
  kept : ∀ item lookaheads, (item, lookaheads) ∈ kernel → w.found item = some lookaheads
  origin : ∀ item lookaheads, w.found item = some lookaheads → (item, lookaheads) ∈ kernel ∨
    (item.dot = 0 ∧ ∃ p, g.productions[item.production]? = some p ∧ g.Opens kernel p.left ∧
      ∀ x ∈ lookaheads, g.Spreads kernel p.left x)
  looked : ∀ item, Active kernel w item → item ∉ w.todo → ∀ start ∈ g.startsOf (g.nextSymbol? item),
    w.found start = some (w.known start) ∧ ∀ x ∈ w.handedOn g item, x ∈ w.known start
  active : ∀ item ∈ w.todo, Active kernel w item

/-- No kernel item is the start of a production of a symbol after a dot. -/
theorem not_mem_startsOf (proper : g.Proper) (fit : g.Fit kernel) {other : Item} {lookaheads : SymbolSet}
    (member : (other, lookaheads) ∈ kernel) : other ∉ g.startsOf (g.nextSymbol? item) := by
  intro starts
  obtain ⟨atStart, p, found, next⟩ := Numbered.mem_startsOf.mp starts
  obtain ⟨s, implicit⟩ := proper.implicit
  rw [fit.started _ member atStart, implicit] at found
  obtain rfl := Option.some.inj found
  obtain ⟨q, found, atDot⟩ := Numbered.nextSymbol?_eq_some.mp next
  exact proper.right_ne_zero found 0 (List.mem_of_getElem? atDot) rfl

namespace Completing

/-- Active items are found. -/
theorem found_of_active (completing : Completing g kernel w) (active : Active kernel w item) :
    w.found item = some (w.known item) := by
  rcases active with inKernel | ⟨x, member⟩
  · exact completing.kept item _ inKernel
  · cases found : w.found item with
    | none =>
      rw [known, found] at member
      exact absurd member (SymbolSet.not_mem_empty x)
    | some lookaheads => rw [known_eq found]

/-- What is found is expected. -/
theorem closes (completing : Completing g kernel w) {y : Nat} (member : y ∈ w.known item) :
    g.Closes kernel item y := by
  have found := completing.found_of_active (.inr ⟨y, member⟩)
  rcases completing.origin item _ found with inKernel | ⟨atStart, p, inProductions, _, spreads⟩
  · exact .inl ⟨_, inKernel, member⟩
  · exact .inr ⟨atStart, p, inProductions, spreads y member⟩

/-- The productions of the next symbol of an active item start in the closure. -/
theorem opens (completing : Completing g kernel w) (active : Active kernel w item) {b : Nat}
    (next : g.nextSymbol? item = some b) (below : b < g.nonterminalCount) : g.Opens kernel b := by
  rcases active with inKernel | ⟨y, member⟩
  · exact ⟨below, .inl ⟨_, inKernel, next⟩⟩
  · rcases completing.closes member with ⟨_, inKernel, _⟩ | ⟨atStart, p, inProductions, spreads⟩
    · exact ⟨below, .inl ⟨_, inKernel, next⟩⟩
    · obtain ⟨q, inProductions', atDot⟩ := Numbered.nextSymbol?_eq_some.mp next
      obtain rfl := Option.some.inj (inProductions.symm.trans inProductions')
      rw [atStart, ← List.head?_eq_getElem?] at atDot
      exact ⟨below, .inr ⟨_, p, y, inProductions, atDot, spreads⟩⟩

/-- What is handed on spreads. -/
theorem spreads (completing : Completing g kernel w) (proper : g.Proper) {b x : Nat}
    (next : g.nextSymbol? item = some b) (below : b < g.nonterminalCount) (member : x ∈ w.handedOn g item) :
    g.Spreads kernel b x := by
  obtain ⟨y, expected, follows⟩ := (Numbered.mem_following proper).mp member
  exact (completing.closes expected).spreads next below follows

variable {rest : List Item}

/-- What looking at an item adds belongs to the closure. -/
theorem origin_lookAt (completing : Completing g kernel w) (proper : g.Proper) (fit : g.Fit kernel)
    (active : Active kernel w item) {other : Item} {lookaheads : SymbolSet}
    (found : (lookAt g ⟨w.found, rest⟩ item).found other = some lookaheads) :
    (other, lookaheads) ∈ kernel ∨ (other.dot = 0 ∧ ∃ p, g.productions[other.production]? = some p ∧
      g.Opens kernel p.left ∧ ∀ x ∈ lookaheads, g.Spreads kernel p.left x) := by
  rw [lookAt, found_offerAll] at found
  split at found
  · rename_i starts
    obtain rfl := Option.some.inj found
    obtain ⟨atStart, p, inProductions, next⟩ := Numbered.mem_startsOf.mp starts
    have below := proper.left_lt inProductions
    refine .inr ⟨atStart, p, inProductions, completing.opens active next below, fun x member => ?_⟩
    rcases SymbolSet.mem_union.mp member with old | new
    · rcases completing.closes old with ⟨_, inKernel, _⟩ | ⟨_, q, inProductions', spreads⟩
      · exact absurd starts (not_mem_startsOf proper fit inKernel)
      · obtain rfl := Option.some.inj (inProductions.symm.trans inProductions')
        exact spreads
    · exact completing.spreads proper next below new
  · exact completing.origin other lookaheads found

/-- The look-aheads of an item that need not be looked at have not changed. -/
theorem known_lookAt {other : Item} (done : other ∉ (lookAt g ⟨w.found, rest⟩ item).todo) :
    (lookAt g ⟨w.found, rest⟩ item).known other = w.known other := by
  rw [lookAt, mem_todo_offerAll, not_or] at done
  rw [lookAt, known_offerAll]
  split
  · rename_i starts
    by_contra grown
    exact done.2 ⟨starts, grown⟩
  · rfl

/-- What follows from an item is found once the item has been looked at. -/
theorem looked_lookAt (completing : Completing g kernel w) (todo : w.todo = item :: rest) {other : Item}
    (active : Active kernel (lookAt g ⟨w.found, rest⟩ item) other)
    (done : other ∉ (lookAt g ⟨w.found, rest⟩ item).todo) {start : Item}
    (starts : start ∈ g.startsOf (g.nextSymbol? other)) :
    (lookAt g ⟨w.found, rest⟩ item).found start = some ((lookAt g ⟨w.found, rest⟩ item).known start) ∧
      ∀ x ∈ (lookAt g ⟨w.found, rest⟩ item).handedOn g other, x ∈ (lookAt g ⟨w.found, rest⟩ item).known start := by
  have same := known_lookAt done
  unfold Active handedOn at *
  rw [same] at active ⊢
  by_cases here : other = item
  · subst here
    refine ⟨?_, fun x member => ?_⟩
    · rw [lookAt, known, found_offerAll, if_pos starts]
      rfl
    · rw [lookAt, known_offerAll, if_pos starts]
      exact SymbolSet.mem_union.mpr (.inr member)
  · have idle : other ∉ w.todo := by
      rw [todo, List.mem_cons, not_or]
      rw [lookAt, mem_todo_offerAll, not_or] at done
      exact ⟨here, done.1⟩
    obtain ⟨found, within⟩ := completing.looked other active idle start starts
    exact ⟨found_offerAll_of_found found, fun x member => mem_known_offerAll (within x member)⟩

/-- Kernel items keep their look-aheads. -/
theorem kept_lookAt (completing : Completing g kernel w) (proper : g.Proper) (fit : g.Fit kernel) {other : Item}
    {lookaheads : SymbolSet} (member : (other, lookaheads) ∈ kernel) :
    (lookAt g ⟨w.found, rest⟩ item).found other = some lookaheads := by
  rw [lookAt, found_offerAll, if_neg (not_mem_startsOf proper fit member)]
  exact completing.kept other lookaheads member

/-- Items that are to be looked at are active. -/
theorem active_lookAt (completing : Completing g kernel w) (proper : g.Proper) (fit : g.Fit kernel)
    (todo : w.todo = item :: rest) {other : Item} (member : other ∈ (lookAt g ⟨w.found, rest⟩ item).todo) :
    Active kernel (lookAt g ⟨w.found, rest⟩ item) other := by
  rcases mem_todo_offerAll.mp member with waiting | ⟨starts, grown⟩
  · rcases completing.active other (by rw [todo]; exact List.mem_cons_of_mem _ waiting) with inKernel | ⟨x, old⟩
    · refine .inl ?_
      rw [known_eq (completing.kept_lookAt proper fit inKernel)]
      exact inKernel
    · exact .inr ⟨x, mem_known_offerAll old⟩
  · -- A union with an empty set has not grown.
    refine .inr ?_
    rw [lookAt, known_offerAll, if_pos starts]
    by_contra none
    push Not at none
    refine grown (SymbolSet.ext fun x => iff_of_false (none x) fun old => none x ?_)
    exact SymbolSet.mem_union.mpr (.inl old)

/-- **A look** keeps what holds of a closure under construction, and leaves less to do. -/
theorem step (completing : Completing g kernel w) (proper : g.Proper) (fit : g.Fit kernel) {next : Worklist}
    (looks : w.look? g = some next) : Completing g kernel next ∧ next.left g < w.left g := by
  obtain ⟨item, rest, todo, rfl⟩ := look?_eq_some.mp looks
  have active : Active kernel w item := completing.active item (by rw [todo]; exact List.mem_cons_self)
  refine ⟨?_, ?_⟩
  · exact
      { kept := fun other lookaheads => completing.kept_lookAt proper fit
        origin := fun other lookaheads => completing.origin_lookAt proper fit active
        looked := fun other active done start => completing.looked_lookAt todo active done
        active := fun other => completing.active_lookAt proper fit todo }
  · have few : ∀ x ∈ w.handedOn g item, x < g.symbolCount + 1 :=
      Numbered.lt_of_mem_following proper fun x member => (completing.closes member).lt proper fit
    calc (lookAt g ⟨w.found, rest⟩ item).left g
        ≤ (Worklist.mk w.found rest).left g := left_offerAll few fun other member => member
      _ < w.left g := by
        rw [left, left, todo, List.length_cons]
        exact Nat.add_lt_add_right (Nat.lt_succ_self _) _

/-- The kernel is its own closure under construction. -/
theorem start (distinct : HasDistinctKeys kernel) : Completing g kernel (ofKernel kernel) := by
  have kept : ∀ item lookaheads, (item, lookaheads) ∈ kernel → (ofKernel kernel).found item = some lookaheads :=
    fun item lookaheads member => lookup_of_mem distinct member
  have inTodo : ∀ item, item ∈ (ofKernel kernel).todo ↔ ∃ lookaheads, (item, lookaheads) ∈ kernel := by
    simp [ofKernel]
  refine
    { kept := kept
      origin := fun item lookaheads found => .inl (mem_of_lookup found)
      looked := fun item active done => absurd ((inTodo item).mpr ?_) done
      active := fun item member => ?_ }
  · rcases active with inKernel | ⟨x, member⟩
    · exact ⟨_, inKernel⟩
    · cases found : (ofKernel kernel).found item with
      | none =>
        rw [known, found] at member
        exact absurd member (SymbolSet.not_mem_empty x)
      | some lookaheads => exact ⟨lookaheads, mem_of_lookup found⟩
  · obtain ⟨lookaheads, inKernel⟩ := (inTodo item).mp member
    refine .inl ?_
    rw [known_eq (kept item lookaheads inKernel)]
    exact inKernel

/-! ### The completed kernel -/

section Done

variable {b : Nat} {start : Item}

/-- When nothing is left to be looked at, the productions of the next symbol of an active item are found. -/
theorem found_of_next (completing : Completing g kernel w) (done : w.todo = []) (active : Active kernel w item)
    (next : g.nextSymbol? item = some b) (starts : start ∈ g.startsOf (some b)) :
    w.found start = some (w.known start) ∧ ∀ x ∈ w.handedOn g item, x ∈ w.known start :=
  completing.looked item active (by rw [done]; exact List.not_mem_nil) start (next ▸ starts)

/-- All that spreads is found. -/
theorem mem_of_spreads (completing : Completing g kernel w) (proper : g.Proper) (done : w.todo = []) {x : Nat}
    (spreads : g.Spreads kernel b x) (starts : start ∈ g.startsOf (some b)) : x ∈ w.known start := by
  induction spreads generalizing start with
  | @kernel item lookaheads b y x inKernel next _ expected follows =>
    have member : y ∈ w.known item := by
      rw [known_eq (completing.kept _ _ inKernel)]
      exact expected
    exact (completing.found_of_next done (.inr ⟨y, member⟩) next starts).2 x
      ((Numbered.mem_following proper).mpr ⟨y, member, follows⟩)
  | @production k p b rest y x inProductions shape _ _ follows ih =>
    have member : y ∈ w.known ⟨k, 0⟩ := ih (Numbered.mem_startsOf_left inProductions)
    have next : g.nextSymbol? ⟨k, 0⟩ = some b := Numbered.nextSymbol?_start inProductions (by rw [shape]; rfl)
    have after : g.restAfterNext ⟨k, 0⟩ = rest := by
      rw [Numbered.restAfterNext_eq inProductions, shape]
      rfl
    refine (completing.found_of_next done (.inr ⟨y, member⟩) next starts).2 x ?_
    exact (Numbered.mem_following proper).mpr ⟨y, member, by rw [after]; exact follows⟩

/-- All productions that start in the closure are found. -/
theorem found_of_opens (completing : Completing g kernel w) (proper : g.Proper) (done : w.todo = [])
    (opens : g.Opens kernel b) (starts : start ∈ g.startsOf (some b)) : w.found start = some (w.known start) := by
  rcases opens with ⟨_, ⟨⟨item, lookaheads⟩, inKernel, next⟩ | ⟨k, p, y, inProductions, head, spreads⟩⟩
  · refine (completing.found_of_next done (.inl ?_) next starts).1
    rw [known_eq (completing.kept _ _ inKernel)]
    exact inKernel
  · have member : y ∈ w.known ⟨k, 0⟩ :=
      completing.mem_of_spreads proper done spreads (Numbered.mem_startsOf_left inProductions)
    exact (completing.found_of_next done (.inr ⟨y, member⟩) (Numbered.nextSymbol?_start inProductions head) starts).1

theorem exists_next_of_opens (opens : g.Opens kernel b) : ∃ item, g.nextSymbol? item = some b := by
  rcases opens with ⟨_, ⟨pair, _, next⟩ | ⟨k, p, _, inProductions, head, _⟩⟩
  · exact ⟨pair.1, next⟩
  · exact ⟨⟨k, 0⟩, Numbered.nextSymbol?_start inProductions head⟩

/-- What is found for the start of a production is what spreads to its left side. -/
theorem mem_known_iff (completing : Completing g kernel w) (proper : g.Proper) (fit : g.Fit kernel)
    (done : w.todo = []) {p : NumberedProduction} (atStart : start.dot = 0)
    (inProductions : g.productions[start.production]? = some p) (opens : g.Opens kernel p.left) {x : Nat} :
    x ∈ w.known start ↔ g.Spreads kernel p.left x := by
  have starts : start ∈ g.startsOf (some p.left) := Numbered.mem_startsOf.mpr ⟨atStart, p, inProductions, rfl⟩
  refine ⟨fun member => ?_, fun spreads => completing.mem_of_spreads proper done spreads starts⟩
  rcases completing.closes member with ⟨_, inKernel, _⟩ | ⟨_, q, inProductions', spreads⟩
  · obtain ⟨item, next⟩ := exists_next_of_opens opens
    exact absurd (next ▸ starts) (not_mem_startsOf proper fit inKernel)
  · obtain rfl := Option.some.inj (inProductions.symm.trans inProductions')
    exact spreads

/-- **When nothing is left to be looked at, the closure is found.** -/
theorem found_iff (completing : Completing g kernel w) (proper : g.Proper) (fit : g.Fit kernel) (done : w.todo = [])
    {lookaheads : SymbolSet} :
    w.found item = some lookaheads ↔ (item, lookaheads) ∈ g.closure g.first kernel := by
  have known_start : ∀ {p : NumberedProduction}, item.dot = 0 → g.productions[item.production]? = some p →
      g.Opens kernel p.left → w.known item = setAt (g.spread g.first kernel).lookaheads p.left := by
    intro p atStart inProductions opens
    refine SymbolSet.ext fun x => ?_
    rw [completing.mem_known_iff proper fit done atStart inProductions opens, Numbered.mem_spread proper fit.few]
  simp only [Numbered.mem_closure proper fit, Numbered.mem_spread_reached proper fit]
  constructor
  · intro found
    rcases completing.origin item lookaheads found with inKernel | ⟨atStart, p, inProductions, opens, _⟩
    · exact .inl inKernel
    · refine .inr ⟨atStart, p, inProductions, opens, ?_⟩
      rw [← known_start atStart inProductions opens, known_eq found]
  · rintro (inKernel | ⟨atStart, p, inProductions, opens, rfl⟩)
    · exact completing.kept item lookaheads inKernel
    · rw [← known_start atStart inProductions opens]
      exact completing.found_of_opens proper done opens (Numbered.mem_startsOf.mpr ⟨atStart, p, inProductions, rfl⟩)

end Done

end Completing

/-- **Completing a kernel item by item ends with its closure.** -/
theorem exists_loopEnds_closure (proper : g.Proper) (fit : g.Fit kernel) (distinct : HasDistinctKeys kernel) :
    ∃ w, LoopEnds (look? g) (ofKernel kernel) w ∧
      ∀ item lookaheads, w.found item = some lookaheads ↔ (item, lookaheads) ∈ g.closure g.first kernel := by
  obtain ⟨w, ends, completing⟩ : ∃ w, LoopEnds (look? g) (ofKernel kernel) w ∧ Completing g kernel w :=
    exists_loopEnds (left g) (fun _ _ completing looks => completing.step proper fit looks) (.start distinct)
  have done : w.todo = [] := look?_eq_none.mp ends.next?_eq_none
  exact ⟨w, ends, fun item lookaheads => completing.found_iff proper fit done⟩

end Looking

end Worklist

end XPathAnnotator.Grammar
