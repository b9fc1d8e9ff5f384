/-
**Runs of node-sets.**

Node-sets are made, extended, united and read, in any order and with any nodes. What counts of a set is which nodes
were added to it and in which order: its listing may be kept from one reading to the next, but never beyond an
addition. Document order need not be consistent for that, as between nodes of different trees it is not: it only
tells a node from all others.

* `perm_ofList` — sorting loses and repeats nothing, whatever the order;
* `Operation`, `perform`, `run` — operations on named sets, one after the other;
* `added` — the nodes that a run adds to each set;
* `Shows`, `Records` — what a set shows of the nodes added to it, and what it has recorded of them;
* `perform_records` — each operation keeps the record of all sets;
* `run_shows` — **every set shows what was added to it**, after every run; reading changes nothing that is shown, and
  an operation leaves all other sets alone.
-/

import Mathlib
import XPathAnnotator.Proofs.Data.Lookups
import XPathAnnotator.Proofs.NodeSet.Members

namespace XPathAnnotator

/-! ### Sorting by any order -/

namespace Balanced

variable {α : Type} {order : α → α → Ordering}

/-- A new value finds its place in any tree, if the order tells it from the values there. -/
theorem exists_add? (apart : ∀ a b, order a b = .eq → a = b) {new : α} {tree : Balanced α}
    (absent : new ∉ tree.toList) :
    ∃ grown, tree.add? order new = some grown ∧ grown.toList.Perm (new :: tree.toList) := by
  induction tree with
  | empty => exact ⟨single new, rfl, List.Perm.refl _⟩
  | node left value right depth ihLeft ihRight =>
    rw [toList, List.mem_append, List.mem_cons, not_or, not_or] at absent
    obtain ⟨notLeft, other, notRight⟩ := absent
    rw [add?]
    cases result : order new value with
    | eq => exact absurd (apart new value result) other
    | lt =>
      obtain ⟨grown, added, perm⟩ := ihLeft notLeft
      refine ⟨balance grown value right, by rw [added, Option.map_some], ?_⟩
      rw [toList_balance, toList, ← List.cons_append]
      exact perm.append_right _
    | gt =>
      obtain ⟨grown, added, perm⟩ := ihRight notRight
      refine ⟨balance left value grown, by rw [added, Option.map_some], ?_⟩
      rw [toList_balance, toList]
      exact ((perm.cons value).append_left _).trans
        (((List.Perm.swap new value _).append_left _).trans List.perm_middle)

theorem perm_foldl_add (apart : ∀ a b, order a b = .eq → a = b) {values : List α} {tree : Balanced α}
    (nodup : (values ++ tree.toList).Nodup) :
    (values.foldl (add order) tree).toList.Perm (values ++ tree.toList) := by
  induction values generalizing tree with
  | nil => exact List.Perm.refl _
  | cons value values ih =>
    rw [List.cons_append] at nodup
    have absent : value ∉ tree.toList := fun there => (List.nodup_cons.mp nodup).1 (List.mem_append_right _ there)
    obtain ⟨grown, added, perm⟩ := exists_add? apart absent
    have next : tree.add order value = grown := by rw [add, added, Option.getD_some]
    have moved : (values ++ grown.toList).Perm (value :: (values ++ tree.toList)) :=
      (perm.append_left values).trans List.perm_middle
    rw [List.foldl_cons, next]
    exact (ih (moved.nodup_iff.mpr nodup)).trans moved

/-- **Sorting loses and repeats nothing**, if the order tells different values apart. -/
theorem perm_ofList (apart : ∀ a b, order a b = .eq → a = b) {values : List α} (nodup : values.Nodup) :
    (ofList order values).toList.Perm values := by
  have perm := @perm_foldl_add _ _ apart values empty (by rwa [toList, List.append_nil])
  rwa [toList, List.append_nil] at perm

end Balanced

/-! ### Telling nodes apart -/

namespace Forest

variable (f : Forest)

theorem orderUnderParent_ne_eq (a b : Node) : f.orderUnderParent a b ≠ .eq := by
  unfold orderUnderParent
  split
  · simp
  split
  · simp
  split <;> simp

theorem orderOfLineages_ne_eq (as bs : List Node) : f.orderOfLineages as bs ≠ .eq := by
  fun_induction orderOfLineages f as bs with
  | case1 => exact orderUnderParent_ne_eq f _ _
  | case2 _ _ _ _ _ _ _ ih => exact ih
  | case3 => simp

theorem orderByAncestors_ne_eq (a b : Node) : f.orderByAncestors a b ≠ .eq := by
  unfold orderByAncestors
  dsimp only
  split
  · split
    · simp
    · exact orderOfLineages_ne_eq f _ _
  split
  · split
    · simp
    · exact orderOfLineages_ne_eq f _ _
  · exact orderOfLineages_ne_eq f _ _

/-- **Only a node itself is equal to it in document order**, in every forest. -/
theorem eq_of_order_eq {a b : Node} (equal : f.order a b = .eq) : a = b := by
  by_contra other
  rw [order, if_neg other] at equal
  split at equal
  · split at equal
    · split at equal <;> exact absurd equal (by simp)
    · exact orderByAncestors_ne_eq f a b equal
  · exact orderByAncestors_ne_eq f a b equal

end Forest

namespace NodeSet

/-! ### Operations on sets -/

/-- An operation on named node-sets. To list a set in document order is also to go through its nodes. -/
inductive Operation where
  | make (name : String) (nodes : List Node)
  | add (name : String) (n : Node)
  | addAll (name : String) (nodes : List Node)
  | unite (name left right : String)
  | list (name : String)
  | first (name : String)
  | contains (name : String) (n : Node)
  | unsorted (name : String)

namespace Operation

/-- What an operation makes of the sets. To list a set, or to ask for its first node, makes it keep its listing. -/
def perform (f : Forest) (sets : String → NodeSet) : Operation → String → NodeSet
  | make name nodes => Function.update sets name (ofList nodes)
  | add name n => Function.update sets name ((sets name).add n)
  | addAll name nodes => Function.update sets name ((sets name).addAll nodes)
  | unite name left right => Function.update sets name ((sets left).union (sets right))
  | list name => Function.update sets name ((sets name).listed f)
  | first name => Function.update sets name ((sets name).listed f)
  | contains _ _ => sets
  | unsorted _ => sets

/-- The nodes added to each set, with repetitions, after an operation. -/
def record (added : String → List Node) : Operation → String → List Node
  | make name nodes => Function.update added name nodes
  | add name n => Function.update added name (added name ++ [n])
  | addAll name nodes => Function.update added name (added name ++ nodes)
  | unite name left right => Function.update added name (added left ++ added right)
  | _ => added

/-- The name of the set that an operation gives other nodes, if it does not only read. -/
def target? : Operation → Option String
  | make name _ | add name _ | addAll name _ | unite name _ _ => some name
  | list _ | first _ | contains _ _ | unsorted _ => none

end Operation

/-- The sets after operations, where all names are those of empty sets at first. -/
def run (f : Forest) (operations : List Operation) : String → NodeSet :=
  operations.foldl (Operation.perform f) fun _ => empty

/-- The nodes that operations add to each set, with repetitions. -/
def added (operations : List Operation) : String → List Node :=
  operations.foldl Operation.record fun _ => []

/-! ### What a set shows -/

/-- What a set shows of the nodes added to it: in the order of their first addition, and sorted, its size, the first
one and its members. -/
structure Shows (f : Forest) (history : List Node) (s : NodeSet) : Prop where
  unsorted : s.inOrderOfAddition = history.eraseDups
  listing : (s.toList f).Perm history.eraseDups
  size : s.size = history.eraseDups.length
  first : s.first? f = (s.toList f).head?
  member : ∀ n, s.contains n = true ↔ n ∈ history

/-- Two sets that show the same. -/
structure SameView (f : Forest) (s t : NodeSet) : Prop where
  unsorted : t.inOrderOfAddition = s.inOrderOfAddition
  listing : t.toList f = s.toList f
  first : t.first? f = s.first? f
  size : t.size = s.size
  member : ∀ n, t.contains n = s.contains n

theorem SameView.refl (f : Forest) (s : NodeSet) : SameView f s s := ⟨rfl, rfl, rfl, rfl, fun _ => rfl⟩

/-- A set of the nodes added to it; the listing that it keeps is that of these nodes. -/
structure Records (f : Forest) (history : List Node) (s : NodeSet) : Prop where
  nodes : s.inOrderOfAddition = history.eraseDups
  kept : s.sorted f = Balanced.ofList f.order s.inOrderOfAddition

variable {f : Forest} {s t : NodeSet} {history others : List Node}

theorem Records.shows (records : s.Records f history) : s.Shows f history := by
  have perm : (s.toList f).Perm s.inOrderOfAddition := by
    unfold toList
    split
    · exact List.Perm.refl _
    · rw [records.kept]
      exact Balanced.perm_ofList (fun _ _ => f.eq_of_order_eq) (records.nodes ▸ nodup_eraseDups history)
  refine ⟨records.nodes, records.nodes ▸ perm, congrArg List.length records.nodes, Within.first?_eq, fun n => ?_⟩
  rw [contains_iff, records.nodes, List.mem_eraseDups]

/-! ### What operations keep -/

theorem records_empty : empty.Records f [] := ⟨rfl, rfl⟩

theorem Records.congr (records : s.Records f history) (same : history.eraseDups = others.eraseDups) :
    s.Records f others := ⟨records.nodes.trans same, records.kept⟩

theorem Records.add (records : s.Records f history) (n : Node) : (s.add n).Records f (history ++ [n]) := by
  refine ⟨?_, ?_⟩
  · rw [inOrderOfAddition_add, records.nodes, eraseDups_concat]
    simp only [List.mem_eraseDups]
  · unfold NodeSet.add
    split
    · exact records.kept
    · rfl

theorem Records.addAll (records : s.Records f history) (nodes : List Node) :
    (s.addAll nodes).Records f (history ++ nodes) := by
  unfold NodeSet.addAll
  induction nodes generalizing s history with
  | nil =>
    rw [List.append_nil]
    exact records
  | cons n nodes ih =>
    rw [List.append_cons]
    exact ih (records.add n)

theorem records_ofList (nodes : List Node) : (ofList nodes).Records f nodes := records_empty.addAll nodes

theorem Records.union (left : s.Records f history) (right : t.Records f others) :
    (s.union t).Records f (history ++ others) := by
  have records : (s.union t).Records f (s.inOrderOfAddition ++ t.inOrderOfAddition) :=
    (records_ofList s.inOrderOfAddition).addAll t.inOrderOfAddition
  refine records.congr ?_
  rw [left.nodes, right.nodes, eraseDups_append_eraseDups, eraseDups_eraseDups_append]

/-- **The listing that a set keeps** is the one it would make. -/
theorem Records.listed (records : s.Records f history) : (s.listed f).Records f history := by
  unfold NodeSet.listed
  split
  · exact records
  · exact ⟨records.nodes, records.kept⟩

/-- To list a set changes nothing that it shows. -/
theorem sameView_listed (f : Forest) (s : NodeSet) : SameView f s (s.listed f) := by
  unfold NodeSet.listed
  by_cases small : s.size < 2
  · rw [if_pos small]
    exact .refl f s
  · rw [if_neg small]
    refine ⟨rfl, ?_, ?_, rfl, fun _ => rfl⟩
    · exact (if_neg small).trans (if_neg small).symm
    · exact (if_neg small).trans (if_neg small).symm

/-! ### Steps and runs -/

section Steps

variable {sets : String → NodeSet} {histories : String → List Node}

theorem records_update (all : ∀ name, (sets name).Records f (histories name)) (name : String)
    (records : s.Records f history) (other : String) :
    (Function.update sets name s other).Records f (Function.update histories name history other) := by
  by_cases same : other = name
  · subst same
    rw [Function.update_self, Function.update_self]
    exact records
  · rw [Function.update_of_ne same, Function.update_of_ne same]
    exact all other

/-- **Each operation keeps the record** of all sets. -/
theorem perform_records (all : ∀ name, (sets name).Records f (histories name)) (operation : Operation)
    (name : String) : (operation.perform f sets name).Records f (operation.record histories name) := by
  cases operation with
  | make target nodes => exact records_update all target (records_ofList nodes) name
  | add target n => exact records_update all target ((all target).add n) name
  | addAll target nodes => exact records_update all target ((all target).addAll nodes) name
  | unite target left right => exact records_update all target ((all left).union (all right)) name
  | list target =>
    have records := records_update all target (all target).listed name
    rwa [Function.update_eq_self] at records
  | first target =>
    have records := records_update all target (all target).listed name
    rwa [Function.update_eq_self] at records
  | contains _ _ => exact all name
  | unsorted _ => exact all name

theorem sameView_update {name : String} (same : SameView f (sets name) s) (other : String) :
    SameView f (sets other) (Function.update sets name s other) := by
  by_cases isName : other = name
  · subst isName
    rw [Function.update_self]
    exact same
  · rw [Function.update_of_ne isName]
    exact .refl f _

/-- **An operation leaves all sets as they were** but the one that it gives other nodes. -/
theorem perform_sameView (f : Forest) (sets : String → NodeSet) (operation : Operation) {name : String}
    (other : operation.target? ≠ some name) : SameView f (sets name) (operation.perform f sets name) := by
  have apart {target : String} (s : NodeSet) (isOther : some target ≠ some name) :
      SameView f (sets name) (Function.update sets target s name) := by
    rw [Function.update_of_ne fun same => isOther (congrArg some same.symm)]
    exact .refl f _
  cases operation with
  | make target nodes => exact apart _ other
  | add target n => exact apart _ other
  | addAll target nodes => exact apart _ other
  | unite target left right => exact apart _ other
  | list target => exact sameView_update (sameView_listed f _) name
  | first target => exact sameView_update (sameView_listed f _) name
  | contains _ _ => exact .refl f _
  | unsorted _ => exact .refl f _

theorem run_records (f : Forest) (operations : List Operation) (name : String) :
    (run f operations name).Records f (added operations name) := by
  induction operations using List.reverseRecOn generalizing name with
  | nil => exact records_empty
  | append_singleton operations operation ih =>
    rw [run, added, List.foldl_concat, List.foldl_concat]
    exact perform_records ih operation name

end Steps

/-- **Every set shows what was added to it.** After every run of operations, with nodes of any trees, each set shows
the distinct nodes added to it in the order of their first addition, a permutation of them as its listing, their
number, and the first one of the listing. One more operation changes nothing that a set shows but for the set that it
gives other nodes: to read changes nothing, and a union leaves both of its operands as they were. -/
theorem run_shows (f : Forest) (operations : List Operation) :
    (∀ name, (run f operations name).Shows f (added operations name)) ∧
      ∀ operation name, operation.target? ≠ some name →
        SameView f (run f operations name) (run f (operations ++ [operation]) name) := by
  refine ⟨fun name => (run_records f operations name).shows, fun operation name other => ?_⟩
  have next : run f (operations ++ [operation]) = operation.perform f (run f operations) := List.foldl_concat ..
  rw [next]
  exact perform_sameView f _ operation other

end NodeSet

end XPathAnnotator
