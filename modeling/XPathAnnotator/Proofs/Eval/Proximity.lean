/-
**Proximity positions.**

A step can be told without any lists. The nodes that an axis reaches and that pass the node test are a set; each
predicate numbers the nodes of a set by how many of them come before, along the direction of the axis, and leaves
those at whose position it holds. Evaluation numbers a sorted list instead, and comes to the same nodes whatever
order the axis has listed them in.

* `proximity` — the position of a node in a set, along an axis;
* `Chosen`, `Narrows` — what a test and the predicates of a step leave of a set;
* `proximity_getElem` — in a list in the direction of the axis it is the place in the list;
* `narrows_iff_keepAll` — the predicates of a step on such a list;
* `evalAt_narrows` — steps.
-/

import Mathlib
import XPathAnnotator.Proofs.Axis.Confinement
import XPathAnnotator.Proofs.Eval.DocumentOrder

namespace XPathAnnotator

open Evaluating

/-- Whether a node comes before another one in the direction of an axis. -/
def Forest.IsAhead (f : Forest) (reverse : Bool) (a b : Node) : Prop :=
  if reverse then f.order b a = .lt else f.order a b = .lt

instance (f : Forest) (reverse : Bool) (a b : Node) : Decidable (f.IsAhead reverse a b) :=
  inferInstanceAs (Decidable (if reverse then f.order b a = .lt else f.order a b = .lt))

/-- The position of a node among others: one more than there are before it in document order, or after it on the
axes that run backwards. -/
def Forest.proximity (f : Forest) (reverse : Bool) (nodes : Finset Node) (n : Node) : Nat :=
  1 + (nodes.filter fun other => f.IsAhead reverse other n).card

/-- What choosing leaves of a set, where it fails on no node. -/
def Chosen (chooses : Node → Except EvalError Bool) (nodes chosen : Finset Node) : Prop :=
  (∀ n ∈ nodes, ∃ answer, chooses n = .ok answer) ∧ ∀ n, n ∈ chosen ↔ n ∈ nodes ∧ chooses n = .ok true

/-- Whether a predicate keeps a node at a position: its value there is a number equal to the position, or no
number but true. -/
def Expr.holdsAt (env : Environment (Except EvalError)) (predicate : Expr) (position size : Nat) (n : Node) :
    Except EvalError Bool := do
  match ← predicate.evalIn env ⟨some n, position, size⟩ with
  | .number x => return Float.ofInt position == x
  | value => return value.toTruth

/-- What predicates leave of a set of nodes, one after the other. -/
inductive Narrows (env : Environment (Except EvalError)) (reverse : Bool) :
    List Expr → Finset Node → Finset Node → Prop
  | none (nodes : Finset Node) : Narrows env reverse [] nodes nodes
  | next {predicate : Expr} {rest : List Expr} {nodes chosen kept : Finset Node}
      (first : Chosen (fun n => predicate.holdsAt env (env.forest.proximity reverse nodes n) nodes.card n)
        nodes chosen)
      (later : Narrows env reverse rest chosen kept) : Narrows env reverse (predicate :: rest) nodes kept

/-- What the predicates of a step leave of a list of nodes. -/
def Step.narrow (env : Environment (Except EvalError)) (reverse : Bool) (predicates : List Expr)
    (passed : List Node) : Except EvalError (List Node) :=
  match predicates with
  | [] => pure passed
  | first :: rest => Expr.keepAll env (first :: rest) (inAxisOrder env.forest reverse passed)

/-- What a step gives for a node if its axis lists the nodes that it reaches in some order. -/
def Step.evalFrom (env : Environment (Except EvalError)) (axis : Axis) (test : NodeTest) (predicates : List Expr)
    (n : Node) (reached : List Node) : Except EvalError (List Node) := do
  Step.narrow env axis.isReverse predicates (← env.select axis.principalKind test n reached)

/-! ### Choosing from a list -/

/-- The nodes of a list that are chosen. -/
def chooseFrom (chooses : Node → Except EvalError Bool) : List Node → Except EvalError (List Node)
  | [] => pure []
  | n :: rest => do
    if ← chooses n then return n :: (← chooseFrom chooses rest)
    else chooseFrom chooses rest

theorem select_eq_chooseFrom (env : Environment (Except EvalError)) (kind : NodeKind) (test : NodeTest)
    (start : Node) (nodes : List Node) :
    env.select kind test start nodes = chooseFrom (env.accepts kind test start) nodes := by
  induction nodes with
  | nil => rfl
  | cons n nodes ih => rw [Environment.select, chooseFrom, ih]

/-- Keeping by positions is choosing, where each node has its position. -/
theorem keepFrom_eq_chooseFrom {keeps : Node → Int → Except EvalError Bool} {place : Node → Int}
    {nodes : List Node} {position : Int}
    (places : ∀ (i : Nat) (n : Node), nodes[i]? = some n → place n = position + i) :
    keepFrom keeps position nodes = chooseFrom (fun n => keeps n (place n)) nodes := by
  induction nodes generalizing position with
  | nil => rfl
  | cons n nodes ih =>
    have here : place n = position := by
      rw [places 0 n rfl]
      exact add_zero _
    have places' : ∀ (i : Nat) (m : Node), nodes[i]? = some m → place m = position + 1 + i := by
      intro i m found
      rw [places (i + 1) m found]
      push_cast
      ring
    have later := ih places'
    rw [keepFrom, chooseFrom, later, here]

variable {chooses : Node → Except EvalError Bool} {nodes : List Node}

/-- Choosing from a list answers for each node of it. -/
theorem chosen_of_chooseFrom {chosen : List Node} (result : chooseFrom chooses nodes = .ok chosen) :
    chosen.Sublist nodes ∧ Chosen chooses nodes.toFinset chosen.toFinset := by
  unfold Chosen
  simp only [List.mem_toFinset]
  induction nodes generalizing chosen with
  | nil =>
    obtain rfl := (Except.ok.inj result).symm
    exact ⟨.slnil, fun n met => absurd met List.not_mem_nil, fun n => by simp⟩
  | cons m nodes ih =>
    rw [chooseFrom] at result
    obtain ⟨answer, answered, result⟩ := exists_of_bind_eq_ok result
    have first : ∃ answer, chooses m = .ok answer := ⟨answer, answered⟩
    cases answer with
    | true =>
      rw [if_pos rfl] at result
      obtain ⟨rest, chose, same⟩ := exists_of_bind_eq_ok result
      obtain rfl := (Except.ok.inj same).symm
      obtain ⟨fewer, answers, members⟩ := ih chose
      refine ⟨fewer.cons_cons m, List.forall_mem_cons.mpr ⟨first, answers⟩, fun n => ?_⟩
      rw [List.mem_cons, List.mem_cons, members]
      constructor
      · rintro (rfl | ⟨met, holds⟩)
        · exact ⟨.inl rfl, answered⟩
        · exact ⟨.inr met, holds⟩
      · rintro ⟨rfl | met, holds⟩
        · exact .inl rfl
        · exact .inr ⟨met, holds⟩
    | false =>
      rw [if_neg Bool.false_ne_true] at result
      obtain ⟨fewer, answers, members⟩ := ih result
      refine ⟨fewer.cons m, List.forall_mem_cons.mpr ⟨first, answers⟩, fun n => ?_⟩
      rw [List.mem_cons, members]
      constructor
      · rintro ⟨met, holds⟩
        exact ⟨.inr met, holds⟩
      · rintro ⟨rfl | met, holds⟩
        · rw [answered] at holds
          cases holds
        · exact ⟨met, holds⟩

theorem exists_chooseFrom (answers : ∀ n ∈ nodes, ∃ answer, chooses n = .ok answer) :
    ∃ chosen, chooseFrom chooses nodes = .ok chosen := by
  induction nodes with
  | nil => exact ⟨[], rfl⟩
  | cons m nodes ih =>
    obtain ⟨answer, answered⟩ := answers m List.mem_cons_self
    obtain ⟨rest, result⟩ := ih fun n met => answers n (List.mem_cons_of_mem _ met)
    rw [chooseFrom, answered]
    cases answer with
    | true => exact ⟨m :: rest, by rw [result]; rfl⟩
    | false => exact ⟨rest, result⟩

theorem Chosen.unique {all first second : Finset Node} (one : Chosen chooses all first)
    (other : Chosen chooses all second) : first = second := by
  ext n
  rw [one.2, other.2]

/-- Choosing from a list and from its nodes. -/
theorem chosen_iff_chooseFrom {kept : Finset Node} :
    Chosen chooses nodes.toFinset kept ↔ ∃ chosen, chooseFrom chooses nodes = .ok chosen ∧ chosen.toFinset = kept := by
  constructor
  · intro told
    obtain ⟨chosen, result⟩ := exists_chooseFrom fun n met => told.1 n (List.mem_toFinset.mpr met)
    exact ⟨chosen, result, (chosen_of_chooseFrom result).2.unique told⟩
  · rintro ⟨chosen, result, rfl⟩
    exact (chosen_of_chooseFrom result).2

/-! ### Positions in a sorted list -/

section Positions

variable {env : Environment (Except EvalError)} {r : Node} {reverse : Bool}
  (keyed : Balanced.Keyed env.forest.order env.forest.address (env.forest.InTree r))

include keyed

theorem not_isAhead {a b : Node} (inA : env.forest.InTree r a) (inB : env.forest.InTree r b)
    (ahead : a = b ∨ env.forest.IsAhead reverse a b) : ¬ env.forest.IsAhead reverse b a := by
  have order : ∀ {a b}, env.forest.InTree r a → env.forest.InTree r b → a = b ∨ env.forest.order a b = .lt →
      env.forest.order b a ≠ .lt := by
    rintro a b inA inB before
    rw [Ne, keyed.lt b a inB inA, not_lt]
    rcases before with rfl | before
    · exact le_rfl
    · exact ((keyed.lt a b inA inB).mp before).le
  unfold Forest.IsAhead at ahead ⊢
  cases reverse with
  | false => exact order inA inB ahead
  | true => exact order inB inA (ahead.imp_left Eq.symm)

/-- **The position of a node is its place in a list in the direction of the axis.** -/
theorem proximity_getElem {nodes : List Node} (inTree : ∀ n ∈ nodes, env.forest.InTree r n)
    (nodup : nodes.Nodup) (directed : nodes.Pairwise (env.forest.IsAhead reverse)) {i : Nat} {n : Node}
    (found : nodes[i]? = some n) : env.forest.proximity reverse nodes.toFinset n = 1 + i := by
  obtain ⟨short, rfl⟩ := List.getElem?_eq_some_iff.mp found
  have split : nodes = nodes.take i ++ nodes[i] :: nodes.drop (i + 1) := by
    rw [← List.drop_eq_getElem_cons short, List.take_append_drop]
  have parts := directed
  rw [split] at parts
  obtain ⟨-, rest, across⟩ := List.pairwise_append.mp parts
  have after := (List.pairwise_cons.mp rest).1
  -- ahead of the node are those that the list has before it
  have before : (nodes.toFinset.filter fun other => env.forest.IsAhead reverse other nodes[i]) =
      (nodes.take i).toFinset := by
    ext m
    rw [Finset.mem_filter, List.mem_toFinset, List.mem_toFinset]
    constructor
    · rintro ⟨met, ahead⟩
      have there := met
      rw [split] at there
      rcases List.mem_append.mp there with first | later
      · exact first
      · refine absurd ahead (not_isAhead keyed (inTree _ (List.getElem_mem short)) (inTree m met) ?_)
        rcases List.mem_cons.mp later with same | later
        · exact .inl same.symm
        · exact .inr (after m later)
    · intro met
      exact ⟨List.mem_of_mem_take met, across m met _ List.mem_cons_self⟩
  rw [Forest.proximity, before, List.toFinset_card_of_nodup (nodup.sublist (List.take_sublist _ _)),
    List.length_take, Nat.min_eq_left short.le]

omit keyed in
theorem holdsAt_eq (predicate : Expr) (position size : Nat) (n : Node) :
    predicate.holdsAt env position size n =
      (do return (← predicate.evalIn env ⟨some n, position, size⟩).keeps position) := by
  unfold Expr.holdsAt
  refine bind_congr fun value => ?_
  cases value <;> rfl

/-- **Predicates on a list in the direction of the axis** leave what they leave of its nodes. -/
theorem narrows_iff_keepAll {predicates : List Expr} {nodes : List Node}
    (inTree : ∀ n ∈ nodes, env.forest.InTree r n) (nodup : nodes.Nodup)
    (directed : nodes.Pairwise (env.forest.IsAhead reverse)) {kept : Finset Node} :
    Narrows env reverse predicates nodes.toFinset kept ↔
      ∃ found, Expr.keepAll env predicates nodes = .ok found ∧ found.toFinset = kept := by
  induction predicates generalizing nodes with
  | nil =>
    constructor
    · rintro ⟨⟩
      exact ⟨nodes, by rw [Expr.keepAll]; rfl, rfl⟩
    · rintro ⟨found, result, rfl⟩
      rw [Expr.keepAll] at result
      obtain rfl := Except.ok.inj result
      exact .none _
  | cons predicate rest ih =>
    have size : nodes.toFinset.card = nodes.length := List.toFinset_card_of_nodup nodup
    have chosen : keepFrom (fun n position => do
        return (← predicate.evalIn env ⟨some n, position, (nodes.length : Nat)⟩).keeps position) 1 nodes =
        chooseFrom (fun n => predicate.holdsAt env (env.forest.proximity reverse nodes.toFinset n)
          nodes.toFinset.card n) nodes := by
      have places : ∀ (i : Nat) (n : Node), nodes[i]? = some n →
          (env.forest.proximity reverse nodes.toFinset n : Int) = 1 + i := by
        intro i n found
        rw [proximity_getElem keyed inTree nodup directed found]
        push_cast
        rfl
      rw [keepFrom_eq_chooseFrom places]
      simp only [holdsAt_eq, size]
    rw [Expr.keepAll, chosen]
    have fewer : ∀ {list}, chooseFrom (fun n => predicate.holdsAt env
        (env.forest.proximity reverse nodes.toFinset n) nodes.toFinset.card n) nodes = .ok list →
        (Narrows env reverse rest list.toFinset kept ↔
          ∃ found, Expr.keepAll env rest list = .ok found ∧ found.toFinset = kept) := by
      intro list result
      obtain ⟨sub, -⟩ := chosen_of_chooseFrom result
      exact ih (fun n met => inTree n (sub.subset met)) (nodup.sublist sub) (directed.sublist sub)
    constructor
    · rintro (_ | ⟨first, later⟩)
      obtain ⟨list, chose, rfl⟩ := chosen_iff_chooseFrom.mp first
      obtain ⟨found, result, same⟩ := (fewer chose).mp later
      exact ⟨found, by rw [chose]; exact result, same⟩
    · rintro ⟨found, result, same⟩
      obtain ⟨list, chose, result⟩ := exists_of_bind_eq_ok result
      exact .next (chosen_of_chooseFrom chose).2 ((fewer chose).mpr ⟨found, result, same⟩)

end Positions

/-! ### Steps -/

theorem axisNodes_eq (env : Environment (Except EvalError)) (axis : Axis) (n : Node) :
    env.axisNodes axis n = .ok (axis.nodes env.forest env.virtualRoot n) := by
  unfold Environment.axisNodes
  split
  · split
    · rfl
    · rfl
  · rfl

theorem evalAt_eq (env : Environment (Except EvalError)) (axis : Axis) (test : NodeTest) (predicates : List Expr)
    (n : Node) : (Step.mk axis test predicates).evalAt env n =
      Step.evalFrom env axis test predicates n (axis.nodes env.forest env.virtualRoot n) := by
  rw [Step.evalAt, axisNodes_eq]
  cases predicates with
  | nil => rfl
  | cons first rest => rfl

section Steps

variable {env : Environment (Except EvalError)} {r n : Node} {reverse : Bool} {nodes : List Node}
  (keyed : Balanced.Keyed env.forest.order env.forest.address (env.forest.InTree r))
  (inTree : ∀ n ∈ nodes, env.forest.InTree r n)

include keyed inTree

/-- Sorting a list in the direction of an axis. -/
theorem inAxisOrder_spec (reverse : Bool) :
    (inAxisOrder env.forest reverse nodes).Pairwise (env.forest.IsAhead reverse) ∧
      (inAxisOrder env.forest reverse nodes).Nodup ∧
      ∀ n, n ∈ inAxisOrder env.forest reverse nodes ↔ n ∈ nodes := by
  have all : ∀ n ∈ (NodeSet.ofList nodes).inOrderOfAddition, env.forest.InTree r n :=
    fun n met => inTree n ((NodeSet.mem_ofList nodes n).mp met)
  have members := fun n => (NodeSet.mem_toList_of_keyed keyed all (NodeSet.sorted_ofList nodes) n).trans
    (NodeSet.mem_ofList nodes n)
  have rising := NodeSet.pairwise_toList_of_keyed keyed all (NodeSet.sorted_ofList nodes)
  have nodup := NodeSet.nodup_of_rising rising
  have sorted : ((NodeSet.ofList nodes).toList env.forest).Pairwise fun a b => env.forest.order a b = .lt := by
    refine rising.imp_of_mem fun {a b} metA metB less => ?_
    exact (keyed.lt a b (inTree a ((members a).mp metA)) (inTree b ((members b).mp metB))).mpr less
  unfold inAxisOrder
  cases reverse with
  | false => exact ⟨sorted, nodup, members⟩
  | true =>
    exact ⟨List.pairwise_reverse.mpr sorted, List.nodup_reverse.mpr nodup,
      fun n => List.mem_reverse.trans (members n)⟩

/-- The predicates of a step on a list of any order. -/
theorem narrows_iff_narrow {predicates : List Expr} {kept : Finset Node} :
    Narrows env reverse predicates nodes.toFinset kept ↔
      ∃ found, Step.narrow env reverse predicates nodes = .ok found ∧ found.toFinset = kept := by
  cases predicates with
  | nil =>
    constructor
    · rintro ⟨⟩
      exact ⟨nodes, rfl, rfl⟩
    · rintro ⟨found, result, rfl⟩
      obtain rfl := Except.ok.inj result
      exact .none _
  | cons first rest =>
    obtain ⟨directed, nodup, members⟩ := inAxisOrder_spec keyed inTree reverse
    have same : (inAxisOrder env.forest reverse nodes).toFinset = nodes.toFinset := by
      ext n
      rw [List.mem_toFinset, List.mem_toFinset, members]
    rw [← same]
    exact narrows_iff_keepAll keyed (fun n met => inTree n ((members n).mp met)) nodup directed

theorem narrow_directed {predicates : List Expr} {found : List Node} (nodup : nodes.Nodup)
    (result : Step.narrow env reverse predicates nodes = .ok found) :
    found.Nodup ∧ (predicates ≠ [] → found.Pairwise (env.forest.IsAhead reverse)) := by
  cases predicates with
  | nil =>
    obtain rfl := Except.ok.inj result
    exact ⟨nodup, fun some => absurd rfl some⟩
  | cons first rest =>
    obtain ⟨directed, nodup, -⟩ := inAxisOrder_spec keyed inTree reverse
    have fewer := sublist_of_keepAll (m := Except EvalError) result
    exact ⟨nodup.sublist fewer, fun _ => directed.sublist fewer⟩

end Steps

/-- **A step gives the nodes whose proximity positions its predicates hold at.** Take a node of a tree without
misplaced attributes, and any virtual root. From the nodes that the axis reaches, in whatever order it lists them,
the step keeps those that pass the node test, and of these each predicate in turn those at whose position among the
ones left it holds. It fails where the test or a predicate fails on one of the nodes that it is asked about. It
gives each node once, in the direction of the axis if there are predicates. -/
theorem evalAt_narrows {env : Environment (Except EvalError)} {n : Node} (made : env.forest.Made)
    (has : env.forest.Has n) (placed : env.forest.Placed (env.forest.root n))
    (rooted : ∀ v, env.virtualRoot = some v → env.forest.Has v ∧ env.forest.Placed (env.forest.root v))
    (axis : Axis) (test : NodeTest) (predicates : List Expr) :
    (Step.mk axis test predicates).evalAt env n =
      Step.evalFrom env axis test predicates n (axis.nodes env.forest env.virtualRoot n) ∧
    ∀ reached : List Node, reached.Perm (axis.nodes env.forest env.virtualRoot n) →
      (∀ kept : Finset Node,
        (∃ passed, Chosen (env.accepts axis.principalKind test n)
            (axis.nodes env.forest env.virtualRoot n).toFinset passed ∧
          Narrows env axis.isReverse predicates passed kept) ↔
        ∃ found, Step.evalFrom env axis test predicates n reached = .ok found ∧ found.toFinset = kept) ∧
      ∀ found, Step.evalFrom env axis test predicates n reached = .ok found →
        found.Nodup ∧ (predicates ≠ [] → found.Pairwise (env.forest.IsAhead axis.isReverse)) := by
  obtain ⟨linked, positioned⟩ := made.linked_positioned
  obtain ⟨r, placedR, inTree⟩ := placed.exists_tree linked has rooted axis
  have keyed := NodeSet.keyed_order_of_placed linked positioned placedR
  refine ⟨evalAt_eq env axis test predicates n, fun reached permuted => ?_⟩
  have nodup : reached.Nodup := permuted.nodup_iff.mpr (placed.nodup_axisNodes linked ⟨has, rfl⟩ axis)
  have same : (axis.nodes env.forest env.virtualRoot n).toFinset = reached.toFinset :=
    (List.toFinset_eq_of_perm _ _ permuted).symm
  have inPassed : ∀ {passed}, chooseFrom (env.accepts axis.principalKind test n) reached = .ok passed →
      (∀ m ∈ passed, env.forest.InTree r m) ∧ passed.Nodup := by
    intro passed chose
    have fewer := (chosen_of_chooseFrom chose).1
    exact ⟨fun m met => inTree m (permuted.subset (fewer.subset met)), nodup.sublist fewer⟩
  rw [same, Step.evalFrom, select_eq_chooseFrom]
  refine ⟨fun kept => ⟨?_, ?_⟩, fun found result => ?_⟩
  · rintro ⟨_, told, narrows⟩
    obtain ⟨passed, chose, rfl⟩ := chosen_iff_chooseFrom.mp told
    obtain ⟨found, result, same⟩ := (narrows_iff_narrow keyed (inPassed chose).1).mp narrows
    exact ⟨found, by rw [chose]; exact result, same⟩
  · rintro ⟨found, result, same⟩
    obtain ⟨passed, chose, result⟩ := exists_of_bind_eq_ok result
    exact ⟨passed.toFinset, (chosen_of_chooseFrom chose).2,
      (narrows_iff_narrow keyed (inPassed chose).1).mpr ⟨found, result, same⟩⟩
  · obtain ⟨passed, chose, result⟩ := exists_of_bind_eq_ok result
    exact narrow_directed keyed (inPassed chose).1 (inPassed chose).2 result

/-- An environment with the note and nothing else. -/
def noteEnvironment : Environment (Except EvalError) where
  forest := Forest.noteAndComment
  givenUri? _ := none
  usesScope := true
  functionNamed? _ _ := none
  variableNamed? _ _ := none
  ignoresCase := false
  anyNamespace := false
  html := false
  virtualRoot := none

/-- Whether something follows on a node. -/
def isFollowed : Expr := .path false [.mk .followingSibling .anyNode []]

/-- From the last text of the note, its element and its first text precede and are followed by something. -/
theorem evalAt_narrows_note :
    Forest.noteAndComment.Made ∧ Forest.noteAndComment.Has (.item 4) ∧
    Forest.noteAndComment.Placed (Forest.noteAndComment.root (.item 4)) ∧
    (Step.mk .preceding .anyNode [isFollowed]).evalAt noteEnvironment (.item 4) = .ok [.item 3, .item 2] ∧
    [Node.item 3, .item 2].Pairwise (Forest.noteAndComment.IsAhead true) ∧
    ∃ passed, Chosen (noteEnvironment.accepts .element .anyNode (.item 4))
        (Axis.preceding.nodes Forest.noteAndComment none (.item 4)).toFinset passed ∧
      Narrows noteEnvironment true [isFollowed] passed {.item 3, .item 2} := by
  have made : Forest.noteAndComment.Made := .create _ (.build _ _ _ .empty) ⟨rfl, rfl⟩
  have has : Forest.noteAndComment.Has (.item 4) := by decide +kernel
  have placed : Forest.noteAndComment.Placed (Forest.noteAndComment.root (.item 4)) :=
    Forest.placed_of_genuine (by decide +kernel)
  obtain ⟨taken, each⟩ := @evalAt_narrows noteEnvironment _ made has placed
    (fun v root => absurd root.symm (Option.some_ne_none v)) .preceding .anyNode [isFollowed]
  have result : (Step.mk .preceding .anyNode [isFollowed]).evalAt noteEnvironment (.item 4) =
      .ok [.item 3, .item 2] := by
    decide +kernel
  obtain ⟨narrows, directed⟩ := each _ (List.Perm.refl _)
  rw [← taken] at narrows directed
  exact ⟨made, has, placed, result, (directed _ result).2 (List.cons_ne_nil _ _),
    (narrows _).mpr ⟨_, result, rfl⟩⟩

end XPathAnnotator
