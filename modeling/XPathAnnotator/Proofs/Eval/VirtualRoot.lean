/-
**Paths below a virtual root.**

A virtual root stands for the root of the tree. A location path that starts in its subtree selects nodes of its
subtree only, whatever its steps and predicates are, as long as no step leads out of it: none from the virtual root
itself along an axis of siblings, and none along `following` if it is an attribute or a namespace node.

* `mem_of_evalAt`, `mem_of_stepFromEach` — a step selects among the nodes of its axis;
* `Step.NeverLeadOut` — no step of a run leads out; `neverLeadOut_of_axes` — paths of which this is known beforehand;
* `covers_evalAll` — steps that never lead out stay in the subtree;
* `covers_evalIn` — **location paths stay in the subtree of the virtual root**;
* `not_covers_evalIn_note` — beside the virtual root they do not.
-/

import Mathlib
import XPathAnnotator.Proofs.Axis.Confinement
import XPathAnnotator.Proofs.Eval.DocumentOrder
import XPathAnnotator.Proofs.Eval.Proximity
import XPathAnnotator.Proofs.NodeSet.Runs

namespace XPathAnnotator

open Evaluating Observing

variable {m : Type → Type} [Evaluating m] [Observing m]

/-! ### Steps -/

theorem mem_of_inAxisOrder {f : Forest} {reverse : Bool} {nodes : List Node} {n : Node}
    (met : n ∈ inAxisOrder f reverse nodes) : n ∈ nodes := by
  have listed : n ∈ (NodeSet.ofList nodes).toList f := by
    cases reverse with
    | false => exact met
    | true => exact List.mem_reverse.mp met
  exact List.mem_eraseDups.mp ((NodeSet.records_ofList nodes).shows.listing.subset listed)

variable {env : Environment m}

/-- **A step selects among the nodes of its axis.** -/
theorem mem_of_evalAt {step : Step} {n k : Node} {found : List Node} (taken : Returns (step.evalAt env n) found)
    (selected : k ∈ found) : k ∈ step.axis.nodes env.forest env.virtualRoot n := by
  obtain ⟨axis, test, predicates⟩ := step
  rw [Step.evalAt] at taken
  obtain ⟨reached, walked, taken⟩ := of_bind taken
  obtain ⟨passed, chosen, taken⟩ := of_bind taken
  have inPassed : k ∈ passed := by
    cases predicates with
    | nil =>
      rw [of_pure taken] at selected
      exact selected
    | cons first rest => exact mem_of_inAxisOrder ((sublist_of_keepAll taken).subset selected)
  rw [Step.axis, ← nodes_of_axisNodes walked]
  exact (sublist_of_select chosen).subset inPassed

/-- What is found from several nodes is found from one of them. -/
theorem mem_of_stepFromEach {step : Node → m (List Node)} {nodes : List Node} {found result : NodeSet} {k : Node}
    (taken : Returns (stepFromEach step found nodes) result) (selected : k ∈ result.inOrderOfAddition) :
    k ∈ found.inOrderOfAddition ∨ ∃ n ∈ nodes, ∃ reached, Returns (step n) reached ∧ k ∈ reached := by
  induction nodes generalizing found with
  | nil =>
    rw [stepFromEach] at taken
    rw [of_pure taken] at selected
    exact .inl selected
  | cons n nodes ih =>
    rw [stepFromEach] at taken
    obtain ⟨reached, walked, taken⟩ := of_bind taken
    rcases ih taken with before | ⟨n', member, reached', walked', among⟩
    · rw [NodeSet.mem_addAll] at before
      rcases before with among | before
      · exact .inr ⟨n, List.mem_cons_self, reached, walked, among⟩
      · exact .inl before
    · exact .inr ⟨n', List.mem_cons_of_mem _ member, reached', walked', among⟩

/-! ### Runs -/

/-- Whether no step leads out of the subtree of a virtual root: whenever one is taken along an axis that leads out of
it, the virtual root is not among the nodes that it is taken from. -/
def Step.NeverLeadOut (env : Environment m) (v : Node) : List Step → List Node → Prop
  | [], _ => True
  | step :: rest, nodes => (env.forest.LeadsOut step.axis v → v ∉ nodes) ∧
      ∀ found, Returns (stepFromEach (step.evalAt env) .empty nodes) found →
        Step.NeverLeadOut env v rest found.inOrderOfAddition

/-- Paths without siblings never lead out of the subtree of an element. -/
theorem neverLeadOut_of_axes {v : Node} {steps : List Step} {nodes : List Node}
    (stay : ∀ step ∈ steps, ¬ env.forest.LeadsOut step.axis v) : Step.NeverLeadOut env v steps nodes := by
  induction steps generalizing nodes with
  | nil => trivial
  | cons step steps ih =>
    exact ⟨fun out => absurd out (stay step List.mem_cons_self),
      fun _ _ => ih fun s member => stay s (List.mem_cons_of_mem _ member)⟩

section Runs

variable {v : Node} (linked : env.forest.Linked) (rooted : env.virtualRoot = some v)

include linked rooted

/-- One step stays in the subtree. -/
theorem covers_step {step : Step} {nodes : List Node} {found : NodeSet}
    (under : ∀ n ∈ nodes, env.forest.Covers v n) (stays : env.forest.LeadsOut step.axis v → v ∉ nodes)
    (taken : Returns (stepFromEach (step.evalAt env) .empty nodes) found) :
    ∀ k ∈ found.inOrderOfAddition, env.forest.Covers v k := by
  intro k selected
  rcases mem_of_stepFromEach taken selected with none | ⟨n, member, reached, walked, among⟩
  · exact absurd none List.not_mem_nil
  · have onAxis := mem_of_evalAt walked among
    rw [rooted] at onAxis
    refine (under n member).of_axisNodes linked (fun top out => stays out ?_) onAxis
    rw [← top]
    exact member

/-- **Steps that never lead out** stay in the subtree. -/
theorem covers_evalAll {steps : List Step} {nodes found : List Node} (under : ∀ n ∈ nodes, env.forest.Covers v n)
    (never : Step.NeverLeadOut env v steps nodes) (taken : Returns (Step.evalAll env steps nodes) found) :
    ∀ k ∈ found, env.forest.Covers v k := by
  induction steps generalizing nodes with
  | nil =>
    rw [Step.evalAll] at taken
    rw [of_pure taken]
    exact under
  | cons step steps ih =>
    rw [Step.evalAll] at taken
    obtain ⟨set, walked, taken⟩ := of_bind taken
    exact ih (covers_step linked rooted under never.1 walked) (never.2 set walked) taken

end Runs

/-! ### Location paths -/

theorem eq_of_theNode {focus : Focus} {n k : Node} (start : focus.node = some n)
    (found : Returns (focus.theNode : m Node) k) : k = n := by
  unfold Focus.theNode at found
  rw [start] at found
  exact of_pure found

/-- **Location paths stay in the subtree of the virtual root**: from a node of this subtree a path gives a node-set of
nodes of the subtree, if no step of it leads out. -/
theorem covers_evalIn {v n : Node} (made : env.forest.Made) (rooted : env.virtualRoot = some v) {focus : Focus}
    (start : focus.node = some n) (under : env.forest.Covers v n) {absolute : Bool} {steps : List Step}
    (never : Step.NeverLeadOut env v steps [if absolute then v else n]) {value : Value}
    (returned : Returns ((Expr.path absolute steps).evalIn env focus) value) :
    ∃ set, value = .nodes set ∧ ∀ k ∈ set.inOrderOfAddition, env.forest.Covers v k := by
  rw [Expr.evalIn] at returned
  obtain ⟨node, at_, returned⟩ := of_bind returned
  obtain ⟨found, walked, returned⟩ := of_bind returned
  obtain rfl := eq_of_theNode start at_
  have first : Axis.rootOf env.forest env.virtualRoot node = v := by rw [Axis.rootOf, rooted, Option.getD_some]
  rw [first] at walked
  have underFirst : ∀ k ∈ [if absolute then v else node], env.forest.Covers v k := by
    intro k member
    rw [List.mem_singleton.mp member]
    split
    · exact Forest.covers_self v
    · exact under
  refine ⟨_, of_pure returned, fun k selected => ?_⟩
  rw [NodeSet.mem_ofList] at selected
  exact covers_evalAll made.linked_positioned.1 rooted underFirst never walked k selected

/-- The note as a document, with one of its nodes as virtual root. -/
def noteBelow (id : Nat) : Environment (Except EvalError) :=
  { noteEnvironment with forest := noteForest, virtualRoot := some (.item id) }

/-- What comes before and beside what comes after a node. -/
def beforeAfter : List Step := [.mk .following .anyNode [], .mk .precedingSibling .anyNode []]

theorem nodesOf?_eq_some {result : Except EvalError Value} {nodes : List Node} (listed : nodesOf? result = some nodes) :
    ∃ set, result = .ok (.nodes set) ∧ set.inOrderOfAddition = nodes := by
  unfold nodesOf? at listed
  split at listed
  · exact ⟨_, rfl, Option.some.inj listed⟩
  · exact absurd listed.symm (Option.some_ne_none _)

theorem covers_evalIn_note : ∃ set, noteForest.Covers (.item 1) (.item 2) ∧
    (Expr.path false beforeAfter).evalIn (noteBelow 1) (Focus.start (some (.item 2))) = .ok (.nodes set) ∧
    set.inOrderOfAddition = [.item 3, .item 4] ∧ ∀ k ∈ set.inOrderOfAddition, noteForest.Covers (.item 1) k := by
  have made : (noteBelow 1).forest.Made := .build _ _ _ .empty
  have rooted : (noteBelow 1).virtualRoot = some (.item 1) := rfl
  have under : noteForest.Covers (.item 1) (.item 2) := .inr (.parent (by decide +kernel))
  obtain ⟨set, returned, listed⟩ := @nodesOf?_eq_some
    ((Expr.path false beforeAfter).evalIn (noteBelow 1) (Focus.start (some (.item 2)))) [.item 3, .item 4]
    (by decide +kernel)
  have never : Step.NeverLeadOut (noteBelow 1) (.item 1) beforeAfter [.item 2] := by
    refine ⟨fun _ => by decide, fun found taken => ⟨fun _ => ?_, fun _ _ => trivial⟩⟩
    obtain ⟨after, same, listedAfter⟩ := @nodesOf?_eq_some
      ((stepFromEach ((Step.mk .following .anyNode []).evalAt (noteBelow 1)) .empty [.item 2]).map .nodes)
      [.item 3, .item 4, .item 5] (by decide +kernel)
    have taken' : stepFromEach ((Step.mk .following .anyNode []).evalAt (noteBelow 1)) .empty [.item 2] = .ok found :=
      taken
    rw [taken'] at same
    obtain rfl := Value.nodes.inj (Except.ok.inj same)
    rw [listedAfter]
    decide
  obtain ⟨result, same, covers⟩ := covers_evalIn made rooted rfl under never returned
  obtain rfl := Value.nodes.inj same
  exact ⟨set, under, returned, listed, covers⟩

/-- The nodes before a node that have the same parent. -/
def siblingsBefore : Expr := .path false [.mk .precedingSibling .anyNode []]

/-- **Siblings of the virtual root are selected**: from the reference of the note as virtual root a path selects the
text before it. -/
theorem not_covers_evalIn_note : noteForest.Made ∧ noteForest.Covers (.item 4) (.item 4) ∧
    nodesOf? (siblingsBefore.evalIn (noteBelow 4) (Focus.start (some (.item 4)))) = some [.item 3] ∧
    ¬ noteForest.Covers (.item 4) (.item 3) := by
  have made : noteForest.Made := .build _ _ _ .empty
  refine ⟨made, Forest.covers_self _, by decide +kernel, ?_⟩
  exact made.linked_positioned.1.not_covers_of_siblings (.inr (by decide +kernel))

end XPathAnnotator
