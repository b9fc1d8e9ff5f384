/-
**What a location path selects.**

A location path is applied to a list of nodes, step after step, and each step collects what it gives from each node
into a set. What is selected can be told one node at a time: a node is selected if the steps lead to it from one of
the nodes of the list, and the application fails if from one of these the steps lead to a node at which the next step
fails. So lists count as the sets of their nodes, and steps one after the other are maps of such sets, composed.

* `Leads`, `Breaks` — where steps lead from one node, and whether they break off;
* `of_stepFromEach`, `stepFromEach_fails_iff` — one step from each node of a list;
* `mem_evalAll`, `evalAll_fails_iff` — a path from all nodes of a list, told by what it does from each;
* `evalAll_append` — paths one after the other;
* `evalAll_homomorphic` — all of it for two paths and two lists.
-/

import Mathlib
import XPathAnnotator.Proofs.Eval.Agreement
import XPathAnnotator.Proofs.Eval.Proximity

namespace XPathAnnotator

variable {env : Environment (Except EvalError)} {step : Step} {path rest : List Step} {n m : Node} {nodes : List Node}

/-! ### One step -/

section One

variable {give : Node → Except EvalError (List Node)}

/-- **One step from each node** fails exactly if it fails from one of them. -/
theorem stepFromEach_fails_iff (found : NodeSet) :
    (∃ error, stepFromEach give found nodes = .error error) ↔ ∃ n ∈ nodes, ∃ error, give n = .error error := by
  constructor
  · rintro ⟨error, failed⟩
    by_contra none
    have fine : ∀ n ∈ nodes, ∃ taken, give n = .ok taken := by
      intro n met
      cases result : give n with
      | error other => exact absurd ⟨n, met, other, result⟩ none
      | ok taken => exact ⟨taken, rfl⟩
    obtain ⟨all, walked, -⟩ := stepFromEach_eq_ok found fine
    cases walked.symm.trans failed
  · rintro ⟨n, met, error, failed⟩
    exact stepFromEach_eq_error found met failed

/-- What one step from each node collects: no node twice, and those that it gives from one of them. -/
theorem of_stepFromEach {set : NodeSet} (walked : stepFromEach give .empty nodes = .ok set) :
    set.inOrderOfAddition.Nodup ∧
      ∀ m, m ∈ set.inOrderOfAddition ↔ ∃ n ∈ nodes, ∃ taken, give n = .ok taken ∧ m ∈ taken := by
  have fine : ∀ n ∈ nodes, ∃ taken, give n = .ok taken := by
    intro n met
    cases result : give n with
    | error error =>
      obtain ⟨other, failed⟩ := stepFromEach_eq_error .empty met result
      cases failed.symm.trans walked
    | ok taken => exact ⟨taken, rfl⟩
  obtain ⟨all, again, members⟩ := stepFromEach_eq_ok .empty fine
  obtain rfl := Except.ok.inj (again.symm.trans walked)
  refine ⟨NodeSet.nodup_addAll List.nodup_nil, fun m => ?_⟩
  rw [← members]
  exact NodeSet.mem_ofList all m

end One

/-! ### Steps one after the other -/

/-- Whether a step gives a node from another one. -/
def Step.Gives (env : Environment (Except EvalError)) (step : Step) (n m : Node) : Prop :=
  ∃ taken, step.evalAt env n = .ok taken ∧ m ∈ taken

/-- Steps lead from a node to another if each gives a node from the one that the step before it gave. -/
inductive Leads (env : Environment (Except EvalError)) : List Step → Node → Node → Prop
  | here (n : Node) : Leads env [] n n
  | along {step : Step} {rest : List Step} {n k m : Node} (gives : step.Gives env n k) (later : Leads env rest k m) :
    Leads env (step :: rest) n m

/-- Steps break off from a node if some of them lead to a node at which the next one fails. -/
inductive Breaks (env : Environment (Except EvalError)) : List Step → Node → Prop
  | now {step : Step} {rest : List Step} {n : Node} {error : EvalError} (failed : step.evalAt env n = .error error) :
    Breaks env (step :: rest) n
  | later {step : Step} {rest : List Step} {n k : Node} (gives : step.Gives env n k) (breaks : Breaks env rest k) :
    Breaks env (step :: rest) n

theorem leads_nil : Leads env [] n m ↔ m = n := by
  constructor
  · rintro ⟨⟩
    rfl
  · rintro rfl
    exact .here m

theorem leads_cons : Leads env (step :: rest) n m ↔ ∃ k, step.Gives env n k ∧ Leads env rest k m := by
  constructor
  · rintro (_ | ⟨gives, later⟩)
    exact ⟨_, gives, later⟩
  · rintro ⟨k, gives, later⟩
    exact .along gives later

theorem breaks_cons : Breaks env (step :: rest) n ↔
    (∃ error, step.evalAt env n = .error error) ∨ ∃ k, step.Gives env n k ∧ Breaks env rest k := by
  constructor
  · rintro (failed | ⟨gives, breaks⟩)
    · exact .inl ⟨_, failed⟩
    · exact .inr ⟨_, gives, breaks⟩
  · rintro (⟨error, failed⟩ | ⟨k, gives, breaks⟩)
    · exact .now failed
    · exact .later gives breaks

theorem evalAll_cons (env : Environment (Except EvalError)) (step : Step) (rest : List Step) (nodes : List Node) :
    Step.evalAll env (step :: rest) nodes =
      stepFromEach (step.evalAt env) .empty nodes >>= fun set => Step.evalAll env rest set.inOrderOfAddition := by
  rw [Step.evalAll]

/-- **A path fails from a list of nodes** exactly if its steps break off from one of them. -/
theorem evalAll_fails_iff :
    (∃ error, Step.evalAll env path nodes = .error error) ↔ ∃ n ∈ nodes, Breaks env path n := by
  induction path generalizing nodes with
  | nil =>
    rw [Step.evalAll]
    constructor
    · rintro ⟨error, failed⟩
      cases failed
    · rintro ⟨n, -, ⟨⟩⟩
  | cons step rest ih =>
    rw [evalAll_cons]
    simp only [breaks_cons]
    cases walked : stepFromEach (step.evalAt env) .empty nodes with
    | error error =>
      obtain ⟨n, met, failed⟩ := (stepFromEach_fails_iff .empty).mp ⟨error, walked⟩
      exact ⟨fun _ => ⟨n, met, .inl failed⟩, fun _ => ⟨error, rfl⟩⟩
    | ok set =>
      have members := (of_stepFromEach walked).2
      refine ih.trans ⟨?_, ?_⟩
      · rintro ⟨k, met, breaks⟩
        obtain ⟨n, from_, gives⟩ := (members k).mp met
        exact ⟨n, from_, .inr ⟨k, gives, breaks⟩⟩
      · rintro ⟨n, met, failed | ⟨k, gives, breaks⟩⟩
        · obtain ⟨error, failed⟩ := (stepFromEach_fails_iff .empty).mpr ⟨n, met, failed⟩
          cases walked.symm.trans failed
        · exact ⟨k, (members k).mpr ⟨n, met, gives⟩, breaks⟩

/-- **What a path selects from a list of nodes**: the nodes to which its steps lead from one of them. -/
theorem mem_evalAll {found : List Node} (selected : Step.evalAll env path nodes = .ok found) (m : Node) :
    m ∈ found ↔ ∃ n ∈ nodes, Leads env path n m := by
  induction path generalizing nodes with
  | nil =>
    rw [Step.evalAll] at selected
    obtain rfl := Except.ok.inj selected
    simp only [leads_nil, exists_eq_right']
  | cons step rest ih =>
    rw [evalAll_cons] at selected
    obtain ⟨set, walked, selected⟩ := exists_of_bind_eq_ok selected
    have members := (of_stepFromEach walked).2
    rw [ih selected]
    constructor
    · rintro ⟨k, met, leads⟩
      obtain ⟨n, from_, gives⟩ := (members k).mp met
      exact ⟨n, from_, .along gives leads⟩
    · rintro ⟨n, from_, leads⟩
      obtain ⟨k, gives, leads⟩ := leads_cons.mp leads
      exact ⟨k, (members k).mpr ⟨n, from_, gives⟩, leads⟩

/-- A path with a step selects no node twice. -/
theorem nodup_evalAll {found : List Node} (some : path ≠ []) (selected : Step.evalAll env path nodes = .ok found) :
    found.Nodup := by
  induction path generalizing nodes with
  | nil => exact absurd rfl some
  | cons step rest ih =>
    rw [evalAll_cons] at selected
    obtain ⟨set, walked, selected⟩ := exists_of_bind_eq_ok selected
    cases rest with
    | nil =>
      rw [Step.evalAll] at selected
      obtain rfl := Except.ok.inj selected
      exact (of_stepFromEach walked).1
    | cons next rest => exact ih (List.cons_ne_nil next rest) selected

/-- **Paths one after the other** select what the second one selects from what the first one has selected. -/
theorem evalAll_append (env : Environment (Except EvalError)) (path rest : List Step) (nodes : List Node) :
    Step.evalAll env (path ++ rest) nodes = Step.evalAll env path nodes >>= Step.evalAll env rest := by
  induction path generalizing nodes with
  | nil =>
    rw [Step.evalAll]
    rfl
  | cons step path ih =>
    rw [List.cons_append, evalAll_cons, evalAll_cons]
    cases stepFromEach (step.evalAt env) .empty nodes with
    | error error => rfl
    | ok set => exact ih set.inOrderOfAddition

/-! ### Paths as maps of sets of nodes -/

/-- Two outcomes agree if both are failures, or both have results and these are related. -/
theorem agree_of_fails_iff {α β : Type} {R : α → β → Prop} {x : Except EvalError α} {y : Except EvalError β}
    (fails : (∃ error, x = .error error) ↔ ∃ error, y = .error error)
    (results : ∀ a b, x = .ok a → y = .ok b → R a b) : Agree R x y := by
  cases x with
  | error error =>
    obtain ⟨other, rfl⟩ := fails.mp ⟨error, rfl⟩
    exact .failed error other
  | ok a =>
    cases y with
    | error other =>
      obtain ⟨error, same⟩ := fails.mpr ⟨other, rfl⟩
      cases same
    | ok b => exact .returned (results a b rfl rfl)

/-- **Lists count as the sets of their nodes**, of two lists together as their union. -/
theorem agree_evalAll {others : List Node} (same : ∀ n, n ∈ nodes ↔ n ∈ others) :
    Agree (fun found again => ∀ m, m ∈ found ↔ m ∈ again) (Step.evalAll env path nodes)
      (Step.evalAll env path others) := by
  refine agree_of_fails_iff ?_ fun found again selected selected' m => ?_
  · simp only [evalAll_fails_iff, same]
  · simp only [mem_evalAll selected, mem_evalAll selected', same]

/-- What a path selects from two lists, each for itself. -/
def Step.evalBoth (env : Environment (Except EvalError)) (path : List Step) (nodes others : List Node) :
    Except EvalError (List Node × List Node) := do
  let first ← Step.evalAll env path nodes
  let second ← Step.evalAll env path others
  return (first, second)

theorem evalBoth_fails_iff {others : List Node} : (∃ error, Step.evalBoth env path nodes others = .error error) ↔
    (∃ error, Step.evalAll env path nodes = .error error) ∨ ∃ error, Step.evalAll env path others = .error error := by
  unfold Step.evalBoth
  cases Step.evalAll env path nodes with
  | error error => exact ⟨fun _ => .inl ⟨error, rfl⟩, fun _ => ⟨error, rfl⟩⟩
  | ok first =>
    cases Step.evalAll env path others with
    | error error => exact ⟨fun _ => .inr ⟨error, rfl⟩, fun _ => ⟨error, rfl⟩⟩
    | ok second =>
      constructor
      · rintro ⟨_, ⟨⟩⟩
      · rintro (⟨_, ⟨⟩⟩ | ⟨_, ⟨⟩⟩)

theorem agree_evalBoth {others : List Node} :
    Agree (fun found parts => ∀ m, m ∈ found ↔ m ∈ parts.1 ∨ m ∈ parts.2)
      (Step.evalAll env path (nodes ++ others)) (Step.evalBoth env path nodes others) := by
  refine agree_of_fails_iff ?_ fun found parts selected both m => ?_
  · simp only [evalBoth_fails_iff, evalAll_fails_iff, List.mem_append, or_and_right, exists_or]
  · obtain ⟨first, selectedFirst, both⟩ := exists_of_bind_eq_ok both
    obtain ⟨second, selectedSecond, both⟩ := exists_of_bind_eq_ok both
    obtain rfl := Except.ok.inj both
    simp only [mem_evalAll selected, mem_evalAll selectedFirst, mem_evalAll selectedSecond, List.mem_append,
      or_and_right, exists_or]

/-- A path fails exactly at a step that is reached, from a single one of the nodes that are reached there. -/
theorem evalAll_fails_iff_reached :
    (∃ error, Step.evalAll env path nodes = .error error) ↔
      ∃ front step back reached n, path = front ++ step :: back ∧ Step.evalAll env front nodes = .ok reached ∧
        n ∈ reached ∧ ∃ error, step.evalAt env n = .error error := by
  constructor
  · intro fails
    induction path generalizing nodes with
    | nil =>
      obtain ⟨error, failed⟩ := fails
      rw [Step.evalAll] at failed
      cases failed
    | cons step rest ih =>
      cases walked : stepFromEach (step.evalAt env) .empty nodes with
      | error error =>
        obtain ⟨n, met, failed⟩ := (stepFromEach_fails_iff .empty).mp ⟨error, walked⟩
        exact ⟨[], step, rest, nodes, n, rfl, by rw [Step.evalAll]; rfl, met, failed⟩
      | ok set =>
        rw [evalAll_cons, walked] at fails
        obtain ⟨front, next, back, reached, n, rfl, walkedFront, met, failed⟩ := ih fails
        refine ⟨step :: front, next, back, reached, n, rfl, ?_, met, failed⟩
        rw [evalAll_cons, walked]
        exact walkedFront
  · rintro ⟨front, step, back, reached, n, rfl, walkedFront, met, error, failed⟩
    rw [evalAll_append, walkedFront]
    exact evalAll_fails_iff.mpr ⟨n, met, .now failed⟩

/-- **Location paths are homomorphisms of sets of nodes.** In every context, for all paths `p` and `q` and all lists
of nodes: `p` selects from two lists together what it selects from the one and from the other, and fails if it does
on one of them; the steps of `p` and then those of `q` select what `q` selects from what `p` selects; from lists of
the same nodes `p` selects the same nodes, or fails on both; with at least one step it selects no node twice; and it
fails exactly if a step that is reached fails from a single one of the nodes that are reached there. -/
theorem evalAll_homomorphic (env : Environment (Except EvalError)) (p q : List Step) (nodes others : List Node) :
    Agree (fun found parts => ∀ m, m ∈ found ↔ m ∈ parts.1 ∨ m ∈ parts.2)
        (Step.evalAll env p (nodes ++ others)) (Step.evalBoth env p nodes others) ∧
      Step.evalAll env (p ++ q) nodes = Step.evalAll env p nodes >>= Step.evalAll env q ∧
      ((∀ n, n ∈ nodes ↔ n ∈ others) → Agree (fun found again => ∀ m, m ∈ found ↔ m ∈ again)
        (Step.evalAll env p nodes) (Step.evalAll env p others)) ∧
      (p ≠ [] → ∀ found, Step.evalAll env p nodes = .ok found → found.Nodup) ∧
      ((∃ error, Step.evalAll env p nodes = .error error) ↔
        ∃ front step back reached n, p = front ++ step :: back ∧ Step.evalAll env front nodes = .ok reached ∧
          n ∈ reached ∧ ∃ error, step.evalAt env n = .error error) :=
  ⟨agree_evalBoth, evalAll_append env p q nodes, agree_evalAll, fun some _ => nodup_evalAll some,
    evalAll_fails_iff_reached⟩

/-- The siblings after a node that have a sibling before them. -/
def laterSiblings : List Step :=
  [.mk .followingSibling .anyNode [.path false [.mk .precedingSibling .anyNode []]]]

theorem evalAll_homomorphic_note :
    (∀ n : Node, n ∈ [.item 2, .item 3] ↔ n ∈ [.item 3, .item 2, .item 3]) ∧ laterSiblings ≠ [] ∧
    (Step.evalAll noteEnvironment laterSiblings [.item 2, .item 3]).toOption = some [.item 3, .item 4] ∧
    (Step.evalAll noteEnvironment laterSiblings [.item 3, .item 2, .item 3]).toOption = some [.item 4, .item 3] ∧
    Agree (fun found again => ∀ m, m ∈ found ↔ m ∈ again)
      (Step.evalAll noteEnvironment laterSiblings [.item 2, .item 3])
      (Step.evalAll noteEnvironment laterSiblings [.item 3, .item 2, .item 3]) ∧
    ∀ found, Step.evalAll noteEnvironment laterSiblings [.item 2, .item 3] = .ok found → found.Nodup := by
  have same : ∀ n : Node, n ∈ [.item 2, .item 3] ↔ n ∈ [.item 3, .item 2, .item 3] := by
    intro n
    simp only [List.mem_cons, List.not_mem_nil, or_false]
    tauto
  have some : laterSiblings ≠ [] := List.cons_ne_nil _ _
  obtain ⟨-, -, agree, nodup, -⟩ := evalAll_homomorphic noteEnvironment laterSiblings [] [.item 2, .item 3]
    [.item 3, .item 2, .item 3]
  exact ⟨same, some, by decide +kernel, by decide +kernel, agree same, nodup some⟩

end XPathAnnotator
