/-
**Evaluations that agree.**

Two evaluations agree if both fail, or both return and their results are related. Sequences of agreeing parts
agree, a step taken from lists of the same nodes gives node-sets of the same nodes, and core functions other than
`sum` give alike values for alike arguments.

* `Agree` — two evaluations with related results; `Agree.bind`, `agree_keepFrom` — sequences;
* `agree_stepFromEach` — a step from each of some nodes;
* `CoreFunction.agree_call` — calls.
-/

import Mathlib
import XPathAnnotator.Proofs.Axis.Reach
import XPathAnnotator.Proofs.Eval.DocumentOrder
import XPathAnnotator.Proofs.NodeSet.Members
import XPathAnnotator.Proofs.Text.Words

namespace XPathAnnotator

open Evaluating

/-- Two evaluations of which both fail, or both return related results. -/
inductive Agree {α β : Type} (R : α → β → Prop) : Except EvalError α → Except EvalError β → Prop
  | returned {a : α} {b : β} (related : R a b) : Agree R (.ok a) (.ok b)
  | failed (error other : EvalError) : Agree R (.error error) (.error other)

variable {α β γ δ : Type}

/-! ### Sequences -/

theorem Agree.bind {R : α → β → Prop} {S : γ → δ → Prop} {x : Except EvalError α} {y : Except EvalError β}
    {next : α → Except EvalError γ} {next' : β → Except EvalError δ} (first : Agree R x y)
    (later : ∀ a b, R a b → Agree S (next a) (next' b)) : Agree S (x >>= next) (y >>= next') := by
  cases first with
  | returned related => exact later _ _ related
  | failed error other => exact .failed error other

theorem agree_pure {R : α → β → Prop} {a : α} {b : β} (related : R a b) :
    Agree R (pure a : Except EvalError α) (pure b) := .returned related

theorem agree_fail {R : α → β → Prop} (error other : EvalError) :
    Agree R (fail error : Except EvalError α) (fail other) := .failed error other

theorem agree_same (x : Except EvalError α) : Agree Eq x x := by
  cases x with
  | ok a => exact .returned rfl
  | error error => exact .failed error error

theorem Agree.eq_ok {R : α → β → Prop} {x : Except EvalError α} {y : Except EvalError β} (agree : Agree R x y)
    {a : α} (returned : x = .ok a) : ∃ b, y = .ok b ∧ R a b := by
  cases agree with
  | returned related =>
    obtain rfl := Except.ok.inj returned
    exact ⟨_, rfl, related⟩
  | failed => cases returned

/-- Keeping the same nodes at the same positions. -/
theorem agree_keepFrom {keeps keeps' : Node → Int → Except EvalError Bool} {nodes : List Node}
    (each : ∀ n ∈ nodes, ∀ position, Agree Eq (keeps n position) (keeps' n position)) (position : Int) :
    Agree Eq (keepFrom keeps position nodes) (keepFrom keeps' position nodes) := by
  induction nodes generalizing position with
  | nil => exact .returned rfl
  | cons n nodes ih =>
    have rest := ih (fun m met => each m (List.mem_cons_of_mem _ met)) (position + 1)
    rw [keepFrom, keepFrom]
    refine (each n List.mem_cons_self position).bind ?_
    rintro keep _ rfl
    cases keep with
    | true =>
      refine rest.bind ?_
      rintro kept _ rfl
      exact agree_pure rfl
    | false => exact rest

/-! ### Steps -/

section Steps

variable {f : Forest} {r : Node} {step step' : Node → Except EvalError (List Node)}

/-- What a step gives from each of some nodes, if it fails on none of them. -/
theorem stepFromEach_eq_ok {nodes : List Node} (found : NodeSet) (fine : ∀ n ∈ nodes, ∃ taken, step n = .ok taken) :
    ∃ all, stepFromEach step found nodes = .ok (found.addAll all) ∧
      ∀ m, m ∈ all ↔ ∃ n ∈ nodes, ∃ taken, step n = .ok taken ∧ m ∈ taken := by
  induction nodes generalizing found with
  | nil => exact ⟨[], rfl, fun m => by simp⟩
  | cons n nodes ih =>
    obtain ⟨taken, result⟩ := fine n List.mem_cons_self
    obtain ⟨all, walked, members⟩ := ih (found.addAll taken) fun m met => fine m (List.mem_cons_of_mem _ met)
    refine ⟨taken ++ all, ?_, fun m => ?_⟩
    · rw [stepFromEach, result]
      refine walked.trans (congrArg Except.ok ?_)
      unfold NodeSet.addAll
      rw [List.foldl_append]
    · rw [List.mem_append, members, List.exists_mem_cons_iff]
      refine or_congr_left ⟨fun met => ⟨taken, result, met⟩, ?_⟩
      rintro ⟨other, same, met⟩
      obtain rfl := Except.ok.inj (result.symm.trans same)
      exact met

theorem stepFromEach_eq_error {nodes : List Node} (found : NodeSet) {n : Node} (met : n ∈ nodes)
    {error : EvalError} (failed : step n = .error error) :
    ∃ other, stepFromEach step found nodes = .error other := by
  induction nodes generalizing found with
  | nil => exact absurd met List.not_mem_nil
  | cons m nodes ih =>
    rw [stepFromEach]
    cases result : step m with
    | error other => exact ⟨other, rfl⟩
    | ok taken =>
      rcases List.mem_cons.mp met with rfl | met
      · rw [failed] at result
        cases result
      · exact ih (found.addAll taken) met

/-- **A step from lists of the same nodes** gives node-sets of the same nodes. -/
theorem agree_stepFromEach {nodes others : List Node} (same : ∀ n, n ∈ nodes ↔ n ∈ others)
    (each : ∀ n ∈ nodes, Agree Eq (step n) (step' n))
    (stays : ∀ n ∈ nodes, ∀ taken, step n = .ok taken → ∀ m ∈ taken, f.InTree r m) :
    Agree (NodeSet.Alike f r) (stepFromEach step .empty nodes) (stepFromEach step' .empty others) := by
  by_cases fine : ∀ n ∈ nodes, ∃ taken, step n = .ok taken
  · have fine' : ∀ n ∈ others, ∃ taken, step' n = .ok taken := by
      intro n met
      obtain ⟨taken, result⟩ := fine n ((same n).mpr met)
      obtain ⟨_, result', -⟩ := (each n ((same n).mpr met)).eq_ok result
      exact ⟨_, result'⟩
    obtain ⟨all, walked, members⟩ := stepFromEach_eq_ok .empty fine
    obtain ⟨all', walked', members'⟩ := stepFromEach_eq_ok .empty fine'
    rw [walked, walked']
    refine .returned (NodeSet.alike_ofList (fun m met => ?_) fun m => ?_)
    · obtain ⟨n, from_, taken, result, met⟩ := (members m).mp met
      exact stays n from_ taken result m met
    · rw [members, members']
      constructor
      · rintro ⟨n, from_, taken, result, met⟩
        obtain ⟨_, result', rfl⟩ := (each n from_).eq_ok result
        exact ⟨n, (same n).mp from_, taken, result', met⟩
      · rintro ⟨n, from_, taken, result, met⟩
        obtain ⟨taken', result'⟩ := fine n ((same n).mpr from_)
        obtain ⟨_, again, rfl⟩ := (each n ((same n).mpr from_)).eq_ok result'
        obtain rfl := Except.ok.inj (result.symm.trans again)
        exact ⟨n, (same n).mpr from_, taken, result', met⟩
  · push Not at fine
    obtain ⟨n, met, never⟩ := fine
    cases result : step n with
    | ok taken => exact absurd result (never taken)
    | error error =>
      have agree := each n met
      rw [result] at agree
      generalize result' : step' n = outcome at agree
      cases agree with
      | failed _ error' =>
        obtain ⟨first, failed⟩ := stepFromEach_eq_error .empty met result
        obtain ⟨second, failed'⟩ := stepFromEach_eq_error .empty ((same n).mp met) result'
        rw [failed, failed']
        exact .failed first second

end Steps

/-! ### Calls -/

namespace CoreFunction

section Calls

variable {f : Forest} {r : Node} {focus : Focus} {a b : Argument (Except EvalError)}
  {arguments others : List (Argument (Except EvalError))}

/-- Arguments whose values agree at a focus. -/
def ArgumentsAgree (f : Forest) (r : Node) (focus : Focus)
    (arguments others : List (Argument (Except EvalError))) : Prop :=
  List.Forall₂ (fun a b => Agree (Value.Alike f r) (a.value focus) (b.value focus)) arguments others

theorem agree_of_eq {x y : Except EvalError α} (agree : Agree Eq x y) {make : α → Value}
    (plain : ∀ a, (make a).nodes? = none) :
    Agree (Value.Alike f r) (do return make (← x)) (do return make (← y)) := by
  refine agree.bind ?_
  rintro a _ rfl
  exact agree_pure (.plain (plain a))

theorem agree_nodesOf (function : CoreFunction) (agree : Agree (Value.Alike f r) (a.value focus) (b.value focus)) :
    Agree (NodeSet.Alike f r) (function.nodesOf focus a) (function.nodesOf focus b) := by
  refine agree.bind fun value other alike => ?_
  cases alike with
  | nodes alike => exact agree_pure alike
  | plain plain =>
    cases value with
    | nodes set => exact absurd plain (Option.some_ne_none _)
    | _ => exact agree_fail _ _

variable (keyed : Balanced.Keyed f.order f.address (f.InTree r))

include keyed

theorem agree_textOf (agree : Agree (Value.Alike f r) (a.value focus) (b.value focus)) :
    Agree Eq (textOf f focus a) (textOf f focus b) :=
  agree.bind fun _ _ alike => agree_pure (alike.toText_eq keyed)

theorem agree_numberOf (agree : Agree (Value.Alike f r) (a.value focus) (b.value focus)) :
    Agree Eq (numberOf f focus a) (numberOf f focus b) :=
  agree.bind fun _ _ alike => agree_pure (alike.toNumber_eq keyed)

theorem agree_textsOf (agree : ArgumentsAgree f r focus arguments others) :
    Agree Eq (textsOf f focus arguments) (textsOf f focus others) := by
  induction agree with
  | nil => exact .returned rfl
  | cons one _ ih =>
    refine (agree_textOf keyed one).bind ?_
    rintro text _ rfl
    refine ih.bind ?_
    rintro texts _ rfl
    exact agree_pure rfl

theorem agree_subject? (function : CoreFunction) (agree : ArgumentsAgree f r focus arguments others) :
    Agree Eq (function.subject? f focus arguments) (function.subject? f focus others) := by
  rcases agree with _ | ⟨one, _ | ⟨two, rest⟩⟩
  · exact agree_same _
  · exact (agree_nodesOf function one).bind fun _ _ alike => agree_pure (alike.first?_eq keyed)
  · exact agree_fail _ _

theorem agree_subjectText (function : CoreFunction) (agree : ArgumentsAgree f r focus arguments others) :
    Agree Eq (function.subjectText f focus arguments) (function.subjectText f focus others) := by
  rcases agree with _ | ⟨one, _ | ⟨two, rest⟩⟩
  · exact agree_same _
  · exact agree_textOf keyed one
  · exact agree_fail _ _

omit keyed in
/-- Elements are looked up by identifiers in any order. -/
theorem alike_elementsById (linked : f.Linked) {n : Node} (inTree : f.InTree r n) {identifiers again : List String}
    (same : ∀ identifier, identifier ∈ identifiers ↔ identifier ∈ again) :
    (elementsById f n identifiers).Alike f r (elementsById f n again) := by
  have inDocument : ∀ document,
      (if f.kind n == .document then some n else f.ownerDocument? n) = some document → f.InTree r document := by
    intro document found
    split at found
    · obtain rfl := Option.some.inj found
      exact inTree
    · unfold Forest.ownerDocument? at found
      dsimp only at found
      split at found
      · obtain rfl := Option.some.inj found
        exact inTree.of_root linked
      · exact absurd found.symm (Option.some_ne_none _)
  unfold elementsById
  dsimp only
  generalize (if f.kind n == .document then some n else f.ownerDocument? n) = document at inDocument
  cases document with
  | none => exact @NodeSet.alike_ofList f r [] [] (fun _ met => absurd met List.not_mem_nil) fun _ => Iff.rfl
  | some document =>
    refine NodeSet.alike_ofList (fun e met => ?_) fun e => ?_
    · obtain ⟨value, -, found⟩ := List.mem_filterMap.mp met
      exact (inDocument document rfl).of_descendants linked (List.mem_of_find?_eq_some found)
    · rw [List.mem_filterMap, List.mem_filterMap]
      exact exists_congr fun value => and_congr_left fun _ => same value

omit keyed in
theorem agree_id (linked : f.Linked) (at_ : ∀ n, focus.node = some n → f.InTree r n)
    (agree : ArgumentsAgree f r focus arguments others) :
    Agree (Value.Alike f r) (CoreFunction.id.call f focus arguments) (CoreFunction.id.call f focus others) := by
  rcases agree with _ | ⟨one, _ | ⟨two, rest⟩⟩
  · exact agree_fail _ _
  · refine one.bind fun value other alike => ?_
    cases node : focus.node with
    | none =>
      unfold Focus.theNode
      rw [node]
      exact agree_fail _ _
    | some n =>
      unfold Focus.theNode
      rw [node]
      refine agree_pure (.nodes (alike_elementsById linked (at_ n node) fun identifier => ?_))
      cases alike with
      | plain => exact Iff.rfl
      | nodes alike =>
        dsimp only
        rw [Text.words_intercalate, Text.words_intercalate, List.mem_flatMap, List.mem_flatMap]
        exact exists_congr fun text => and_congr_left fun _ => alike.stringValues_perm.mem_iff
  · exact agree_fail _ _

/-- Two texts of arguments. -/
theorem agree_texts {a' b' : Argument (Except EvalError)}
    (one : Agree (Value.Alike f r) (a.value focus) (b.value focus))
    (two : Agree (Value.Alike f r) (a'.value focus) (b'.value focus)) {R : α → β → Prop}
    {next : String → String → Except EvalError α} {next' : String → String → Except EvalError β}
    (later : ∀ s t, Agree R (next s t) (next' s t)) :
    Agree R (do next (← textOf f focus a) (← textOf f focus a'))
      (do next' (← textOf f focus b) (← textOf f focus b')) := by
  refine (agree_textOf keyed one).bind ?_
  rintro s _ rfl
  refine (agree_textOf keyed two).bind ?_
  rintro t _ rfl
  exact later s t

/-- A text and a number of arguments. -/
theorem agree_text_number {a' b' : Argument (Except EvalError)}
    (one : Agree (Value.Alike f r) (a.value focus) (b.value focus))
    (two : Agree (Value.Alike f r) (a'.value focus) (b'.value focus)) {R : α → β → Prop}
    {next : String → Float → Except EvalError α} {next' : String → Float → Except EvalError β}
    (later : ∀ s x, Agree R (next s x) (next' s x)) :
    Agree R (do next (← textOf f focus a) (← numberOf f focus a'))
      (do next' (← textOf f focus b) (← numberOf f focus b')) := by
  refine (agree_textOf keyed one).bind ?_
  rintro s _ rfl
  refine (agree_numberOf keyed two).bind ?_
  rintro x _ rfl
  exact later s x

/-- **Calls of core functions other than `sum`** give alike values for alike arguments. -/
theorem agree_call (linked : f.Linked) {function : CoreFunction} (other : function ≠ .sum)
    (at_ : ∀ n, focus.node = some n → f.InTree r n) (agree : ArgumentsAgree f r focus arguments others) :
    Agree (Value.Alike f r) (function.call f focus arguments) (function.call f focus others) := by
  cases function with
  | sum => exact absurd rfl other
  | id => exact agree_id linked at_ agree
  | localName => exact agree_of_eq (agree_subject? keyed .localName agree) fun _ => rfl
  | namespaceUri => exact agree_of_eq (agree_subject? keyed .namespaceUri agree) fun _ => rfl
  | name => exact agree_of_eq (agree_subject? keyed .name agree) fun _ => rfl
  | string => exact agree_of_eq (agree_subjectText keyed .string agree) fun _ => rfl
  | stringLength => exact agree_of_eq (agree_subjectText keyed .stringLength agree) fun _ => rfl
  | normalizeSpace => exact agree_of_eq (agree_subjectText keyed .normalizeSpace agree) fun _ => rfl
  | last | position | true | false =>
    cases agree with
    | nil => exact agree_pure (.plain rfl)
    | cons => exact agree_fail _ _
  | count =>
    rcases agree with _ | ⟨one, _ | _⟩
    · exact agree_fail _ _
    · refine (agree_nodesOf .count one).bind fun _ _ alike => ?_
      rw [alike.size_eq]
      exact agree_pure (.plain rfl)
    · exact agree_fail _ _
  | boolean | not =>
    rcases agree with _ | ⟨one, _ | _⟩
    · exact agree_fail _ _
    · refine one.bind fun _ _ alike => ?_
      rw [alike.toTruth_eq]
      exact agree_pure (.plain rfl)
    · exact agree_fail _ _
  | floor | ceiling | round =>
    rcases agree with _ | ⟨one, _ | _⟩
    · exact agree_fail _ _
    · exact agree_of_eq (agree_numberOf keyed one) fun _ => rfl
    · exact agree_fail _ _
  | number =>
    rcases agree with _ | ⟨one, _ | _⟩
    · exact agree_of_eq (agree_same focus.theNode) fun _ => rfl
    · exact agree_of_eq (agree_numberOf keyed one) fun _ => rfl
    · exact agree_fail _ _
  | lang =>
    rcases agree with _ | ⟨one, _ | _⟩
    · exact agree_fail _ _
    · refine (agree_textOf keyed one).bind ?_
      rintro text _ rfl
      exact agree_of_eq (agree_same focus.theNode) fun _ => rfl
    · exact agree_fail _ _
  | concat =>
    rcases agree with _ | ⟨one, _ | ⟨two, rest⟩⟩
    · exact agree_fail _ _
    · exact agree_fail _ _
    · exact agree_of_eq (agree_textsOf keyed (.cons one (.cons two rest))) fun _ => rfl
  | startsWith | contains | substringBefore | substringAfter =>
    rcases agree with _ | ⟨one, _ | ⟨two, _ | _⟩⟩
    · exact agree_fail _ _
    · exact agree_fail _ _
    · exact agree_texts keyed one two fun _ _ => agree_pure (.plain rfl)
    · exact agree_fail _ _
  | substring =>
    rcases agree with _ | ⟨one, _ | ⟨two, _ | ⟨three, _ | _⟩⟩⟩
    · exact agree_fail _ _
    · exact agree_fail _ _
    · exact agree_text_number keyed one two fun _ _ => agree_pure (.plain rfl)
    · refine agree_text_number keyed one two fun text x => ?_
      exact agree_of_eq (agree_numberOf keyed three) fun _ => rfl
    · exact agree_fail _ _
  | translate =>
    rcases agree with _ | ⟨one, _ | ⟨two, _ | ⟨three, _ | _⟩⟩⟩
    · exact agree_fail _ _
    · exact agree_fail _ _
    · exact agree_fail _ _
    · refine agree_texts keyed one two fun text source => ?_
      exact agree_of_eq (agree_textOf keyed three) fun _ => rfl
    · exact agree_fail _ _

end Calls

end CoreFunction

end XPathAnnotator
