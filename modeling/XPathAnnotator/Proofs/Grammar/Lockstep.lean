/-
**Parsers in lockstep.**

Two tables act alike if, in states that correspond, they do the same before each terminal: both read it and come
to states that correspond, both apply a production with as many symbols backwards and find states that correspond,
both accept, or both have no action. Parsers with such tables go on in lockstep, so they accept the same rows of
tokens; the names of the terminals may differ between the two.

* `step_alike` — one step of both;
* `Lockstep.run_iff` — as many steps of both: one accepts if the other does;
* `Lockstep.accepts_iff` — **both accept the same rows of tokens**, with and without a bound on the steps.
-/

import Mathlib
import XPathAnnotator.Proofs.Grammar.Derivation
import XPathAnnotator.Proofs.Grammar.Runs

namespace XPathAnnotator.Grammar

open Table (top)

variable {α β ε δ : Type} {t u : Table} {kind : String → String} {known : String → Prop}
  {alike : Nat → Nat → Prop}

/-- No production refuses its values. -/
def Semantics.Total (semantics : Semantics α ε) : Prop :=
  ∀ p values, ∃ value, semantics.node p values = .ok value

theorem total_treeSemantics : treeSemantics.Total := fun p children => ⟨.node p children, rfl⟩

/-- A token whose terminal has another name. -/
def Token.rename (kind : String → String) (token : Token) : Token := ⟨kind token.kind, token.text⟩

/-- A parser returns a value for a row of tokens, after any number of steps. -/
def Table.Accepts (t : Table) (semantics : Semantics α ε) (tokens : List Token) : Prop :=
  ∃ value, t.Ends semantics ⟨[], tokens⟩ (.ok value)

/-- What two tables do is alike. -/
inductive ActsAlike (t u : Table) (alike : Nat → Nat → Prop) : Option Action → Option Action → Prop
  | none : ActsAlike t u alike none none
  | shift {j j' : Nat} : alike j j' → ActsAlike t u alike (some (.shift j)) (some (.shift j'))
  | accept : ActsAlike t u alike (some .accept) (some .accept)
  | reduce {p q : Nat} {production other : Production} :
      t.productions[p]? = some production → u.productions[q]? = some other →
        production.right.length = other.right.length →
          (∀ k k', alike k k' → Option.Rel alike (t.goto? k production.left) (u.goto? k' other.left)) →
            ActsAlike t u alike (some (.reduce p)) (some (.reduce q))

/-- Two tables act alike in states that correspond, before terminals that are known. -/
structure Lockstep (t u : Table) (kind : String → String) (known : String → Prop)
    (alike : Nat → Nat → Prop) : Prop where
  start : alike 0 0
  acts : ∀ {k k' : Nat} {s : String}, alike k k' → known s →
    ActsAlike t u alike (t.action? k s) (u.action? k' (kind s))

/-- The states on two stacks correspond. -/
def StacksAlike (alike : Nat → Nat → Prop) (stack : List (Nat × α)) (other : List (Nat × β)) : Prop :=
  List.Forall₂ (fun entry entry' => alike entry.1 entry'.1) stack other

/-- Two parsers whose stacks correspond and whose tokens are the same but for the names of their terminals. -/
inductive InStep (kind : String → String) (known : String → Prop) (alike : Nat → Nat → Prop) :
    Configuration α → Configuration β → Prop
  | of {stack : List (Nat × α)} {other : List (Nat × β)} {tokens : List Token} :
      StacksAlike alike stack other → (∀ token ∈ tokens, known token.kind) →
        InStep kind known alike ⟨stack, tokens⟩ ⟨other, tokens.map (·.rename kind)⟩

/-- The results of a step of each parser: they go on in step, both accept, or both fail. -/
inductive ResultsAlike (kind : String → String) (known : String → Prop) (alike : Nat → Nat → Prop) :
    StepResult α ε → StepResult β δ → Prop
  | next {c : Configuration α} {d : Configuration β} :
      InStep kind known alike c d → ResultsAlike kind known alike (.next c) (.next d)
  | accepted (value : α) (other : β) : ResultsAlike kind known alike (.accepted value) (.accepted other)
  | failed (cause : ParseFailure ε) (other : ParseFailure δ) :
      ResultsAlike kind known alike (.failed cause) (.failed other)

namespace Lockstep

variable {semantics : Semantics α ε} {semantics' : Semantics β δ}

/-- The states on top of stacks that correspond do so too. -/
theorem top_alike (lockstep : Lockstep t u kind known alike) {stack : List (Nat × α)} {other : List (Nat × β)}
    (levels : StacksAlike alike stack other) : alike (top stack) (top other) := by
  cases levels with
  | nil => exact lockstep.start
  | cons first _ => exact first

/-- **One step of both parsers.** -/
theorem step_alike (lockstep : Lockstep t u kind known alike) (total : semantics.Total) (total' : semantics'.Total)
    {c : Configuration α} {d : Configuration β} (inStep : InStep kind known alike c d) :
    ResultsAlike kind known alike (t.step semantics c) (u.step semantics' d) := by
  obtain ⟨levels, allKnown⟩ := inStep
  rename_i stack other tokens
  cases tokens with
  | nil => exact .failed _ _
  | cons token tokens =>
    have restKnown : ∀ token ∈ tokens, known token.kind :=
      fun token member => allKnown token (List.mem_cons_of_mem _ member)
    have acts := lockstep.acts (lockstep.top_alike levels) (allKnown token List.mem_cons_self)
    rw [List.map_cons, Table.step_eq, Table.step_eq, show (token.rename kind).kind = kind token.kind from rfl]
    generalize t.action? (top stack) token.kind = action at acts
    generalize u.action? (top other) (kind token.kind) = action' at acts
    cases acts with
    | none => exact .failed _ _
    | shift reached => exact .next (.of (.cons reached levels) restKnown)
    | accept =>
      cases levels with
      | nil => exact .failed _ _
      | cons _ _ => exact .accepted _ _
    | @reduce p q production production' found found' lengths goes =>
      dsimp only
      rw [Table.reduce_eq found, Table.reduce_eq found', ← lengths]
      obtain ⟨value, made⟩ := total p ((stack.take production.right.length).map (·.2)).reverse
      obtain ⟨value', made'⟩ := total' q ((other.take production.right.length).map (·.2)).reverse
      rw [made, made']
      dsimp only
      have below : StacksAlike alike (stack.drop production.right.length) (other.drop production.right.length) :=
        List.forall₂_drop _ levels
      have going := goes _ _ (lockstep.top_alike below)
      generalize t.goto? (top (stack.drop production.right.length)) production.left = next at going
      generalize u.goto? (top (other.drop production.right.length)) production'.left = next' at going
      cases going with
      | none => exact .failed _ _
      | @some i i' reached =>
        have inStep : InStep kind known alike ⟨(i, value) :: stack.drop production.right.length, token :: tokens⟩
            ⟨(i', value') :: other.drop production.right.length, (token :: tokens).map (·.rename kind)⟩ :=
          .of (.cons reached below) allKnown
        exact .next inStep

/-- **As many steps of both parsers**: one accepts if the other does. -/
theorem run_iff (lockstep : Lockstep t u kind known alike) (total : semantics.Total) (total' : semantics'.Total)
    (fuel : Nat) {c : Configuration α} {d : Configuration β} (inStep : InStep kind known alike c d) :
    (∃ value, t.run semantics c fuel = .ok value) ↔ ∃ value, u.run semantics' d fuel = .ok value := by
  induction fuel generalizing c d with
  | zero => simp [Table.run]
  | succ fuel ih =>
    have results := lockstep.step_alike total total' inStep
    rw [Table.run, Table.run]
    generalize t.step semantics c = result at results
    generalize u.step semantics' d = result' at results
    cases results with
    | next goesOn => exact ih goesOn
    | accepted value other => exact ⟨fun _ => ⟨other, rfl⟩, fun _ => ⟨value, rfl⟩⟩
    | failed cause other => simp

end Lockstep

/-- A parser accepts exactly if a bounded run returns a value. -/
theorem Table.accepts_iff_exists_run {semantics : Semantics α ε} {tokens : List Token} :
    t.Accepts semantics tokens ↔ ∃ fuel value, t.run semantics ⟨[], tokens⟩ fuel = .ok value := by
  constructor
  · rintro ⟨value, bound, within⟩
    exact ⟨bound, value, run_eq_of_endsWithin within⟩
  · rintro ⟨fuel, value, returned⟩
    refine ⟨value, ?_⟩
    rw [← returned]
    refine ends_of_run ?_
    rw [returned]
    simp

/-- **Both parsers accept the same rows of tokens**, but for the names of the terminals. -/
theorem Lockstep.accepts_iff (lockstep : Lockstep t u kind known alike) {semantics : Semantics α ε}
    {semantics' : Semantics β δ} (total : semantics.Total) (total' : semantics'.Total) {tokens : List Token}
    (allKnown : ∀ token ∈ tokens, known token.kind) :
    t.Accepts semantics tokens ↔ u.Accepts semantics' (tokens.map (·.rename kind)) := by
  have start : InStep kind known alike (⟨[], tokens⟩ : Configuration α)
      (⟨[], tokens.map (·.rename kind)⟩ : Configuration β) := .of .nil allKnown
  rw [Table.accepts_iff_exists_run, Table.accepts_iff_exists_run]
  exact exists_congr fun fuel => lockstep.run_iff total total' fuel start

/-- Both parsers return a value for the same rows of tokens within the bound on their steps. -/
theorem Lockstep.parse_iff (lockstep : Lockstep t u kind known alike)
    (sizes : t.nonterminals.length = u.nonterminals.length) {semantics : Semantics α ε}
    {semantics' : Semantics β δ} (total : semantics.Total) (total' : semantics'.Total) {tokens : List Token}
    (allKnown : ∀ token ∈ tokens, known token.kind) :
    (∃ value, t.parse semantics tokens = .ok value) ↔
      ∃ value, u.parse semantics' (tokens.map (·.rename kind)) = .ok value := by
  have start : InStep kind known alike (⟨[], tokens⟩ : Configuration α)
      (⟨[], tokens.map (·.rename kind)⟩ : Configuration β) := .of .nil allKnown
  unfold Table.parse Table.stepBound
  rw [← sizes, List.length_map]
  exact lockstep.run_iff total total' _ start

end XPathAnnotator.Grammar
