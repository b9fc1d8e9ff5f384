/-
**Runs of a parser.**

A run is a row of steps from one configuration to another (`Table.Runs`), and `Table.Ends` says with which
outcome a run ends, without a bound on its length. `run_eq_of_endsWithin` and `ends_of_run` tie both to the
bounded `Table.run`, and `step_eq` and `reduce_eq` spell out what a step does.
-/

import Mathlib
import XPathAnnotator.Grammar.Parser

namespace XPathAnnotator.Grammar

variable {α ε : Type}

/-- The outcome of a step that ends the run. -/
def StepResult.outcome? : StepResult α ε → Option (Except (ParseFailure ε) α)
  | .next _ => none
  | .accepted value => some (.ok value)
  | .failed cause => some (.error cause)

theorem StepResult.outcome?_eq_some {result : StepResult α ε} {outcome : Except (ParseFailure ε) α}
    (finished : result.outcome? = some outcome) :
    result = match outcome with
      | .ok value => .accepted value
      | .error cause => .failed cause := by
  cases result with
  | next => exact absurd finished.symm (Option.some_ne_none _)
  | accepted value =>
    obtain rfl := Option.some.inj finished
    rfl
  | failed cause =>
    obtain rfl := Option.some.inj finished
    rfl

namespace Table

variable {t : Table} {semantics : Semantics α ε}

/-- A number of steps leads from one configuration to another. -/
inductive Runs (t : Table) (semantics : Semantics α ε) : Nat → Configuration α → Configuration α → Prop
  | done {c : Configuration α} : Runs t semantics 0 c c
  | step {n : Nat} {first second last : Configuration α} :
      t.step semantics first = .next second → Runs t semantics n second last →
        Runs t semantics (n + 1) first last

/-- A run ends with an outcome after at most some steps. -/
def EndsWithin (t : Table) (semantics : Semantics α ε) (bound : Nat) (c : Configuration α)
    (outcome : Except (ParseFailure ε) α) : Prop :=
  ∃ n < bound, ∃ last, t.Runs semantics n c last ∧ (t.step semantics last).outcome? = some outcome

/-- A run ends with an outcome. -/
def Ends (t : Table) (semantics : Semantics α ε) (c : Configuration α)
    (outcome : Except (ParseFailure ε) α) : Prop :=
  ∃ bound, t.EndsWithin semantics bound c outcome

namespace Runs

theorem one {first second : Configuration α} (stepped : t.step semantics first = .next second) :
    t.Runs semantics 1 first second :=
  .step stepped .done

theorem trans {m n : Nat} {first second third : Configuration α} (one : t.Runs semantics m first second)
    (other : t.Runs semantics n second third) : t.Runs semantics (m + n) first third := by
  induction one with
  | done =>
    rw [Nat.zero_add]
    exact other
  | step stepped _ ih =>
    rw [Nat.add_right_comm]
    exact .step stepped (ih other)

/-- What each step keeps, a run keeps. -/
theorem induction {P : Configuration α → Prop}
    (keeps : ∀ {c d : Configuration α}, P c → t.step semantics c = .next d → P d) {n : Nat}
    {first last : Configuration α} (runs : t.Runs semantics n first last) (start : P first) : P last := by
  induction runs with
  | done => exact start
  | step stepped _ ih => exact ih (keeps start stepped)

end Runs

/-- A run may be continued to its end. -/
theorem Ends.prepend {n : Nat} {first second : Configuration α} (runs : t.Runs semantics n first second)
    {outcome : Except (ParseFailure ε) α} (ends : t.Ends semantics second outcome) :
    t.Ends semantics first outcome := by
  obtain ⟨_, m, _, last, rest, finished⟩ := ends
  exact ⟨_, n + m, Nat.lt_succ_self _, last, runs.trans rest, finished⟩

theorem Ends.of_step {c : Configuration α} {outcome : Except (ParseFailure ε) α}
    (finished : (t.step semantics c).outcome? = some outcome) : t.Ends semantics c outcome :=
  ⟨1, 0, Nat.zero_lt_one, c, .done, finished⟩

theorem EndsWithin.of_step {c : Configuration α} {bound : Nat} {outcome : Except (ParseFailure ε) α}
    (finished : (t.step semantics c).outcome? = some outcome) :
    t.EndsWithin semantics (bound + 1) c outcome :=
  ⟨0, Nat.succ_pos _, c, .done, finished⟩

theorem EndsWithin.prepend {c d : Configuration α} {bound : Nat} {outcome : Except (ParseFailure ε) α}
    (stepped : t.step semantics c = .next d) (ends : t.EndsWithin semantics bound d outcome) :
    t.EndsWithin semantics (bound + 1) c outcome := by
  obtain ⟨n, below, last, runs, finished⟩ := ends
  exact ⟨n + 1, Nat.succ_lt_succ below, last, .step stepped runs, finished⟩

theorem EndsWithin.mono {c : Configuration α} {bound more : Nat} {outcome : Except (ParseFailure ε) α}
    (ends : t.EndsWithin semantics bound c outcome) (le : bound ≤ more) :
    t.EndsWithin semantics more c outcome := by
  obtain ⟨n, below, rest⟩ := ends
  exact ⟨n, Nat.lt_of_lt_of_le below le, rest⟩

/-! ### Bounded runs -/

/-- The bounded run gives the outcome of a run that ends within the bound. -/
theorem run_eq_of_endsWithin {c : Configuration α} {bound : Nat} {outcome : Except (ParseFailure ε) α}
    (ends : t.EndsWithin semantics bound c outcome) : t.run semantics c bound = outcome := by
  obtain ⟨n, below, last, runs, finished⟩ := ends
  induction runs generalizing bound with
  | @done c =>
    obtain ⟨bound, rfl⟩ := Nat.exists_eq_succ_of_ne_zero (Nat.ne_of_gt below)
    rw [run, StepResult.outcome?_eq_some finished]
    cases outcome <;> rfl
  | step stepped _ ih =>
    obtain ⟨bound, rfl⟩ := Nat.exists_eq_succ_of_ne_zero (Nat.ne_of_gt (Nat.zero_lt_of_lt below))
    rw [run, stepped]
    exact ih (Nat.lt_of_succ_lt_succ below) finished

/-- An outcome of the bounded run other than that the bound is reached is that of a run. -/
theorem ends_of_run {c : Configuration α} {bound : Nat}
    (within : t.run semantics c bound ≠ .error .endless) :
    t.Ends semantics c (t.run semantics c bound) := by
  induction bound generalizing c with
  | zero => exact absurd rfl within
  | succ bound ih =>
    rw [run] at within ⊢
    cases result : t.step semantics c with
    | next d =>
      rw [result] at within
      exact (ih within).prepend (.one result)
    | accepted value => exact .of_step (by rw [result]; rfl)
    | failed cause => exact .of_step (by rw [result]; rfl)

/-- A run has one outcome. -/
theorem Ends.unique {c : Configuration α} {one other : Except (ParseFailure ε) α}
    (first : t.Ends semantics c one) (second : t.Ends semantics c other) : one = other := by
  obtain ⟨m, first⟩ := first
  obtain ⟨n, second⟩ := second
  rw [← run_eq_of_endsWithin (first.mono (Nat.le_max_left m n)),
    ← run_eq_of_endsWithin (second.mono (Nat.le_max_right m n))]

/-! ### What a step does -/

/-- The state on top of a stack. -/
def top : List (Nat × α) → Nat
  | [] => 0
  | (k, _) :: _ => k

theorem state_eq (stack : List (Nat × α)) (tokens : List Token) :
    Configuration.state ⟨stack, tokens⟩ = top stack := by
  cases stack with
  | nil => rfl
  | cons entry rest => rfl

variable {stack : List (Nat × α)} {token : Token} {tokens : List Token}

/-- A step looks at the top of the stack and the next token. -/
theorem step_eq :
    t.step semantics ⟨stack, token :: tokens⟩ =
      match t.action? (top stack) token.kind with
      | none => .failed (.unexpected token)
      | some (.shift j) => .next ⟨(j, semantics.leaf token) :: stack, tokens⟩
      | some (.reduce p) => t.reduce semantics token ⟨stack, token :: tokens⟩ p
      | some .accept =>
        match stack with
        | [] => .failed .exhausted
        | (_, value) :: _ => .accepted value := by
  have topIs := state_eq stack (token :: tokens)
  unfold step
  dsimp only
  generalize Configuration.state ⟨stack, token :: tokens⟩ = k at topIs
  subst topIs
  rcases t.action? (top stack) token.kind with _ | (_ | _ | _)
  · rfl
  · rfl
  · rfl
  · cases stack with
    | nil => rfl
    | cons entry rest => rfl

/-- Applying a production backwards replaces the entries of its right side. -/
theorem reduce_eq {p : Nat} {production : Production} (found : t.productions[p]? = some production) :
    t.reduce semantics token ⟨stack, tokens⟩ p =
      match semantics.node p ((stack.take production.right.length).map (·.2)).reverse with
      | .error cause => .failed (.refused cause)
      | .ok value =>
        match t.goto? (top (stack.drop production.right.length)) production.left with
        | none => .failed (.unexpected token)
        | some j => .next ⟨(j, value) :: stack.drop production.right.length, tokens⟩ := by
  have topIs := state_eq (stack.drop production.right.length) tokens
  unfold reduce
  rw [found]
  dsimp only
  generalize Configuration.state ⟨stack.drop production.right.length, tokens⟩ = k at topIs
  subst topIs
  cases semantics.node p ((stack.take production.right.length).map (·.2)).reverse with
  | error cause => rfl
  | ok value =>
    cases t.goto? (top (stack.drop production.right.length)) production.left with
    | none => rfl
    | some j => rfl

end Table

end XPathAnnotator.Grammar
