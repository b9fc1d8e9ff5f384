/-
**What an evaluation may return.**

Expressions can be evaluated in any monad that can fail. Of such a monad only one thing matters here: which
values an evaluation may return. A sequence returns what its last part returns on something that the first part
returns, and a failure returns nothing.

* `exists_of_bind_eq_ok`, `ok_get_toOption` — sequences that have a result, and the results of what has one;
* `Observing` — monads of which that is known, with `Except EvalError` and `Remembering` as instances;
* `sublist_of_select`, `sublist_of_keepAll` — node tests and predicates only leave out nodes;
* `Plain` — evaluations that return no node-set; `CoreFunction.plain_call` — all calls but those of `id`.
-/

import Mathlib
import XPathAnnotator.Eval.Options

namespace XPathAnnotator

open Evaluating

/-- The parts of a sequence that has a result. -/
theorem exists_of_bind_eq_ok {ε α β : Type} {x : Except ε α} {next : α → Except ε β} {b : β}
    (result : x >>= next = .ok b) : ∃ a, x = .ok a ∧ next a = .ok b := by
  cases x with
  | error e => cases result
  | ok a => exact ⟨a, rfl, result⟩

theorem ok_get_toOption {ε α : Type} {x : Except ε α} (some : x.toOption.isSome = true) :
    x = .ok (x.toOption.get some) := by
  cases x with
  | error e => cases some
  | ok a => rfl

/-- A monad of evaluations of which it is known what they may return. -/
class Observing (m : Type → Type) [Evaluating m] where
  /-- Whether an evaluation may return a value. -/
  Returns : {α : Type} → m α → α → Prop
  of_pure : ∀ {α : Type} {a b : α}, Returns (pure a : m α) b → b = a
  of_bind : ∀ {α β : Type} {x : m α} {next : α → m β} {b : β}, Returns (x >>= next) b →
    ∃ a, Returns x a ∧ Returns (next a) b
  of_fail : ∀ {α : Type} {error : EvalError} {a : α}, ¬ Returns (fail error : m α) a

open Observing

instance : Observing (Except EvalError) where
  Returns x a := x = .ok a
  of_pure same := (Except.ok.inj same).symm
  of_bind := exists_of_bind_eq_ok
  of_fail same := by cases same

/-- A sequence goes on where its first part has ended, unless that failed. -/
theorem run_bind_remembering {α β : Type} (x : Remembering α) (next : α → Remembering β) (f : Forest) :
    (x >>= next).run.run f = match x.run.run f with
      | (.ok a, g) => (next a).run.run g
      | (.error e, g) => (.error e, g) := by
  have unfolded : (x >>= next).run.run f =
      (ExceptT.bindCont next (x.run.run f).1 : StateM Forest _).run (x.run.run f).2 := rfl
  rw [unfolded]
  rcases x.run.run f with ⟨_ | a, g⟩
  · rfl
  · rfl

instance : Observing Remembering where
  Returns x a := ∃ f g, x.run.run f = (.ok a, g)
  of_pure := by
    rintro α a b ⟨f, g, same⟩
    exact (Except.ok.inj (Prod.mk.inj same).1).symm
  of_bind := by
    rintro α β x next b ⟨f, g, same⟩
    rw [run_bind_remembering] at same
    split at same
    next a g' first => exact ⟨a, ⟨f, g', first⟩, g', g, same⟩
    next => cases same
  of_fail := by
    rintro α error a ⟨f, g, same⟩
    cases same

variable {m : Type → Type} [Evaluating m] [Observing m]

/-! ### Leaving out nodes -/

theorem sublist_of_select {env : Environment m} {kind : NodeKind} {test : NodeTest} {start : Node}
    {nodes passed : List Node} (selected : Returns (env.select kind test start nodes) passed) :
    passed.Sublist nodes := by
  induction nodes generalizing passed with
  | nil =>
    rw [Environment.select] at selected
    obtain rfl := of_pure selected
    exact List.Sublist.refl _
  | cons n nodes ih =>
    rw [Environment.select] at selected
    obtain ⟨accepted, -, selected⟩ := of_bind selected
    split at selected
    · obtain ⟨rest, chosen, selected⟩ := of_bind selected
      rw [of_pure selected]
      exact (ih chosen).cons_cons n
    · exact (ih selected).cons n

theorem sublist_of_keepFrom {keeps : Node → Int → m Bool} {position : Int} {nodes kept : List Node}
    (selected : Returns (keepFrom keeps position nodes) kept) : kept.Sublist nodes := by
  induction nodes generalizing position kept with
  | nil =>
    rw [keepFrom] at selected
    obtain rfl := of_pure selected
    exact List.Sublist.refl _
  | cons n nodes ih =>
    rw [keepFrom] at selected
    obtain ⟨keep, -, selected⟩ := of_bind selected
    split at selected
    · obtain ⟨rest, chosen, selected⟩ := of_bind selected
      rw [of_pure selected]
      exact (ih chosen).cons_cons n
    · exact (ih selected).cons n

theorem sublist_of_keepAll {env : Environment m} {predicates : List Expr} {nodes kept : List Node}
    (selected : Returns (Expr.keepAll env predicates nodes) kept) : kept.Sublist nodes := by
  induction predicates generalizing nodes with
  | nil =>
    rw [Expr.keepAll] at selected
    obtain rfl := of_pure selected
    exact List.Sublist.refl _
  | cons predicate predicates ih =>
    rw [Expr.keepAll] at selected
    obtain ⟨first, chosen, selected⟩ := of_bind selected
    exact (ih selected).trans (sublist_of_keepFrom chosen)

/-! ### Values that are no node-sets -/

/-- Whether an evaluation never returns a node-set. -/
def Plain (x : m Value) : Prop := ∀ s, ¬ Returns x (.nodes s)

theorem plain_pure {value : Value} (plain : value.nodes? = none) : Plain (pure value : m Value) := by
  intro s returned
  rw [← of_pure returned] at plain
  exact absurd plain (Option.some_ne_none s)

theorem plain_bind {α : Type} {x : m α} {next : α → m Value} (plain : ∀ a, Plain (next a)) :
    Plain (x >>= next) := by
  intro s returned
  obtain ⟨a, -, returned⟩ := of_bind returned
  exact plain a s returned

theorem plain_refuse (function : CoreFunction) : Plain (function.refuse : m Value) :=
  fun _ returned => of_fail returned

/-- The value of an operation with two values is no node-set, but for the union. -/
theorem nodes?_apply (f : Forest) {operator : Operator} (other : operator ≠ .union) (left right : Value) :
    (operator.apply f left right).nodes? = none := by
  cases operator <;> first | rfl | exact absurd rfl other

/-- **Only `id` gives a node-set**: every call of another core function returns a text, a number or a truth
value. -/
theorem CoreFunction.plain_call {function : CoreFunction} (other : function ≠ .id) (f : Forest) (focus : Focus)
    (arguments : List (Argument m)) : Plain (function.call f focus arguments) := by
  unfold CoreFunction.call
  split
  all_goals
    first
    | exact absurd rfl other
    | exact plain_refuse _
    | repeat
        first
        | exact plain_pure rfl
        | refine plain_bind fun _ => ?_

end XPathAnnotator
