/-
**Properties of all parts of an expression.**

`Expr.Everywhere` says that a property holds of an expression and of all expressions within it, and another one
of all node tests in it. Two such properties make up what printing and parsing rest on:

* `Expr.Made`, `NodeTest.Made` — what the parser makes sure of: names are names, numbers are not below zero,
  a literal can stand between quotes, no path and no filter expression is empty;
* `Expr.Legible`, `NodeTest.Legible` — what it takes for a printed expression to mean the same when it is read.
-/

import Mathlib
import XPathAnnotator.Expr.Printer
import XPathAnnotator.Proofs.Number.Numerals
import XPathAnnotator.Proofs.Number.Signs
import XPathAnnotator.Proofs.Token.Names

namespace XPathAnnotator

open XPathAnnotator.Name

mutual

/-- A property of an expression and all expressions within it, with a property of all node tests in it. -/
def Expr.Everywhere (P : Expr → Prop) (Q : NodeTest → Prop) : Expr → Prop
  | .text value => P (.text value)
  | .number value => P (.number value)
  | .negate operand => P (.negate operand) ∧ operand.Everywhere P Q
  | .binary operator left right =>
    P (.binary operator left right) ∧ left.Everywhere P Q ∧ right.Everywhere P Q
  | .path absolute steps => P (.path absolute steps) ∧ Step.AllEverywhere P Q steps
  | .filter base predicates steps =>
    P (.filter base predicates steps) ∧ base.Everywhere P Q ∧ Expr.AllEverywhere P Q predicates ∧
      Step.AllEverywhere P Q steps
  | .call function arguments => P (.call function arguments) ∧ Expr.AllEverywhere P Q arguments
  | .reference variableName => P (.reference variableName)

/-- The same of all expressions of a list. -/
def Expr.AllEverywhere (P : Expr → Prop) (Q : NodeTest → Prop) : List Expr → Prop
  | [] => True
  | e :: es => e.Everywhere P Q ∧ Expr.AllEverywhere P Q es

/-- The same of a step. -/
def Step.Everywhere (P : Expr → Prop) (Q : NodeTest → Prop) : Step → Prop
  | .mk _ test predicates => Q test ∧ Expr.AllEverywhere P Q predicates

/-- The same of all steps of a list. -/
def Step.AllEverywhere (P : Expr → Prop) (Q : NodeTest → Prop) : List Step → Prop
  | [] => True
  | step :: steps => step.Everywhere P Q ∧ Step.AllEverywhere P Q steps

end

section Everywhere

variable {P P' R : Expr → Prop} {Q Q' S : NodeTest → Prop}

theorem Expr.Everywhere.self {e : Expr} (everywhere : e.Everywhere P Q) : P e := by
  cases e <;> unfold Expr.Everywhere at everywhere
  case text | number | reference => exact everywhere
  all_goals exact everywhere.1

theorem Expr.allEverywhere_iff {es : List Expr} :
    Expr.AllEverywhere P Q es ↔ ∀ e ∈ es, e.Everywhere P Q := by
  induction es with
  | nil => simp [Expr.AllEverywhere]
  | cons e es ih => rw [Expr.AllEverywhere, ih, List.forall_mem_cons]

theorem Step.allEverywhere_iff {steps : List Step} :
    Step.AllEverywhere P Q steps ↔ ∀ step ∈ steps, step.Everywhere P Q := by
  induction steps with
  | nil => simp [Step.AllEverywhere]
  | cons step steps ih => rw [Step.AllEverywhere, ih, List.forall_mem_cons]

theorem Step.everywhere_iff {axis : Axis} {test : NodeTest} {predicates : List Expr} :
    (Step.mk axis test predicates).Everywhere P Q ↔ Q test ∧ ∀ e ∈ predicates, e.Everywhere P Q := by
  rw [Step.Everywhere, Expr.allEverywhere_iff]

mutual

/-- What follows from two properties holds everywhere if they do. -/
theorem Expr.Everywhere.combine (e : Expr) (follows : ∀ e, P e → P' e → R e) (tests : ∀ test, Q test → Q' test → S test)
    (one : e.Everywhere P Q) (other : e.Everywhere P' Q') : e.Everywhere R S := by
  match e with
  | .text _ | .number _ | .reference _ => exact follows _ one.self other.self
  | .negate operand =>
    unfold Expr.Everywhere at *
    exact ⟨follows _ one.1 other.1, Expr.Everywhere.combine operand follows tests one.2 other.2⟩
  | .binary _ left right =>
    unfold Expr.Everywhere at *
    exact ⟨follows _ one.1 other.1, Expr.Everywhere.combine left follows tests one.2.1 other.2.1,
      Expr.Everywhere.combine right follows tests one.2.2 other.2.2⟩
  | .path _ steps =>
    unfold Expr.Everywhere at *
    exact ⟨follows _ one.1 other.1, Step.allEverywhere_combine steps follows tests one.2 other.2⟩
  | .filter base predicates steps =>
    unfold Expr.Everywhere at *
    exact ⟨follows _ one.1 other.1, Expr.Everywhere.combine base follows tests one.2.1 other.2.1,
      Expr.allEverywhere_combine predicates follows tests one.2.2.1 other.2.2.1,
      Step.allEverywhere_combine steps follows tests one.2.2.2 other.2.2.2⟩
  | .call _ arguments =>
    unfold Expr.Everywhere at *
    exact ⟨follows _ one.1 other.1, Expr.allEverywhere_combine arguments follows tests one.2 other.2⟩

theorem Expr.allEverywhere_combine (es : List Expr) (follows : ∀ e, P e → P' e → R e)
    (tests : ∀ test, Q test → Q' test → S test) (one : Expr.AllEverywhere P Q es)
    (other : Expr.AllEverywhere P' Q' es) : Expr.AllEverywhere R S es := by
  match es with
  | [] => trivial
  | e :: es =>
    unfold Expr.AllEverywhere at *
    exact ⟨Expr.Everywhere.combine e follows tests one.1 other.1,
      Expr.allEverywhere_combine es follows tests one.2 other.2⟩

theorem Step.allEverywhere_combine (steps : List Step) (follows : ∀ e, P e → P' e → R e)
    (tests : ∀ test, Q test → Q' test → S test) (one : Step.AllEverywhere P Q steps)
    (other : Step.AllEverywhere P' Q' steps) : Step.AllEverywhere R S steps := by
  match steps with
  | [] => trivial
  | .mk _ _ predicates :: steps =>
    unfold Step.AllEverywhere Step.Everywhere at *
    exact ⟨⟨tests _ one.1.1 other.1.1, Expr.allEverywhere_combine predicates follows tests one.1.2 other.1.2⟩,
      Step.allEverywhere_combine steps follows tests one.2 other.2⟩

end

/-- Two properties hold everywhere if each of them does. -/
theorem Expr.Everywhere.and {e : Expr} (one : e.Everywhere P Q) (other : e.Everywhere P' Q') :
    e.Everywhere (fun e => P e ∧ P' e) (fun test => Q test ∧ Q' test) :=
  Expr.Everywhere.combine e (fun _ => And.intro) (fun _ => And.intro) one other

theorem Expr.Everywhere.mono {e : Expr} (everywhere : e.Everywhere P Q) (follows : ∀ e, P e → R e)
    (tests : ∀ test, Q test → S test) : e.Everywhere R S :=
  Expr.Everywhere.combine e (fun e holds _ => follows e holds) (fun test holds _ => tests test holds) everywhere
    everywhere

end Everywhere

/-! ### What the parser makes sure of -/

/-- A filter expression without steps. -/
def Expr.IsBareFilter : Expr → Prop
  | .filter _ _ [] => True
  | _ => False

/-- The shape of an expression, apart from those within it: a path that does not begin at the root has a step, and
a filter expression has a predicate or a step, and is not put around one without steps. -/
def Expr.Shaped : Expr → Prop
  | .path absolute steps => absolute = true ∨ steps ≠ []
  | .filter base predicates steps => (predicates ≠ [] ∨ steps ≠ []) ∧ ¬ base.IsBareFilter
  | _ => True

/-- What the parser makes sure of for an expression, apart from those within it. -/
def Expr.Made : Expr → Prop
  | .text value => '"' ∉ value.toList ∨ '\'' ∉ value.toList
  | .number value => Number.Unsigned value
  | .call function _ => function.Proper ∧ function.text ∉ Token.nodeTypes
  | .reference variableName => variableName.Proper ∨ variableName.Starred
  | e => e.Shaped

theorem Expr.Made.shaped {e : Expr} (made : e.Made) : e.Shaped := by
  cases e
  case text | number | call | reference => trivial
  all_goals exact made

/-- What the parser makes sure of for a node test. -/
def NodeTest.Made : NodeTest → Prop
  | .anyNameIn qualifier => Token.isNCName qualifier = true
  | .name written => written.Proper
  | _ => True

/-! ### What printing needs -/

/-- An expression that is a unary minus. -/
def Expr.IsNegation : Expr → Prop
  | .negate _ => True
  | _ => False

/-- An expression that is a location path, or has predicates or steps after another expression. -/
def Expr.IsPath : Expr → Prop
  | .path _ _ => True
  | .filter _ _ _ => True
  | _ => False

/-- The path of the root alone. -/
def Expr.IsRoot : Expr → Prop
  | .path true [] => True
  | _ => False

/-- The path of the root alone, or a unary minus of it, or of that, and so on. -/
def Expr.EndsAtRoot : Expr → Prop
  | .path true [] => True
  | .negate operand => operand.EndsAtRoot
  | _ => False

/-- An operator that is written like a name test, and is read as an operator only after an operand. -/
def Operator.LooksLikeName : Operator → Prop
  | .or | .and | .div | .mod | .multiply => True
  | _ => False

/-- What it takes for an expression to be read back, apart from those within it, where some expressions are
barred from the left of the operators that look like names. -/
def Expr.Legible (barred : Expr → Prop) : Expr → Prop
  | .number value => Number.ReadsBack value
  | .binary operator left right =>
    (operator = .union → ¬ left.IsNegation ∧ ¬ right.IsNegation) ∧ (operator.LooksLikeName → ¬ barred left)
  | .filter base _ _ => ¬ base.IsNegation ∧ ¬ base.IsPath
  | _ => True

/-- What it takes for a node test to be read back. -/
def NodeTest.Legible : NodeTest → Prop
  | .instruction (some target) => '"' ∉ target.toList
  | _ => True

/-- An expression as the parser makes it, that is read back from its written form. -/
abbrev Expr.Printable (barred : Expr → Prop) (e : Expr) : Prop :=
  e.Everywhere (fun e => e.Made ∧ e.Legible barred) fun test => test.Made ∧ test.Legible

end XPathAnnotator
