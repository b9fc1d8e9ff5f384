/-
**Functions that are given from outside.**

`Function.ofValues` makes a function for expressions from one on values, whose result is plain data that
must convert to a value. `Function.ofValue` and `Function.constant` are for functions of one argument and
of none; they refuse other numbers of arguments.
-/

import XPathAnnotator.Eval.Context

namespace XPathAnnotator.Function

open Evaluating

variable {m : Type → Type} [Evaluating m]

/-- The refusal of arguments by a function that has no name of its own. -/
def refuse {α : Type} : m α := fail (.wrongArguments "" "")

/-- The values of arguments. -/
def valuesOf (focus : Focus) : List (Argument m) → m (List Value)
  | [] => pure []
  | a :: rest => do return (← a.value focus) :: (← valuesOf focus rest)

/-- The function of what is made from the values of its arguments. -/
def ofValues (body : Forest → Focus → List Value → m Given) : Function m := fun f focus arguments => do
  let values ← valuesOf focus arguments
  (← body f focus values).theValue f

/-- The function of what is made from the value of its only argument. -/
def ofValue (body : Forest → Value → m Given) : Function m :=
  ofValues fun f _ values =>
    match values with
    | [value] => body f value
    | _ => refuse

/-- The function of what is made from the focus alone. -/
def ofFocus (body : Forest → Focus → m Given) : Function m :=
  ofValues fun f focus values =>
    match values with
    | [] => body f focus
    | _ => refuse

/-- The function that always gives the same. -/
def constant (given : Given) : Function m := ofFocus fun _ _ => pure given

end XPathAnnotator.Function
