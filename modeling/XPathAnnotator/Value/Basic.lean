/-
**Values of XPath.**

An expression evaluates to a node-set, a text, a number or a truth value. Each value converts to a text, a
number and a truth value; only a node-set is a node-set. The string value of a node-set is that of its
first node in document order.

Variables and custom functions give their values as plain data (`Given`), with nodes, values and opaque
objects among them. Texts, truth values and numbers become values of their types, a node or a list of
nodes becomes a node-set, and nothing becomes the empty one; nothing else can be converted.
-/

import XPathAnnotator.Data.Datum
import XPathAnnotator.NodeSet.Basic
import XPathAnnotator.Number.Arithmetic

namespace XPathAnnotator

/-- What an expression evaluates to. -/
inductive Value where
  | nodes (set : NodeSet)
  | text (value : String)
  | number (value : Float)
  | truth (value : Bool)
deriving Inhabited

namespace Value

/-- The name of the type of a value. -/
def typeName : Value → String
  | nodes _ => "node-set"
  | text _ => "string"
  | number _ => "number"
  | truth _ => "boolean"

/-- The text that a value converts to. -/
def toText (f : Forest) : Value → String
  | nodes set => set.stringValue f
  | text value => value
  | number value => Number.toText value
  | truth value => if value then "true" else "false"

/-- The number that a value converts to. -/
def toNumber (f : Forest) : Value → Float
  | nodes set => Number.ofText (set.stringValue f)
  | text value => Number.ofText value
  | number value => value
  | truth value => if value then 1.0 else 0.0

/-- The truth value that a value converts to: a node-set must have a node, a text a character, and a
number must be neither zero nor undefined. -/
def toTruth : Value → Bool
  | nodes set => set.size != 0
  | text value => !value.isEmpty
  | number value => !value.isNaN && value != 0
  | truth value => value

/-- The node-set of a value. -/
def nodes? : Value → Option NodeSet
  | nodes set => some set
  | _ => none

/-- The form of a value in messages. -/
def shown (f : Forest) : Value → String
  | nodes set => set.shown f
  | text value => "XString(" ++ Text.quoted value ++ ")"
  | number value => "XNumber(" ++ Number.shown value ++ ")"
  | truth value => "XBoolean(" ++ Data.Datum.shownTruth value ++ ")"

end Value

/-! ### Values from plain data -/

open XPathAnnotator.Data

/-- What may stand among plain data: nodes, values, and objects known by their form in messages alone. -/
inductive Foreign where
  | node (node : Node)
  | value (value : Value)
  | object (shown : String)

/-- Plain data with nodes and values among them. -/
abbrev Given := Datum Foreign

/-- Why plain data cannot be converted to a value. -/
inductive ConversionError where
  /-- The data are neither simple nor nodes. -/
  | notConvertible (shown : String)
  /-- An integer is beyond the largest number. -/
  | tooLarge

namespace Given

/-- The form of given data in messages. -/
def shown (f : Forest) (given : Given) : String :=
  Datum.shown (fun
    | .node node => f.shown node
    | .value value => value.shown f
    | .object shown => shown) given

/-- The node that a datum is. -/
def node? : Given → Option Node
  | .foreign (.node node) => some node
  | _ => none

/-- The value that given data convert to. -/
def toValue (f : Forest) (given : Given) : Except ConversionError Value :=
  match given with
  | .null => .ok (.nodes .empty)
  | .truth value => .ok (.truth value)
  | .integer value =>
    match Number.ofInt? value with
    | some x => .ok (.number x)
    | none => .error .tooLarge
  | .number value => .ok (.number value)
  | .text value => .ok (.text value)
  | .foreign (.value value) => .ok value
  | .foreign (.node node) => .ok (.nodes (.ofList [node]))
  | .list items =>
    match items.mapM node? with
    | some nodes => .ok (.nodes (.ofList nodes))
    | none => .error (.notConvertible (shown f given))
  | .mapping [] => .ok (.nodes .empty)
  | _ => .error (.notConvertible (shown f given))

end Given

end XPathAnnotator
