/-
**Options of an evaluation.**

Namespaces, functions and variables are given as tables, or as lookups of their own kind. Functions that
are not given are the core functions, and qualifiers that are not given are those in scope, unless the
lookup of namespaces stands alone. Names in a namespace have their expanded form as key.

* `Options.environment` — the environment that options make on a forest;
* `Focus.start` — the focus that an evaluation starts with.
-/

import XPathAnnotator.Eval.CoreFunction
import XPathAnnotator.Eval.Expr

namespace XPathAnnotator

/-- How the things of a kind are looked up by name. -/
inductive Lookup (α : Type) where
  /-- Nothing is given. -/
  | absent
  /-- What is given comes before what there is without it. -/
  | table (entries : List (String × α))
  /-- What is given is all there is. -/
  | alone (entries : List (String × α))
  /-- What is given is no lookup. -/
  | invalid (shown : String)

namespace Lookup

variable {α : Type}

/-- What is found under a key. -/
def find? (lookup : Lookup α) (key : String) : Option α :=
  match lookup with
  | table entries | alone entries => entries.lookup key
  | _ => none

/-- Whether what there is without the lookup is found too. -/
def fallsBack : Lookup α → Bool
  | alone _ => false
  | _ => true

end Lookup

/-- Why options cannot be used. -/
inductive OptionError where
  /-- There are options of other names. -/
  | unknown (names : List String)
  /-- The virtual root is not in the tree of the context node. -/
  | foreignRoot (shown : String)
  /-- The value of an option is no lookup. -/
  | invalid (option shown : String)

/-- The wording of an error of options. -/
def OptionError.message : OptionError → String
  | unknown names =>
    "unknown evaluation options: " ++ String.intercalate ", " (names.mergeSort (· ≤ ·))
  | foreignRoot shown => "virtual root " ++ shown ++ " is not in the tree of the context node"
  | invalid option shown => "invalid " ++ option ++ " option " ++ shown

/-- A virtual root: a node, or something that stands in no tree. -/
inductive VirtualRoot where
  | within (node : Node)
  | foreign (shown : String)

/-- The options of an evaluation. -/
structure Options (m : Type → Type) where
  namespaces : Lookup String := .absent
  functions : Lookup (Function m) := .absent
  variableValues : Lookup Given := .absent
  ignoresCase : Bool := false
  anyNamespace : Bool := false
  html : Bool := false
  virtualRoot : Option VirtualRoot := none
  /-- The names of options that there are not. -/
  others : List String := []

/-- The focus that an evaluation starts with: a node alone, or no node. -/
def Focus.start (node : Option Node) : Focus := ⟨node, 1, 1⟩

variable {m : Type → Type} [Evaluating m]

/-- The function that a name stands for: a given one, or the core function of a name without URI. -/
def resolveFunction? (given : Lookup (Function m)) (localName uri : String) : Option (Function m) :=
  match given.find? (Name.expanded uri localName) with
  | some function => some function
  | none =>
    if uri.isEmpty then (CoreFunction.ofTitle? localName).map CoreFunction.call else none

namespace Options

/-- Fails if a lookup is none. -/
def check {α : Type} (option : String) : Lookup α → Except OptionError Unit
  | .invalid shown => .error (.invalid option shown)
  | _ => .ok ()

/-- The environment that options make on a forest. -/
def environment (options : Options m) (f : Forest) : Except OptionError (Environment m) := do
  unless options.others.isEmpty do throw (.unknown options.others)
  let virtualRoot ← match options.virtualRoot with
    | some (.within node) => pure (some node)
    | some (.foreign shown) => throw (.foreignRoot shown)
    | none => pure none
  check "namespaces" options.namespaces
  check "functions" options.functions
  check "variables" options.variableValues
  return {
    forest := f
    givenUri? := options.namespaces.find?
    usesScope := options.namespaces.fallsBack
    functionNamed? := resolveFunction? options.functions
    variableNamed? := fun localName uri =>
      match options.variableValues.find? (Name.expanded uri localName) with
      | some .null => none
      | found => found
    ignoresCase := options.ignoresCase
    anyNamespace := options.anyNamespace
    html := options.html
    virtualRoot := virtualRoot }

end Options

end XPathAnnotator
