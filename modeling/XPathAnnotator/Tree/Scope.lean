/-
**Namespaces in scope.**

The namespaces in scope of an element are those of its parent element with its own declarations added,
where an empty URI takes a qualifier out of scope (`Forest.scope`). They are remembered when they are
first read, with those of the elements around it (`Forest.rememberScope`), so later declarations do not
change them. The namespace nodes of an element are the `xml` binding and one for each other qualifier in
scope (`Forest.bindings`).
-/

import XPathAnnotator.Tree.Forest

namespace XPathAnnotator

open XPathAnnotator.Name

namespace NamespaceMap

/-- A map without a qualifier. -/
def erase (qualifier : String) (map : NamespaceMap) : NamespaceMap :=
  map.filter fun (other, _) => other != qualifier

/-- A map with declarations added in order. -/
def extend (map : NamespaceMap) (declarations : NamespaceMap) : NamespaceMap :=
  declarations.foldl (fun map (qualifier, uri) =>
    if uri.isEmpty then map.erase qualifier else Data.Datum.put qualifier uri map) map

/-- The qualifier that a map has for a URI: the first one, which for attributes must not be the default
namespace. -/
def qualifierFor (map : NamespaceMap) (uri : String) (forAttribute : Bool) : Option String :=
  if uri == xmlUri then some "xml"
  else match map.find? fun (qualifier, other) => other == uri && !(forAttribute && qualifier.isEmpty) with
    | some (qualifier, _) => if qualifier.isEmpty then none else some qualifier
    | none => none

end NamespaceMap

namespace Forest

/-- The namespaces in scope of an element, where the fuel bounds the number of elements around it. -/
def scopeWithin (f : Forest) : Nat → Nat → NamespaceMap
  | 0, _ => []
  | fuel + 1, id =>
    match f.record? id with
    | some ⟨.element data, parent, _, _, _⟩ =>
      match data.scope with
      | some scope => scope
      | none =>
        let outer : NamespaceMap := match parent with
          | some parent => f.scopeWithin fuel parent
          | none => []
        outer.extend data.declarations
    | _ => []

/-- The namespaces in scope of an element; nothing is in scope elsewhere. -/
def scope (f : Forest) (id : Nat) : NamespaceMap := f.scopeWithin (f.nodes.size + 1) id

/-- Remembers the namespaces in scope of an element and of the elements around it up to one that
remembers them already. -/
def rememberWithin (f : Forest) : Nat → Nat → Forest
  | 0, _ => f
  | fuel + 1, id =>
    match f.record? id with
    | some ⟨.element data, parent, _, _, _⟩ =>
      match data.scope with
      | some _ => f
      | none =>
        let scope := f.scope id
        let f := f.updateElement id fun data => { data with scope := some scope }
        match parent with
        | some parent => f.rememberWithin fuel parent
        | none => f
    | _ => f

/-- Remembers the namespaces in scope of an element and of those around it. -/
def rememberScope (f : Forest) (id : Nat) : Forest := f.rememberWithin (f.nodes.size + 1) id

/-- The URI that a qualifier has on an element. -/
def lookupNamespace (f : Forest) (id : Nat) (qualifier : String) : Option String :=
  if qualifier == "xml" then some xmlUri else (f.scope id).lookup qualifier

/-- The qualifiers and URIs of the namespace nodes of an element. -/
def bindings (f : Forest) (id : Nat) : NamespaceMap :=
  match f.element? id with
  | none => []
  | some _ => ("xml", xmlUri) :: (f.scope id).erase "xml"

end Forest

end XPathAnnotator
