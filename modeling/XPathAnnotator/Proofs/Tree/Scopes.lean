/-
**Scopes of converted elements.**

The namespaces in scope of an element are those around it with its own declarations. So a qualifier has the URI of its
nearest declaration, and none if that is empty. A document resolves its names by the same declarations, and for a URI
other than the empty one there is a qualifier in scope where one was written: the qualifier that a converted name gets,
the first one for its URI, leads back to this URI.

* `nearest?`, `NamespaceMap.uri?` — the nearest declaration of a qualifier, and the URI of one in scope;
* `lookup_extend`, `mem_extend` — declarations added to a scope;
* `Surrounding` — the bindings of the reader, the scope of the conversion and the declarations on the way to the root
  agree, and `Surrounding.extend`: a start tag keeps this;
* `Surrounding.scoped` — the names of an element in scope;
* `scoped_toTree` — **all elements of a converted document are scoped**.
-/

import Mathlib
import XPathAnnotator.Proofs.Tree.Conversion
import XPathAnnotator.Proofs.Xml.Resolution

namespace XPathAnnotator

open XPathAnnotator.Name XPathAnnotator.Xml

/-- The URI that is declared for a qualifier nearest, where the declarations of an element come before those of the
elements around it. -/
def nearest? (lineage : List NamespaceMap) (qualifier : String) : Option String :=
  lineage.findSome? fun declarations => declarations.lookup qualifier

/-- An empty URI is none. -/
def filled? (uri : Option String) : Option String := uri.filter fun uri => !uri.isEmpty

theorem filled?_eq_some {uri? : Option String} {uri : String} :
    filled? uri? = some uri ↔ uri? = some uri ∧ uri ≠ "" := by
  simp [filled?, Option.filter_eq_some_iff]

theorem getD_filled? (uri? : Option String) : (filled? uri?).getD "" = uri?.getD "" := by
  cases uri? with
  | none => rfl
  | some uri =>
    by_cases empty : uri = ""
    · subst empty
      rfl
    · rw [filled?_eq_some.mpr ⟨rfl, empty⟩]

namespace NamespaceMap

variable {scope declarations : NamespaceMap} {qualifier uri : String}

/-- The URI of a qualifier in scope. -/
def uri? (scope : NamespaceMap) (qualifier : String) : Option String :=
  if qualifier == "xml" then some xmlUri else scope.lookup qualifier

/-! ### Declarations added to a scope -/

theorem lookup_erase (gone : String) :
    (scope.erase gone).lookup qualifier = if qualifier = gone then none else scope.lookup qualifier :=
  lookup_filter_ne gone scope

theorem extend_cons (declaration : String × String) : scope.extend (declaration :: declarations) =
    (if declaration.2.isEmpty then scope.erase declaration.1
      else Data.Datum.put declaration.1 declaration.2 scope).extend declarations := rfl

/-- **A declaration hides those around it**, and an empty one leaves nothing. -/
theorem lookup_extend (distinct : HasDistinctKeys declarations) : (scope.extend declarations).lookup qualifier =
    match declarations.lookup qualifier with
    | some uri => filled? (some uri)
    | none => scope.lookup qualifier := by
  induction declarations generalizing scope with
  | nil => rfl
  | cons declaration declarations ih =>
    obtain ⟨declared, uri⟩ := declaration
    obtain ⟨apart, distinct⟩ := List.nodup_cons.mp distinct
    rw [extend_cons, ih distinct, List.lookup_cons]
    by_cases same : qualifier = declared
    · subst same
      have once : declarations.lookup qualifier = none := by
        refine List.lookup_eq_none_iff.mpr fun entry member => bne_iff_ne.mpr ?_
        rintro rfl
        exact apart (List.mem_map.mpr ⟨entry, member, rfl⟩)
      rw [once, beq_self_eq_true]
      dsimp only
      split
      · rename_i empty
        rw [lookup_erase, if_pos rfl, filled?, Option.filter_some, empty]
        rfl
      · rename_i full
        rw [lookup_put, if_pos rfl, filled?, Option.filter_some, Bool.eq_false_iff.mpr full]
        rfl
    · rw [beq_false_of_ne same]
      dsimp only
      cases declarations.lookup qualifier with
      | some later => rfl
      | none =>
        dsimp only
        split
        · rw [lookup_erase, if_neg same]
        · rw [lookup_put, if_neg same]

theorem mem_extend {entry : String × String} (member : entry ∈ scope.extend declarations) :
    entry ∈ scope ∨ entry ∈ declarations ∧ entry.2 ≠ "" := by
  induction declarations generalizing scope with
  | nil => exact .inl member
  | cons declaration declarations ih =>
    rw [extend_cons] at member
    rcases ih member with before | ⟨later, full⟩
    · split at before
      · exact .inl (List.mem_of_mem_filter before)
      · rename_i full
        rcases mem_put before with rfl | before
        · exact .inr ⟨List.mem_cons_self, fun same => full (String.isEmpty_iff.mpr same)⟩
        · exact .inl before
    · exact .inr ⟨List.mem_cons_of_mem _ later, full⟩

theorem distinct_extend (distinct : HasDistinctKeys scope) : HasDistinctKeys (scope.extend declarations) := by
  induction declarations generalizing scope with
  | nil => exact distinct
  | cons declaration declarations ih =>
    rw [extend_cons]
    refine ih ?_
    split
    · exact List.Nodup.sublist (List.filter_sublist.map _) distinct
    · exact nodup_put distinct

/-! ### Sound scopes -/

/-- A scope that comes from allowed declarations. -/
structure Sound (scope : NamespaceMap) : Prop where
  distinct : HasDistinctKeys scope
  full : ∀ entry ∈ scope, entry.2 ≠ ""
  reserved : ∀ uri, ("xml", uri) ∈ scope → uri = xmlUri

theorem uri_of_allowed (allowed : isAllowedDeclaration "xml" uri = true) : uri = xmlUri := by
  simpa [isAllowedDeclaration] using allowed

theorem qualifier_of_allowed (allowed : isAllowedDeclaration qualifier xmlUri = true) : qualifier = "xml" := by
  unfold isAllowedDeclaration at allowed
  split at allowed
  · cases allowed
  split at allowed
  · rename_i isXml
    exact beq_iff_eq.mp isXml
  · simp at allowed

theorem full_of_allowed (allowed : isAllowedDeclaration qualifier uri = true) (named : qualifier ≠ "") : uri ≠ "" := by
  rintro rfl
  unfold isAllowedDeclaration at allowed
  split at allowed
  · cases allowed
  split at allowed
  · exact absurd (beq_iff_eq.mp allowed) (by decide)
  · simp [named] at allowed

theorem Sound.extend (sound : scope.Sound)
    (allowed : ∀ declaration ∈ declarations, isAllowedDeclaration declaration.1 declaration.2 = true) :
    (scope.extend declarations).Sound where
  distinct := distinct_extend sound.distinct
  full entry member := (mem_extend member).elim (sound.full entry) And.right
  reserved uri member := (mem_extend member).elim (sound.reserved uri) fun declared =>
    uri_of_allowed (allowed _ declared.1)

theorem Sound.uri?_of_mem (sound : scope.Sound) (member : (qualifier, uri) ∈ scope) :
    scope.uri? qualifier = some uri := by
  unfold uri?
  split
  · rename_i isXml
    rw [beq_iff_eq] at isXml
    subst isXml
    rw [sound.reserved uri member]
  · exact lookup_of_mem sound.distinct member

/-! ### Qualifiers for URIs -/

theorem qualifierFor_of_ne (other : uri ≠ xmlUri) (forAttribute : Bool) : scope.qualifierFor uri forAttribute =
    match scope.find? fun (qualifier, other) => other == uri && !(forAttribute && qualifier.isEmpty) with
    | some (qualifier, _) => if qualifier.isEmpty then none else some qualifier
    | none => none := by
  rw [qualifierFor, beq_false_of_ne other]
  rfl

/-- **A qualifier for a URI leads back to it.** -/
theorem Sound.uri?_of_qualifierFor (sound : scope.Sound) {forAttribute : Bool}
    (found : scope.qualifierFor uri forAttribute = some qualifier) : scope.uri? qualifier = some uri := by
  by_cases isXml : uri = xmlUri
  · subst isXml
    obtain rfl : "xml" = qualifier := by simpa [qualifierFor] using found
    rfl
  · rw [qualifierFor_of_ne isXml] at found
    split at found
    · rename_i first other here
      split at found
      · cases found
      · obtain rfl := Option.some.inj found
        have holds := List.find?_some here
        rw [Bool.and_eq_true, beq_iff_eq] at holds
        obtain rfl := holds.1
        exact sound.uri?_of_mem (List.mem_of_find?_eq_some here)
    · cases found

/-- The qualifier for a URI is the empty one, or there is none. -/
theorem of_qualifierFor_eq_none (missing : scope.qualifierFor uri false = none) :
    uri ≠ xmlUri ∧ (("", uri) ∈ scope ∨ ∀ qualifier, (qualifier, uri) ∉ scope) := by
  have other : uri ≠ xmlUri := by
    rintro rfl
    simp [qualifierFor] at missing
  refine ⟨other, ?_⟩
  rw [qualifierFor_of_ne other] at missing
  split at missing
  · rename_i first found here
    split at missing
    · rename_i empty
      have holds := List.find?_some here
      rw [Bool.and_eq_true, beq_iff_eq] at holds
      obtain rfl := holds.1
      rw [String.isEmpty_iff] at empty
      subst empty
      exact .inl (List.mem_of_find?_eq_some here)
    · cases missing
  · rename_i none
    refine .inr fun qualifier member => ?_
    exact absurd (List.find?_eq_none.mp none _ member) (by simp)

/-- For an attribute there is no qualifier only if there is none but the empty one. -/
theorem of_qualifierFor_attribute_eq_none (missing : scope.qualifierFor uri true = none) :
    uri ≠ xmlUri ∧ ∀ qualifier, (qualifier, uri) ∈ scope → qualifier = "" := by
  have other : uri ≠ xmlUri := by
    rintro rfl
    simp [qualifierFor] at missing
  refine ⟨other, fun qualifier member => ?_⟩
  rw [qualifierFor_of_ne other] at missing
  split at missing
  · rename_i first found here
    split at missing
    · rename_i empty
      exact absurd (List.find?_some here) (by simp [empty])
    · cases missing
  · rename_i none
    have holds := List.find?_eq_none.mp none _ member
    simpa using holds

end NamespaceMap

/-! ### Elements in scope -/

/-- **The names of an element are resolved by its scope**, and its scope by the nearest declarations. -/
structure Scoped (lineage : List NamespaceMap) (scope : NamespaceMap) (name : NodeName)
    (attributes : List (NodeName × String)) : Prop where
  nearest : ∀ qualifier, qualifier ≠ "xml" → scope.lookup qualifier = filled? (nearest? lineage qualifier)
  distinct : HasDistinctKeys scope
  qualified : ∀ qualifier, name.qualifier = some qualifier → scope.uri? qualifier = some name.uri
  unqualified : name.qualifier = none → name.uri = (scope.lookup "").getD ""
  qualifiedAttribute : ∀ a ∈ attributes, ∀ qualifier, a.1.qualifier = some qualifier →
    scope.uri? qualifier = some a.1.uri
  unqualifiedAttribute : ∀ a ∈ attributes, a.1.qualifier = none → a.1.uri = ""

/-- The declarations at the root of a tree. -/
def NodeTree.declarations : NodeTree → NamespaceMap
  | .element _ declarations _ _ _ => declarations
  | _ => []

mutual

/-- All elements of a tree are scoped, where the declarations around it are given, the nearest first. -/
def NodeTree.AllScoped (around : List NamespaceMap) : NodeTree → Prop
  | .document _ children => NodeTree.EachScoped ([] :: around) children
  | .element name declarations scope attributes children =>
    Scoped (declarations :: around) scope name attributes ∧ NodeTree.EachScoped (declarations :: around) children
  | _ => True

/-- The same of several trees. -/
def NodeTree.EachScoped (around : List NamespaceMap) : List NodeTree → Prop
  | [] => True
  | t :: ts => t.AllScoped around ∧ NodeTree.EachScoped around ts

end

theorem NodeTree.eachScoped_iff {around : List NamespaceMap} {ts : List NodeTree} :
    NodeTree.EachScoped around ts ↔ ∀ t ∈ ts, t.AllScoped around := by
  induction ts with
  | nil => simp [NodeTree.EachScoped]
  | cons t ts ih => rw [NodeTree.EachScoped, ih, List.forall_mem_cons]

/-- **What is around an element**: the bindings of the reader and the scope of the conversion agree with each other and
with the declarations on the way to the root. -/
structure Surrounding (bindings : Bindings) (scope : NamespaceMap) (lineage : List NamespaceMap) : Prop where
  sound : scope.Sound
  agree : ∀ qualifier, qualifier ≠ "xml" → scope.lookup qualifier = filled? (bindings.lookup qualifier)
  reserved : bindings.lookup "xml" = some xmlUri
  only : ∀ qualifier, bindings.lookup qualifier = some xmlUri → qualifier = "xml"
  full : ∀ qualifier uri, qualifier ≠ "" → bindings.lookup qualifier = some uri → uri ≠ ""
  nearest : ∀ qualifier, qualifier ≠ "xml" → scope.lookup qualifier = filled? (nearest? lineage qualifier)

/-- Around the root element there are no declarations. -/
theorem surrounding_root : Surrounding initialBindings [] [[]] where
  sound := ⟨List.nodup_nil, by simp, by simp⟩
  agree qualifier other := by
    rw [initialBindings, List.lookup_cons, beq_false_of_ne other]
    rfl
  reserved := rfl
  only qualifier found := (Prod.mk.inj (List.mem_singleton.mp (mem_of_lookup found))).1
  full qualifier uri _ found := by
    obtain ⟨-, rfl⟩ := Prod.mk.inj (List.mem_singleton.mp (mem_of_lookup found))
    decide
  nearest _ _ := rfl

section Extend

variable {bindings : Bindings} {outer : NamespaceMap} {around : List NamespaceMap}
  {declarations : NamespaceMap} {tag : Tag} {attributes : List Attribute}

/-- **A start tag keeps the agreement** of what is around the elements within it. -/
theorem Surrounding.extend (surrounding : Surrounding bindings outer around)
    (heading : Heading (declarations.reverse ++ bindings) tag declarations attributes) :
    Surrounding (declarations.reverse ++ bindings) (outer.extend declarations) (declarations :: around) := by
  have found (qualifier : String) : (declarations.reverse ++ bindings).lookup qualifier =
      (declarations.lookup qualifier).or (bindings.lookup qualifier) := by
    rw [List.lookup_append, lookup_reverse heading.distinct]
  have either {qualifier uri : String} (there : (declarations.reverse ++ bindings).lookup qualifier = some uri) :
      (qualifier, uri) ∈ declarations ∨ bindings.lookup qualifier = some uri := by
    rw [found, Option.or_eq_some_iff] at there
    exact there.imp mem_of_lookup And.right
  constructor
  case sound => exact surrounding.sound.extend heading.allowed
  case agree =>
    intro qualifier other
    rw [NamespaceMap.lookup_extend heading.distinct, found]
    cases declarations.lookup qualifier with
    | none => exact surrounding.agree qualifier other
    | some uri => rfl
  case reserved =>
    rw [found]
    cases declared : declarations.lookup "xml" with
    | none => exact surrounding.reserved
    | some uri =>
      obtain rfl : uri = xmlUri := NamespaceMap.uri_of_allowed (heading.allowed _ (mem_of_lookup declared))
      rfl
  case only =>
    intro qualifier there
    rcases either there with declared | before
    · exact NamespaceMap.qualifier_of_allowed (heading.allowed _ declared)
    · exact surrounding.only qualifier before
  case full =>
    intro qualifier uri named there
    rcases either there with declared | before
    · exact NamespaceMap.full_of_allowed (heading.allowed _ declared) named
    · exact surrounding.full qualifier uri named before
  case nearest =>
    intro qualifier other
    rw [NamespaceMap.lookup_extend heading.distinct, nearest?, List.findSome?_cons]
    cases declarations.lookup qualifier with
    | none => exact surrounding.nearest qualifier other
    | some uri => rfl

end Extend

section Names

variable {bindings : Bindings} {scope : NamespaceMap} {lineage : List NamespaceMap} {tag : Tag}
  {declarations : NamespaceMap} {attributes : List Attribute}

/-- A qualifier that is resolved is in scope, or is the reserved one. -/
theorem Surrounding.mem_scope (surrounding : Surrounding bindings scope lineage) {qualifier uri : String}
    (found : bindings.lookup qualifier = some uri) (full : uri ≠ "") : uri = xmlUri ∨ (qualifier, uri) ∈ scope := by
  by_cases isXml : qualifier = "xml"
  · subst isXml
    exact .inl (Option.some.inj (found.symm.trans surrounding.reserved))
  · refine .inr (mem_of_lookup ?_)
    rw [surrounding.agree qualifier isXml, found]
    exact filled?_eq_some.mpr ⟨rfl, full⟩

/-- An element without a qualifier is in the default namespace. -/
theorem Surrounding.unqualified (surrounding : Surrounding bindings scope lineage) (isName : IsName tag.written)
    (resolved : elementUri? bindings tag.written = some tag.uri)
    (missing : (Forest.elementName .fromScope scope tag).qualifier = none) :
    tag.uri = (scope.lookup "").getD "" := by
  have default : tag.written.qualifier = none → tag.uri = (scope.lookup "").getD "" := by
    intro plain
    rw [elementUri?, plain] at resolved
    rw [surrounding.agree "" (by decide), getD_filled?, ← Option.some.inj resolved]
  cases written : tag.written.qualifier with
  | none => exact default written
  | some qualifier =>
    rw [elementUri?, written] at resolved
    have full := surrounding.full qualifier _ (isName.qualifier qualifier written).ne_empty resolved
    have none_ : scope.qualifierFor tag.uri false = none := by
      simpa [Forest.elementName, full] using missing
    obtain ⟨notXml, inDefault | nowhere⟩ := NamespaceMap.of_qualifierFor_eq_none none_
    · rw [lookup_of_mem surrounding.sound.distinct inDefault]
      rfl
    · exact absurd ((surrounding.mem_scope resolved full).resolve_left notXml) (nowhere qualifier)

/-- An attribute without a qualifier is in no namespace. -/
theorem Surrounding.unqualifiedAttribute (surrounding : Surrounding bindings scope lineage) {a : Attribute}
    (isName : IsName a.tag.written) (resolved : attributeUri? bindings a.tag.written = some a.tag.uri)
    (missing : scope.qualifierFor a.tag.uri true = none) : a.tag.uri = "" := by
  cases written : a.tag.written.qualifier with
  | none =>
    rw [attributeUri?, written] at resolved
    exact (Option.some.inj resolved).symm
  | some qualifier =>
    rw [attributeUri?, written] at resolved
    have named := (isName.qualifier qualifier written).ne_empty
    have full := surrounding.full qualifier _ named resolved
    obtain ⟨notXml, onlyDefault⟩ := NamespaceMap.of_qualifierFor_attribute_eq_none missing
    exact absurd (onlyDefault qualifier ((surrounding.mem_scope resolved full).resolve_left notXml)) named

/-- **The names of an element are resolved by its scope.** -/
theorem Surrounding.scoped (surrounding : Surrounding bindings scope lineage)
    (heading : Heading bindings tag declarations attributes) :
    Scoped lineage scope (Forest.elementName .fromScope scope tag) (attributes.map (·.entry scope)) where
  nearest := surrounding.nearest
  distinct := surrounding.sound.distinct
  qualified qualifier has := by
    have found : scope.qualifierFor tag.uri false = some qualifier := by
      simp only [Forest.elementName] at has
      split at has
      · cases has
      · exact has
    exact surrounding.sound.uri?_of_qualifierFor found
  unqualified := surrounding.unqualified heading.isName heading.element
  qualifiedAttribute := by
    intro entry member qualifier has
    obtain ⟨a, -, rfl⟩ := List.mem_map.mp member
    exact surrounding.sound.uri?_of_qualifierFor has
  unqualifiedAttribute := by
    intro entry member missing
    obtain ⟨a, inTag, rfl⟩ := List.mem_map.mp member
    exact surrounding.unqualifiedAttribute (heading.areNames a inTag) (heading.attributes a inTag) missing

end Names

/-! ### Trees -/

theorem allScoped_ofText (around : List NamespaceMap) (text : String) :
    ∀ t ∈ NodeTree.ofText text, t.AllScoped around := by
  rcases NodeTree.ofText_cases text with ⟨none, -⟩ | ⟨one, -⟩
  · simp [none]
  · rw [one, List.forall_mem_singleton]
    trivial

mutual

/-- **All elements of a conversion are scoped**, by induction over the element. -/
theorem scoped_toTree {bindings : Bindings} {outer : NamespaceMap} {around : List NamespaceMap}
    (surrounding : Surrounding bindings outer around) :
    (e : Element) → e.Resolved bindings → (e.toTree .fromScope outer).AllScoped around
  | .mk tag declarations attributes text children, resolved => by
    have within := surrounding.extend resolved.1
    refine ⟨within.scoped resolved.1, NodeTree.eachScoped_iff.mpr fun t member => ?_⟩
    rcases List.mem_append.mp member with member | member
    · exact allScoped_ofText _ text t member
    · exact scoped_childTrees within children resolved.2 t member

theorem scoped_childTrees {bindings : Bindings} {scope : NamespaceMap} {lineage : List NamespaceMap}
    (surrounding : Surrounding bindings scope lineage) :
    (children : List (Child × String)) → Element.ResolvedAll bindings children →
      ∀ t ∈ Element.childTrees .fromScope scope children, t.AllScoped lineage
  | [], _ => fun _ member => absurd member List.not_mem_nil
  | (.remark remark, tail) :: rest, resolved => by
    refine List.forall_mem_cons.mpr ⟨by cases remark <;> trivial, List.forall_mem_append.mpr ⟨?_, ?_⟩⟩
    · exact allScoped_ofText _ tail
    · exact scoped_childTrees surrounding rest resolved
  | (.element e, tail) :: rest, resolved => by
    refine List.forall_mem_cons.mpr ⟨scoped_toTree surrounding e resolved.1, List.forall_mem_append.mpr ⟨?_, ?_⟩⟩
    · exact allScoped_ofText _ tail
    · exact scoped_childTrees surrounding rest resolved.2

end

end XPathAnnotator
