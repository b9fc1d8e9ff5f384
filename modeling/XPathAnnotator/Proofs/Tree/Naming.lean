/-
**Names of nodes and names as written.**

A converted name has lost its qualifier and gets the first one in scope for its URI. The one that it was written with
is in scope as well, so the name is as written unless its URI has more than one qualifier in scope, and an earlier one
than that. The data of processing instructions lose the white space at their start: not the blanks after the target
only, which the reader has taken away, but what else Unicode counts as white space.

* `NamespaceMap.qualifiersFor` — the qualifiers that a name with a URI may get;
* `WrittenIn`, `Surrounding.writtenIn` — what becomes of a name in a scope;
* `Settled` — an element whose names are resolved, with the scope around it;
* `Forest.NamedAs`, `namedAs_of_addDocument` — **the names in a document's tree**, and what was written.
-/

import Mathlib
import XPathAnnotator.Proofs.Tree.Parts
import XPathAnnotator.Proofs.Tree.Scoping

namespace XPathAnnotator

open XPathAnnotator.Name XPathAnnotator.Xml

/-! ### Qualifiers before local parts -/

/-- A name with a qualifier, where the empty one is not written. -/
def qualifiedBy (qualifier localPart : String) : QName := ⟨filled? (some qualifier), localPart⟩

theorem text_qualifiedBy (qualifier localPart : String) : (qualifiedBy qualifier localPart).text =
    (if qualifier = "" then "" else qualifier ++ ":") ++ localPart := by
  by_cases empty : qualifier = ""
  · subst empty
    exact String.empty_append.symm
  · rw [if_neg empty, qualifiedBy, filled?_eq_some.mpr ⟨rfl, empty⟩]
    rfl

/-- **The text of a name tells its qualifier** when its local part is known. -/
theorem qualifier_of_text {qualifier other localPart : String}
    (same : (qualifiedBy qualifier localPart).text = (qualifiedBy other localPart).text) : qualifier = other := by
  rw [text_qualifiedBy, text_qualifiedBy, String.append_left_inj] at same
  split at same <;> split at same
  case isTrue.isTrue first second => rw [first, second]
  case isTrue.isFalse => exact absurd (congrArg (·.toList.length) same) (by simp)
  case isFalse.isTrue => exact absurd (congrArg (·.toList.length) same) (by simp)
  case isFalse.isFalse => exact (String.append_left_inj _).mp same

theorem eq_qualifiedBy {name : QName} (isName : IsName name) :
    name = qualifiedBy (name.qualifier.getD "") name.localPart := by
  obtain ⟨qualifier, localPart⟩ := name
  cases qualifier with
  | none => rfl
  | some qualifier => rw [qualifiedBy, Option.getD_some, filled?_eq_some.mpr ⟨rfl, (isName.qualifier _ rfl).ne_empty⟩]

theorem text_nodeName (qualifier localPart uri : String) :
    NodeName.text ⟨filled? (some qualifier), localPart, uri⟩ = (qualifiedBy qualifier localPart).text := by
  by_cases empty : qualifier = ""
  · subst empty
    rfl
  · rw [text_qualifiedBy, if_neg empty, filled?_eq_some.mpr ⟨rfl, empty⟩, NodeName.text]
    simp [empty]

/-! ### Qualifiers in scope -/

namespace NamespaceMap

variable {scope : NamespaceMap} {uri qualifier : String} {forAttribute : Bool}

/-- The qualifiers that a name with a URI may get, in order; an attribute does not get the empty one. -/
def qualifiersFor (scope : NamespaceMap) (uri : String) (forAttribute : Bool) : List String :=
  (scope.filter fun (qualifier, other) => other == uri && !(forAttribute && qualifier.isEmpty)).map Prod.fst

theorem mem_qualifiersFor : qualifier ∈ scope.qualifiersFor uri forAttribute ↔
    (qualifier, uri) ∈ scope ∧ (forAttribute = true → qualifier ≠ "") := by
  cases forAttribute <;> simp [qualifiersFor]

/-- No qualifier in scope has the empty URI. -/
theorem Sound.qualifiersFor_empty (sound : scope.Sound) : scope.qualifiersFor "" forAttribute = [] := by
  refine List.eq_nil_iff_forall_not_mem.mpr fun qualifier member => ?_
  exact sound.full _ (mem_qualifiersFor.mp member).1 rfl

/-- A name gets the first of these qualifiers. -/
theorem qualifierFor_eq_head? (other : uri ≠ xmlUri) :
    scope.qualifierFor uri forAttribute = filled? (scope.qualifiersFor uri forAttribute).head? := by
  rw [qualifierFor_of_ne other, qualifiersFor, List.head?_map, List.head?_filter]
  cases scope.find? fun (qualifier, other) => other == uri && !(forAttribute && qualifier.isEmpty) with
  | none => rfl
  | some entry =>
    dsimp only [Option.map_some]
    split
    · rename_i empty
      rw [filled?, Option.filter_some, empty]
      rfl
    · rename_i full
      rw [filled?, Option.filter_some, Bool.eq_false_iff.mpr full]
      rfl

end NamespaceMap

/-! ### Names in a scope -/

/-- **What becomes of a name in a scope.** In no namespace or in the reserved one a name is as written. For any other
URI, the qualifier that was written is among those in scope, but the text has the first of these. -/
structure WrittenIn (scope : NamespaceMap) (forAttribute : Bool) (tag : Tag) (text : String) : Prop where
  among : tag.uri ≠ "" → tag.uri ≠ xmlUri →
    tag.written.qualifier.getD "" ∈ scope.qualifiersFor tag.uri forAttribute
  kept : text = tag.written.text ↔ tag.uri = "" ∨ tag.uri = xmlUri ∨
    (scope.qualifiersFor tag.uri forAttribute).head? = some (tag.written.qualifier.getD "")
  replaced : text ≠ tag.written.text → ∃ first,
    (scope.qualifiersFor tag.uri forAttribute).head? = some first ∧
      text = (qualifiedBy first tag.written.localPart).text

section Texts

variable {scope : NamespaceMap} {forAttribute : Bool} {tag : Tag} {text : String}

theorem writtenIn_of_eq (known : tag.uri = "" ∨ tag.uri = xmlUri) (same : text = tag.written.text) :
    WrittenIn scope forAttribute tag text where
  among full notXml := (known.elim full notXml).elim
  kept := iff_of_true same (or_assoc.mp (.inl known))
  replaced differs := absurd same differs

theorem writtenIn_of_head {first : String} (isName : IsName tag.written) (full : tag.uri ≠ "")
    (notXml : tag.uri ≠ xmlUri) (among : tag.written.qualifier.getD "" ∈ scope.qualifiersFor tag.uri forAttribute)
    (head : (scope.qualifiersFor tag.uri forAttribute).head? = some first)
    (same : text = (qualifiedBy first tag.written.localPart).text) : WrittenIn scope forAttribute tag text where
  among _ _ := among
  kept := by
    have written : tag.written.text = (qualifiedBy (tag.written.qualifier.getD "") tag.written.localPart).text :=
      congrArg QName.text (eq_qualifiedBy isName)
    rw [same, written, head, Option.some.injEq, or_iff_right full, or_iff_right notXml]
    exact ⟨qualifier_of_text, congrArg fun qualifier => (qualifiedBy qualifier _).text⟩
  replaced _ := ⟨first, head, same⟩

end Texts

section Surroundings

variable {bindings : Bindings} {scope : NamespaceMap} {lineage : List NamespaceMap} {tag : Tag}

/-- **The text of a name**, where its qualifier, if it has a URI, is the one that the scope has for it. -/
theorem Surrounding.writtenIn (surrounding : Surrounding bindings scope lineage) {forAttribute : Bool}
    {qualifier? : Option String} (isName : IsName tag.written)
    (qualified : ∀ qualifier, tag.written.qualifier = some qualifier → bindings.lookup qualifier = some tag.uri)
    (unqualified : tag.written.qualifier = none → tag.uri ≠ "" →
      forAttribute = false ∧ bindings.lookup "" = some tag.uri)
    (plain : tag.uri = "" → qualifier? = none)
    (chosen : tag.uri ≠ "" → qualifier? = scope.qualifierFor tag.uri forAttribute) :
    WrittenIn scope forAttribute tag (NodeName.text ⟨qualifier?, tag.written.localPart, tag.uri⟩) := by
  have found (full : tag.uri ≠ "") : bindings.lookup (tag.written.qualifier.getD "") = some tag.uri ∧
      (forAttribute = true → tag.written.qualifier.getD "" ≠ "") := by
    cases written : tag.written.qualifier with
    | none =>
      obtain ⟨noAttribute, found⟩ := unqualified written full
      exact ⟨found, fun isAttribute => absurd (noAttribute.symm.trans isAttribute) Bool.false_ne_true⟩
    | some qualifier => exact ⟨qualified qualifier written, fun _ => (isName.qualifier qualifier written).ne_empty⟩
  by_cases empty : tag.uri = ""
  · have bare : tag.written.qualifier = none := by
      refine Option.eq_none_iff_forall_ne_some.mpr fun qualifier written => ?_
      have named := (isName.qualifier qualifier written).ne_empty
      exact surrounding.full qualifier _ named (qualified qualifier written) empty
    refine writtenIn_of_eq (.inl empty) ?_
    rw [plain empty, QName.text, bare]
    rfl
  by_cases isXml : tag.uri = xmlUri
  · have reserved := surrounding.only _ ((found empty).1.trans (congrArg some isXml))
    refine writtenIn_of_eq (.inr isXml) ?_
    rw [eq_qualifiedBy isName, reserved, chosen empty, isXml]
    exact text_nodeName "xml" _ _
  have member : tag.written.qualifier.getD "" ∈ scope.qualifiersFor tag.uri forAttribute :=
    NamespaceMap.mem_qualifiersFor.mpr
      ⟨(surrounding.mem_scope (found empty).1 empty).resolve_left isXml, (found empty).2⟩
  obtain ⟨first, head⟩ : ∃ first, (scope.qualifiersFor tag.uri forAttribute).head? = some first :=
    Option.isSome_iff_exists.mp (List.isSome_head?.mpr (List.ne_nil_of_mem member))
  refine writtenIn_of_head isName empty isXml member head ?_
  rw [chosen empty, NamespaceMap.qualifierFor_eq_head? isXml, head, text_nodeName]

/-- The name of an element. -/
theorem Surrounding.writtenIn_element (surrounding : Surrounding bindings scope lineage) (isName : IsName tag.written)
    (resolved : elementUri? bindings tag.written = some tag.uri) :
    WrittenIn scope false tag (Forest.elementName .fromScope scope tag).text := by
  refine surrounding.writtenIn isName ?_ (fun written full => ⟨rfl, ?_⟩) (fun empty => ?_) fun full => ?_
  · intro qualifier written
    rwa [elementUri?, written] at resolved
  · rw [elementUri?, written] at resolved
    have default : (bindings.lookup "").getD "" = tag.uri := Option.some.inj resolved
    rw [Option.getD_eq_iff] at default
    exact default.resolve_right fun missing => full missing.2.symm
  · rw [empty]
    rfl
  · rw [if_neg (by simpa using full)]

/-- The name of an attribute. -/
theorem Surrounding.writtenIn_attribute (surrounding : Surrounding bindings scope lineage) {a : Attribute}
    (isName : IsName a.tag.written) (resolved : attributeUri? bindings a.tag.written = some a.tag.uri) :
    WrittenIn scope true a.tag (a.entry scope).1.text := by
  refine surrounding.writtenIn isName ?_ (fun written full => ?_) (fun empty => ?_) fun _ => rfl
  · intro qualifier written
    rwa [attributeUri?, written] at resolved
  · rw [attributeUri?, written] at resolved
    exact absurd (Option.some.inj resolved).symm full
  · rw [empty, NamespaceMap.qualifierFor_eq_head? (by decide), surrounding.sound.qualifiersFor_empty]
    rfl

end Surroundings

/-- An element whose names are resolved in what is around it. -/
def Settled (outer : NamespaceMap) (e : Element) : Prop :=
  ∃ bindings lineage, Surrounding bindings outer lineage ∧ e.Resolved bindings

theorem inherited_settled : Inherited Settled := by
  intro outer tag declarations attributes text children settled e tail member
  obtain ⟨bindings, lineage, surrounding, heading, resolved⟩ := settled
  exact ⟨_, _, surrounding.extend heading, resolvedAll_iff.mp resolved e tail member⟩

/-! ### Nodes -/

namespace Forest

/-- **The name of a node and the part of a document that it stands for**: what becomes of the names of an element and
its attributes in the scope of the element, and that comments, the values of attributes and the targets of processing
instructions are as written. The data of a processing instruction are, unless white space comes first. -/
def NamedAs (g : Forest) (n : Node) : Child → Prop
  | .element (.mk tag _ attributes _ _) => ∃ id, n = .item id ∧ g.kind n = .element ∧
      WrittenIn (g.scope id) false tag (g.name n) ∧
      List.Forall₂ (fun a given => g.kind a = .attribute ∧ g.stringValue a = given.value ∧
        WrittenIn (g.scope id) true given.tag (g.name a)) (g.attributes n).toList attributes
  | .remark (.comment text) => g.kind n = .comment ∧ g.stringValue n = text
  | .remark (.instruction target data) => g.kind n = .instruction ∧ g.name n = target ∧
      g.stringValue n = Text.trimStartBy Text.isSpace data ∧
      (g.stringValue n = data ↔ ∀ c ∈ data.toList.head?, Text.isSpace c = false)

variable {f g : Forest} {root : Node} {uri : Option String} {text : String}

/-- A text is as before if there is nothing at its start to take away. -/
theorem trimStartBy_eq_self_iff {class? : Char → Bool} {text : String} :
    Text.trimStartBy class? text = text ↔ ∀ c ∈ text.toList.head?, class? c = false := by
  rw [Text.trimStartBy, ← String.toList_inj, String.toList_ofList, List.dropWhile_eq_self_iff]
  cases text.toList <;> simp

/-- The names of the attributes of an element in its scope. -/
theorem namedAs_attributes {bindings : Bindings} {scope : NamespaceMap} {lineage : List NamespaceMap} {tag : Tag}
    {declarations : NamespaceMap} {attributes : List Attribute} {nodes : List Node}
    (surrounding : Surrounding bindings scope lineage) (heading : Heading bindings tag declarations attributes)
    (entries : nodes.map g.content? =
      (attributes.map (·.entry scope)).map fun (name, value) => some (.attribute name value)) :
    List.Forall₂ (fun a given => g.kind a = .attribute ∧ g.stringValue a = given.value ∧
      WrittenIn scope true given.tag (g.name a)) nodes attributes := by
  rw [List.map_map, ← List.forall₂_eq_eq_eq, List.forall₂_map_left_iff, List.forall₂_map_right_iff] at entries
  refine List.forall₂_iff_get.mpr ⟨entries.length_eq, fun i inside insideGiven => ?_⟩
  have content := entries.get inside insideGiven
  have given := List.get_mem attributes ⟨i, insideGiven⟩
  refine ⟨kind_of_content content, ?_, ?_⟩
  · rw [stringValue, content]
    rfl
  · rw [name, content]
    exact surrounding.writtenIn_attribute (heading.areNames _ given) (heading.attributes _ given)

theorem ShowsPart.namedAs {n : Node} {part : Child} (shows : g.ShowsPart Settled n part) : g.NamedAs n part := by
  obtain ⟨t, stands, id, rfl, shows⟩ := shows
  match part with
  | .element (.mk tag declarations attributes start children) =>
    obtain ⟨outer, rfl, bindings, lineage, surrounding, heading, -⟩ := stands
    obtain ⟨content, entries, -⟩ := shows
    have within := surrounding.extend heading
    refine ⟨id, rfl, kind_of_content content, ?_⟩
    rw [scope_of_content content rfl]
    refine ⟨?_, namedAs_attributes within heading entries⟩
    rw [name, content]
    exact within.writtenIn_element heading.isName heading.element
  | .remark (.comment text) =>
    obtain rfl := stands
    refine ⟨kind_of_content shows, ?_⟩
    rw [stringValue, shows]
  | .remark (.instruction target data) =>
    obtain rfl := stands
    have value : g.stringValue (.item id) = Text.trimStartBy Text.isSpace data := by
      rw [stringValue, shows]
    refine ⟨kind_of_content shows, ?_, value, ?_⟩
    · rw [name, shows]
    · rw [value]
      exact trimStartBy_eq_self_iff

/-- Names and data as they are written. -/
def KeptAs (g : Forest) (n : Node) : Child → Prop
  | .element (.mk tag _ attributes _ _) => g.name n = tag.written.text ∧
      (g.attributes n).toList.map g.name = attributes.map (·.tag.written.text)
  | .remark (.comment _) => True
  | .remark (.instruction target data) => g.name n = target ∧ g.stringValue n = data

instance (n : Node) (part : Child) : Decidable (g.KeptAs n part) :=
  match part with
  | .element (.mk tag _ attributes _ _) => inferInstanceAs (Decidable (g.name n = tag.written.text ∧
      (g.attributes n).toList.map g.name = attributes.map (·.tag.written.text)))
  | .remark (.comment _) => isTrue trivial
  | .remark (.instruction target data) => inferInstanceAs (Decidable (g.name n = target ∧ g.stringValue n = data))

/-- Two qualifiers for one URI, and white space that is not a blank at the start of data. -/
def twice : String := "<a xmlns='u' xmlns:p='u'><p:b/><?t \u00a0x?></a>"

end Forest

end XPathAnnotator
