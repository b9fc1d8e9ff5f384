/-
**Names of a document and their namespaces.**

A start tag declares namespaces and resolves its names in the bindings with its own declarations. A name is resolved by
the latest declaration of its qualifier, so that every element of a document has a name and attributes that are resolved
by the declarations on it and around it. Only allowed declarations are made, no qualifier twice in one tag.

* `Heading`, `Element.Resolved` — what holds of a start tag, and of all those within an element;
* `opened_of_openElement?` — what a start tag opens;
* `Opens.resolved`, `Spells.resolved` — **the elements of a document are resolved**.
-/

import Mathlib
import XPathAnnotator.Proofs.Data.Lookups
import XPathAnnotator.Proofs.Xml.Reading

namespace XPathAnnotator.Xml

open XPathAnnotator.Name

/-! ### Start tags -/

/-- The name, declarations and attributes of an element, where the bindings with its own declarations are given. -/
structure Heading (inner : Bindings) (tag : Tag) (declarations : List (String × String))
    (attributes : List Attribute) : Prop where
  distinct : HasDistinctKeys declarations
  allowed : ∀ declaration ∈ declarations, isAllowedDeclaration declaration.1 declaration.2 = true
  isName : IsName tag.written
  element : elementUri? inner tag.written = some tag.uri
  areNames : ∀ a ∈ attributes, IsName a.tag.written
  attributes : ∀ a ∈ attributes, attributeUri? inner a.tag.written = some a.tag.uri

mutual

/-- **An element whose names are resolved**, where the bindings around it are given. -/
def Element.Resolved (outer : Bindings) : Element → Prop
  | .mk tag declarations attributes _ children =>
    Heading (declarations.reverse ++ outer) tag declarations attributes ∧
      Element.ResolvedAll (declarations.reverse ++ outer) children

/-- The same of all elements among children. -/
def Element.ResolvedAll (inner : Bindings) : List (Child × String) → Prop
  | [] => True
  | (.remark _, _) :: rest => Element.ResolvedAll inner rest
  | (.element e, _) :: rest => e.Resolved inner ∧ Element.ResolvedAll inner rest

end

theorem resolvedAll_iff {inner : Bindings} {children : List (Child × String)} :
    Element.ResolvedAll inner children ↔ ∀ e tail, (Child.element e, tail) ∈ children → e.Resolved inner := by
  induction children with
  | nil => simp [Element.ResolvedAll]
  | cons child children ih =>
    obtain ⟨child | remark, tail⟩ := child
    · rw [Element.ResolvedAll, ih]
      constructor
      · rintro ⟨first, rest⟩ e later member
        rcases List.mem_cons.mp member with same | member
        · obtain ⟨rfl, -⟩ := by simpa using same
          exact first
        · exact rest e later member
      · intro each
        exact ⟨each child tail List.mem_cons_self, fun e later member => each e later (List.mem_cons_of_mem _ member)⟩
    · rw [Element.ResolvedAll, ih]
      simp

/-! ### What a start tag opens -/

theorem nodup_of_allDistinct {α : Type} [BEq α] [LawfulBEq α] {items : List α} (distinct : allDistinct items = true) :
    items.Nodup := by
  induction items with
  | nil => exact List.nodup_nil
  | cons a items ih =>
    rw [allDistinct, Bool.and_eq_true, Bool.not_eq_true'] at distinct
    exact List.nodup_cons.mpr ⟨by simpa using distinct.1, ih distinct.2⟩

theorem resolveAttributes?_eq_some {bindings : Bindings} {given : List (QName × String)} {attributes : List Attribute}
    (resolves : resolveAttributes? bindings given = some attributes) :
    attributes.map (fun a => (a.tag.written, a.value)) = given ∧
      ∀ a ∈ attributes, attributeUri? bindings a.tag.written = some a.tag.uri := by
  induction given generalizing attributes with
  | nil =>
    obtain rfl := Option.some.inj resolves
    exact ⟨rfl, by simp⟩
  | cons first given ih =>
    obtain ⟨name, value⟩ := first
    unfold resolveAttributes? at resolves
    split at resolves
    · rename_i uri more found further
      obtain rfl := Option.some.inj resolves
      obtain ⟨written, resolved⟩ := ih further
      exact ⟨by rw [List.map_cons, written], List.forall_mem_cons.mpr ⟨found, resolved⟩⟩
    · cases resolves

/-- A qualifier is declared by one name only. -/
theorem eq_of_declarationOf? {name other : QName} (isName : IsName name) (isOther : IsName other)
    {value value' qualifier uri uri' : String} (declares : declarationOf? name value = some (qualifier, uri))
    (again : declarationOf? other value' = some (qualifier, uri')) : name = other := by
  have told {name : QName} (isName : IsName name) {value uri : String}
      (declares : declarationOf? name value = some (qualifier, uri)) :
      name = if qualifier = "" then ⟨none, "xmlns"⟩ else ⟨some "xmlns", qualifier⟩ := by
    obtain ⟨prefix?, localPart⟩ := name
    unfold declarationOf? at declares
    cases prefix? with
    | none =>
      dsimp only at declares
      split at declares
      · rename_i isDefault
        obtain ⟨rfl, -⟩ := Prod.mk.inj (Option.some.inj declares)
        rw [beq_iff_eq] at isDefault
        rw [if_pos rfl, isDefault]
      · cases declares
    | some sign =>
      dsimp only at declares
      split at declares
      · rename_i isSign
        obtain ⟨rfl, -⟩ := Prod.mk.inj (Option.some.inj declares)
        rw [beq_iff_eq] at isSign
        rw [if_neg isName.localPart.ne_empty, isSign]
      · cases declares
  rw [told isName declares, told isOther again]

theorem distinct_declarations {attributes : List (QName × String)} (areNames : ∀ a ∈ attributes, IsName a.1)
    (distinct : (attributes.map Prod.fst).Nodup) :
    HasDistinctKeys (attributes.filterMap fun (name, value) => declarationOf? name value) := by
  induction attributes with
  | nil => exact List.nodup_nil
  | cons first attributes ih =>
    obtain ⟨name, value⟩ := first
    obtain ⟨isName, areNames⟩ := List.forall_mem_cons.mp areNames
    obtain ⟨apart, distinct⟩ := List.nodup_cons.mp distinct
    have rest := ih areNames distinct
    rw [List.filterMap_cons]
    dsimp only
    cases declares : declarationOf? name value with
    | none => exact rest
    | some declaration =>
      obtain ⟨qualifier, uri⟩ := declaration
      refine List.nodup_cons.mpr ⟨fun member => apart ?_, rest⟩
      obtain ⟨⟨_, uri'⟩, inRest, rfl⟩ := List.mem_map.mp member
      obtain ⟨⟨other, value'⟩, inAttributes, again⟩ := List.mem_filterMap.mp inRest
      rw [eq_of_declarationOf? isName (areNames _ inAttributes) declares again]
      exact List.mem_map_of_mem (f := Prod.fst) inAttributes

/-- **What a start tag opens**: an element with the name, the declarations and the other attributes that were given, in
the bindings with these declarations. -/
structure Opened (outer : Bindings) (name : QName) (given : List (QName × String)) (e : OpenElement) : Prop where
  written : e.tag.written = name
  declarations : e.declarations = given.filterMap fun (name, value) => declarationOf? name value
  attributes : e.attributes.map (fun a => (a.tag.written, a.value)) =
    given.filter fun (name, value) => (declarationOf? name value).isNone
  bindings : e.bindings = e.declarations.reverse ++ outer
  heading : Heading e.bindings e.tag e.declarations e.attributes
  noText : e.text = ""
  noChildren : e.children = []

theorem SpellsAttributes.areNames {written : List Char} {attributes : List (QName × String)}
    (spells : SpellsAttributes written attributes) : ∀ a ∈ attributes, IsName a.1 := by
  induction spells with
  | done => simp
  | more _ _ isName _ _ _ _ ih => exact List.forall_mem_cons.mpr ⟨isName, ih⟩

theorem opened_of_openElement? {outer : Bindings} {name : QName} {given : List (QName × String)} {e : OpenElement}
    (isName : IsName name) (areNames : ∀ a ∈ given, IsName a.1) (opens : openElement? outer name given = some e) :
    Opened outer name given e := by
  unfold openElement? at opens
  dsimp only at opens
  split at opens
  · cases opens
  rename_i distinct
  rw [Bool.not_eq_true', Bool.not_eq_false] at distinct
  split at opens
  · cases opens
  rename_i allowed
  rw [Bool.not_eq_true', Bool.not_eq_false] at allowed
  split at opens
  · rename_i uri attributes element resolves
    split at opens
    · obtain rfl := Option.some.inj opens
      simp only [List.foldl_flip_cons_eq_append, List.map_id'] at element resolves ⊢
      obtain ⟨written, resolved⟩ := resolveAttributes?_eq_some resolves
      refine ⟨rfl, rfl, written, rfl, ?_, rfl, rfl⟩
      refine ⟨distinct_declarations areNames (nodup_of_allDistinct distinct), List.all_eq_true.mp allowed, isName,
        element, fun a member => ?_, resolved⟩
      have inGiven : (a.tag.written, a.value) ∈ given := by
        refine List.mem_of_mem_filter (p := fun (name, value) => (declarationOf? name value).isNone) ?_
        rw [← written]
        exact List.mem_map_of_mem (f := fun a : Attribute => (a.tag.written, a.value)) member
      exact areNames _ inGiven
    · cases opens
  · cases opens

theorem StartTag.exists_opened {outer : Bindings} {written : List Char} {e : OpenElement}
    (tag : StartTag outer written e) : ∃ name given, Opened outer name given e := by
  obtain ⟨isName, spells, opens⟩ := tag
  exact ⟨_, _, opened_of_openElement? isName spells.areNames opens⟩

/-! ### Elements -/

theorem mem_children_addText {e : OpenElement} {more : String} {child : Child} {tail : String}
    (member : (child, tail) ∈ (e.addText more).children) : ∃ tail, (child, tail) ∈ e.children := by
  unfold OpenElement.addText at member
  split at member
  · exact ⟨tail, member⟩
  · rename_i first before rest same
    rw [same]
    rcases List.mem_cons.mp member with here | member
    · obtain ⟨rfl, -⟩ := Prod.mk.inj here
      exact ⟨before, List.mem_cons_self⟩
    · exact ⟨tail, List.mem_cons_of_mem _ member⟩

/-- An open element whose names are resolved, and those of its children. -/
structure OpenElement.Resolved (outer : Bindings) (e : OpenElement) : Prop where
  bindings : e.bindings = e.declarations.reverse ++ outer
  heading : Heading e.bindings e.tag e.declarations e.attributes
  children : ∀ child tail, (Child.element child, tail) ∈ e.children → child.Resolved e.bindings

theorem OpenElement.Resolved.close {outer : Bindings} {e : OpenElement} (resolved : e.Resolved outer) :
    e.close.Resolved outer := by
  unfold OpenElement.close Element.Resolved
  rw [← resolved.bindings]
  exact ⟨resolved.heading, resolvedAll_iff.mpr fun child tail member =>
    resolved.children child tail (List.mem_reverse.mp member)⟩

theorem StartTag.resolved {outer : Bindings} {written : List Char} {e : OpenElement} (tag : StartTag outer written e) :
    e.Resolved outer := by
  obtain ⟨name, given, opened⟩ := tag.exists_opened
  exact ⟨opened.bindings, opened.heading, by simp [opened.noChildren]⟩

theorem OpenElement.Resolved.addText {outer : Bindings} {e : OpenElement} (resolved : e.Resolved outer)
    (more : String) : (e.addText more).Resolved outer := by
  have same : (e.addText more).bindings = e.bindings ∧ (e.addText more).tag = e.tag ∧
      (e.addText more).declarations = e.declarations ∧ (e.addText more).attributes = e.attributes := by
    unfold OpenElement.addText
    split <;> exact ⟨rfl, rfl, rfl, rfl⟩
  obtain ⟨bindings, tag, declarations, attributes⟩ := same
  constructor
  · rw [bindings, declarations]
    exact resolved.bindings
  · rw [bindings, tag, declarations, attributes]
    exact resolved.heading
  · intro child tail member
    obtain ⟨tail, before⟩ := mem_children_addText member
    rw [bindings]
    exact resolved.children child tail before

theorem OpenElement.Resolved.addChild {outer : Bindings} {e : OpenElement} (resolved : e.Resolved outer)
    {child : Child} (new : ∀ inner, child = .element inner → inner.Resolved e.bindings) :
    (e.addChild child).Resolved outer := by
  refine ⟨resolved.bindings, resolved.heading, fun inner tail member => ?_⟩
  rcases List.mem_cons.mp member with same | member
  · exact new inner (Prod.mk.inj same).1.symm
  · exact resolved.children inner tail member

/-- **Open elements are resolved**, by induction over the pieces that were read. -/
theorem Opens.resolved {outer : Bindings} {written : List Char} {e : OpenElement} (opens : Opens outer written e) :
    e.Resolved outer := by
  induction opens with
  | start tag => exact tag.resolved
  | text _ _ _ ih => exact ih.addText _
  | «section» _ _ ih => exact ih.addText _
  | remark _ _ ih => exact ih.addChild fun _ same => Child.noConfusion same
  | empty _ tag ih =>
    refine ih.addChild fun child same => ?_
    obtain rfl := Child.element.inj same
    exact tag.resolved.close
  | element _ _ _ ih within =>
    refine ih.addChild fun child same => ?_
    obtain rfl := Child.element.inj same
    exact within.close

/-- **The elements of a document are resolved.** -/
theorem Spells.resolved {outer : Bindings} {written : List Char} {e : Element} (spells : Spells outer written e) :
    e.Resolved outer := by
  cases spells with
  | empty tag => exact tag.resolved.close
  | whole opens _ => exact opens.resolved.close

theorem resolved_of_readSafely {text : String} {document : Document} (read : Document.readSafely text = .ok document) :
    document.root.Resolved initialBindings := by
  obtain ⟨_, _, -, spells⟩ := spells_of_readSafely read
  exact spells.resolved

end XPathAnnotator.Xml
