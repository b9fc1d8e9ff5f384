/-
**The language of a node.**

An element may name a language in its `xml:lang`, and then it is the language of all that stands in it, down to the
next element that names one. The function `lang` asks whether the language of the node of the focus is a given one or
a part of it. It looks for the nearest `xml:lang` on a row of elements that begins at the node, or above it for
attributes and namespace nodes. For a text, a comment or a processing instruction this row is empty, so the answer is
no, whatever language they are in.

* `Forest.NearestLanguage` — the language of a node, told by the way to its root;
* `findSome?_leadingElements` — from an element, looking along elements only overlooks nothing;
* `hasLanguage_iff` — what is looked for from any node;
* `evalIn_lang` — **what `lang` answers at every node**;
* `evalIn_lang_text` — a text in the language that is asked for, to which the answer is no.
-/

import Mathlib
import XPathAnnotator.Proofs.Eval.VirtualRoot

namespace XPathAnnotator

/-- Whether a node is a text, a comment or a processing instruction. -/
def Forest.IsLeaf (f : Forest) (n : Node) : Prop :=
  f.kind n = .text ∨ f.kind n = .comment ∨ f.kind n = .instruction

instance (f : Forest) (n : Node) : Decidable (f.IsLeaf n) :=
  inferInstanceAs (Decidable (f.kind n = .text ∨ f.kind n = .comment ∨ f.kind n = .instruction))

/-- The `xml:lang` of a node. -/
def Forest.ownLanguage? (f : Forest) (n : Node) : Option String := f.attributeIn? n Name.xmlUri "lang"

/-- Whether a value is the `xml:lang` of the first element with one on the way from a node, itself included, to the
root. -/
def Forest.NearestLanguage (f : Forest) (n : Node) (value : String) : Prop :=
  ∃ before e after, f.lineage n = before ++ e :: after ∧ (∀ k ∈ before, f.ownLanguage? k = none) ∧
    f.kind e = .element ∧ f.ownLanguage? e = some value

/-- Whether a value of `xml:lang`, without the blanks around it and without regard to case, is a language or a part
of it. -/
def NamesLanguage (language value : String) : Prop :=
  Text.toLower (Text.trimSpaces value) = Text.toLower language ∨
    (Text.toLower language ++ "-").toList <+: (Text.toLower (Text.trimSpaces value)).toList

namespace Forest

variable {f : Forest} {n : Node}

theorem isElement_iff : f.isElement n = true ↔ f.kind n = .element := by
  rw [isElement, beq_iff_eq]

/-- Only elements have an `xml:lang`. -/
theorem kind_of_ownLanguage? {value : String} (own : f.ownLanguage? n = some value) : f.kind n = .element := by
  unfold ownLanguage? attributeIn? at own
  cases n with
  | binding owner index => cases own
  | item id =>
    cases found : f.element? id with
    | none =>
      rw [attributes, found] at own
      cases own
    | some data =>
      unfold element? at found
      split at found
      next known => simp only [kind, known, Option.map_some, Option.getD_some, Content.kind]
      next => cases found

theorem nearestLanguage_iff {value : String} :
    f.NearestLanguage n value ↔ (f.lineage n).findSome? f.ownLanguage? = some value := by
  rw [List.findSome?_eq_some_iff]
  constructor
  · rintro ⟨before, e, after, way, none, -, own⟩
    exact ⟨before, e, after, way, own, none⟩
  · rintro ⟨before, e, after, way, own, none⟩
    exact ⟨before, e, after, way, none, kind_of_ownLanguage? own, own⟩

theorem ownLanguage?_eq_none (other : f.kind n ≠ .element) : f.ownLanguage? n = none := by
  cases own : f.ownLanguage? n with
  | none => rfl
  | some value => exact absurd (kind_of_ownLanguage? own) other

end Forest

/-- A language of which the value is known is decided by that value. -/
theorem isLanguage_iff {language value : String} :
    CoreFunction.isLanguage (Text.toLower language) value = true ↔ NamesLanguage language value := by
  unfold CoreFunction.isLanguage
  rw [Bool.or_eq_true, beq_iff_eq, Text.startsWith, List.isPrefixOf_iff_prefix]
  rfl

/-- What is found on the row of elements decides. -/
theorem hasLanguage_iff_of_row (f : Forest) (n : Node) (language : String) :
    CoreFunction.hasLanguage f n (Text.toLower language) = true ↔
      ∃ value, (CoreFunction.leadingElements f
          (if (f.kind n).isAttributeLike then f.ancestors n else f.lineage n)).findSome? f.ownLanguage? = some value ∧
        NamesLanguage language value := by
  obtain ⟨nearest, first⟩ : ∃ nearest, (CoreFunction.leadingElements f
      (if (f.kind n).isAttributeLike then f.ancestors n else f.lineage n)).findSome? f.ownLanguage? = nearest :=
    ⟨_, rfl⟩
  unfold CoreFunction.hasLanguage
  dsimp only
  split
  next value found =>
    have same : nearest = some value := first.symm.trans found
    simp only [isLanguage_iff, first, same, Option.some.injEq, exists_eq_left']
  next none =>
    have same : nearest = Option.none := first.symm.trans none
    simp only [first, same, Bool.false_eq_true, reduceCtorEq, false_and, exists_false]

section Looking

open CoreFunction

variable {f : Forest} {n : Node} (linked : f.Linked) (inside : f.Has n)
  (onTop : ∀ d, f.Covers d n → f.kind d = .document → f.parent? d = none)

include linked inside onTop

/-- **From an element or a document**, looking along elements only overlooks no `xml:lang`: above elements there is
one document at most. -/
theorem findSome?_leadingElements (kind : f.kind n = .element ∨ f.kind n = .document) :
    (leadingElements f (f.lineage n)).findSome? f.ownLanguage? = (f.lineage n).findSome? f.ownLanguage? := by
  refine linked.climb (P := fun n => f.Has n → (∀ d, f.Covers d n → f.kind d = .document → f.parent? d = none) →
    (f.kind n = .element ∨ f.kind n = .document) → (leadingElements f (f.lineage n)).findSome? f.ownLanguage? =
      (f.lineage n).findSome? f.ownLanguage?) (fun n ih inside onTop kind => ?_) n inside onTop kind
  rcases kind with element | document
  · have first : f.isElement n = Bool.true := Forest.isElement_iff.mpr element
    cases parent : f.parent? n with
    | none =>
      rw [Forest.lineage, Forest.ancestors_eq_nil parent, leadingElements, List.takeWhile_cons_of_pos first,
        List.takeWhile_nil]
    | some p =>
      have above : f.Covers (.item p) n := .of_parent parent (Forest.covers_self _)
      rw [linked.lineage_eq parent, leadingElements, List.takeWhile_cons_of_pos first, List.findSome?_cons,
        List.findSome?_cons]
      cases f.ownLanguage? n with
      | some value => rfl
      | none =>
        exact ih p parent (inside.parent linked parent) (fun d covers => onTop d (covers.trans above))
          (Forest.hangs_of_parent linked inside parent).kind
  · have noElement : f.kind n ≠ .element := by
      rw [document]
      decide
    rw [Forest.lineage, Forest.ancestors_eq_nil (onTop n (Forest.covers_self n) document), leadingElements,
      List.takeWhile_cons_of_neg (mt Forest.isElement_iff.mp noElement), List.findSome?_cons,
      Forest.ownLanguage?_eq_none noElement]

/-- **From attributes and namespace nodes** the row begins above them, and they have no `xml:lang` themselves. -/
theorem findSome?_ancestors (kind : (f.kind n).isAttributeLike = Bool.true) :
    (leadingElements f (f.ancestors n)).findSome? f.ownLanguage? = (f.lineage n).findSome? f.ownLanguage? := by
  have noElement : f.kind n ≠ .element := by
    intro element
    rw [element] at kind
    exact absurd kind (by decide)
  rw [Forest.lineage, List.findSome?_cons, Forest.ownLanguage?_eq_none noElement]
  cases parent : f.parent? n with
  | none =>
    rw [Forest.ancestors_eq_nil parent]
    rfl
  | some p =>
    have above : f.Covers (.item p) n := .of_parent parent (Forest.covers_self _)
    rw [linked.ancestors_eq parent]
    exact findSome?_leadingElements linked (inside.parent linked parent)
      (fun d covers => onTop d (covers.trans above)) (Forest.hangs_of_parent linked inside parent).kind

/-- **What is looked for**: nothing from a text, a comment or a processing instruction, and the nearest `xml:lang`
from all other nodes. -/
theorem hasLanguage_iff (language : String) :
    hasLanguage f n (Text.toLower language) = Bool.true ↔
      ¬ f.IsLeaf n ∧ ∃ value, f.NearestLanguage n value ∧ NamesLanguage language value := by
  simp only [hasLanguage_iff_of_row, Forest.nearestLanguage_iff]
  split
  next attributeLike =>
    have noLeaf : ¬ f.IsLeaf n := by
      rintro (kind | kind | kind) <;> rw [kind] at attributeLike <;> exact absurd attributeLike (by decide)
    rw [findSome?_ancestors linked inside onTop attributeLike, and_iff_right noLeaf]
  next other =>
    by_cases leaf : f.IsLeaf n
    · have noElement : ¬ f.isElement n = Bool.true := by
        rw [Forest.isElement_iff]
        rcases leaf with kind | kind | kind <;> rw [kind] <;> decide
      have nothing : leadingElements f (f.lineage n) = [] := List.takeWhile_cons_of_neg noElement
      rw [nothing]
      exact iff_of_false (fun ⟨_, found, _⟩ => Option.some_ne_none _ found.symm) fun both => both.1 leaf
    · have kind : f.kind n = .element ∨ f.kind n = .document := by
        unfold Forest.IsLeaf at leaf
        cases kind : f.kind n <;> simp [kind, NodeKind.isAttributeLike] at leaf other ⊢
      rw [findSome?_leadingElements linked inside onTop kind, and_iff_right leaf]

end Looking

/-! ### Calls -/

/-- **What `lang` answers.** At every node above which documents have no parent the call has a truth value. It is true
exactly if the node is no text, comment or processing instruction, and the first element with an `xml:lang` on the way
from the node to the root, the node included, names the language that is asked for, or a part of it. -/
theorem evalIn_lang {env : Environment (Except EvalError)} {focus : Focus} {n : Node} {language : Expr} {value : Value}
    (made : env.forest.Made) (inside : env.forest.Has n) (start : focus.node = some n)
    (onTop : ∀ d, env.forest.Covers d n → env.forest.kind d = .document → env.forest.parent? d = none)
    (core : env.functionNamed? "lang" "" = some CoreFunction.lang.call)
    (asked : language.evalIn env focus = .ok value) :
    ∃ answer, (Expr.call ⟨none, "lang"⟩ [language]).evalIn env focus = .ok (.truth answer) ∧
      (answer = true ↔ ¬ env.forest.IsLeaf n ∧ ∃ own, env.forest.NearestLanguage n own ∧
        NamesLanguage (value.toText env.forest) own) := by
  refine ⟨_, ?_, hasLanguage_iff made.linked_positioned.1 inside onTop _⟩
  rw [Expr.evalIn, Environment.uriOfName]
  simp only [pure, bind, Except.pure, Except.bind, core, Expr.arguments, CoreFunction.call, CoreFunction.textOf, asked,
    Focus.theNode, start]

/-- A letter in English, with a numbered line. -/
def letter : Xml.Document where
  before := []
  root := .mk ⟨⟨none, "letter"⟩, ""⟩ [] [⟨⟨⟨some "xml", "lang"⟩, Name.xmlUri⟩, "EN-gb"⟩] ""
    [(.element (.mk ⟨⟨none, "line"⟩, ""⟩ [] [⟨⟨⟨none, "id"⟩, ""⟩, "1"⟩] "Dear Sir" []), "")]
  after := []

/-- An environment with the letter and the core functions. -/
def letterEnvironment : Environment (Except EvalError) :=
  { noteEnvironment with
    forest := (Forest.empty.build .parsed none letter).1
    functionNamed? := resolveFunction? .absent }

/-- The truth value of a result. -/
def truthOf? (result : Except EvalError Value) : Option Bool :=
  match result with
  | .ok (.truth answer) => some answer
  | _ => none

theorem made_letter : letterEnvironment.forest.Made := .build _ _ _ .empty

/-- From the number of the line, which stands in a letter in British English, the language is English. -/
theorem evalIn_lang_number :
    letterEnvironment.forest.Made ∧ letterEnvironment.forest.Has (.item 4) ∧
    letterEnvironment.forest.kind (.item 4) = .attribute ∧
    (∀ d, letterEnvironment.forest.Covers d (.item 4) → letterEnvironment.forest.kind d = .document →
      letterEnvironment.forest.parent? d = none) ∧
    letterEnvironment.functionNamed? "lang" "" = some CoreFunction.lang.call ∧
    (Expr.call ⟨none, "lang"⟩ [.text "En"]).evalIn letterEnvironment (Focus.start (some (.item 4))) =
      .ok (.truth true) ∧
    ∃ own, letterEnvironment.forest.NearestLanguage (.item 4) own ∧ NamesLanguage "En" own := by
  have inside : letterEnvironment.forest.Has (.item 4) := by decide +kernel
  have onTop : ∀ d, letterEnvironment.forest.Covers d (.item 4) → letterEnvironment.forest.kind d = .document →
      letterEnvironment.forest.parent? d = none := by
    have along : ∀ d ∈ letterEnvironment.forest.lineage (.item 4), letterEnvironment.forest.kind d = .document →
        letterEnvironment.forest.parent? d = none := by decide +kernel
    rintro d (rfl | above)
    · exact along _ List.mem_cons_self
    · exact along d (List.mem_cons_of_mem _ (made_letter.linked_positioned.1.mem_ancestors.mpr above))
  have asked : (Expr.text "En").evalIn letterEnvironment (Focus.start (some (.item 4))) = .ok (.text "En") := by
    rw [Expr.evalIn]
    rfl
  obtain ⟨answer, given, told⟩ := evalIn_lang made_letter inside rfl onTop rfl asked
  have yes : truthOf? ((Expr.call ⟨none, "lang"⟩ [.text "En"]).evalIn letterEnvironment
      (Focus.start (some (.item 4)))) = some true := by decide +kernel
  rw [given] at yes
  obtain rfl := Option.some.inj yes
  exact ⟨made_letter, inside, by decide +kernel, onTop, rfl, given, (told.mp rfl).2⟩

/-- **The text of the line** stands in the same letter and is in no other language, but there the answer is no. -/
theorem evalIn_lang_text :
    (∃ own, letterEnvironment.forest.NearestLanguage (.item 5) own ∧ NamesLanguage "en" own) ∧
    letterEnvironment.forest.kind (.item 5) = .text ∧
    truthOf? ((Expr.call ⟨none, "lang"⟩ [.text "en"]).evalIn letterEnvironment
      (Focus.start (some (.item 5)))) = some false := by
  refine ⟨⟨"EN-gb", ?_, .inr ?_⟩, by decide +kernel, by decide +kernel⟩
  · rw [Forest.nearestLanguage_iff]
    decide +kernel
  · decide

end XPathAnnotator
