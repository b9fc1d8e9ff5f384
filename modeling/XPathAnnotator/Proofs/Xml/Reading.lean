/-
**What a document is read from.**

The reader keeps the open elements on a stack, and each step takes one piece and changes the innermost of them. So the
characters read so far are, for each element on the stack, its start tag and what came after it up to the start tag of
the next one. When the outermost element is closed, the characters read are those of the root element.

* `StartTag`, `Opens`, `Spells` — the characters of a start tag, of an open element and of a whole one;
* `Stack`, `Stack.extend`, `Stack.close` — the characters of a stack, and what a step does to them;
* `Stack.step`, `Stack.run` — what a step and a run of the reader have read;
* `spells_of_readRoot?`, `spells_of_readSafely` — **the root element is read from its characters**, which come after the
  prolog of a document.
-/

import Mathlib
import XPathAnnotator.Proofs.Xml.Pieces

namespace XPathAnnotator.Xml

open XPathAnnotator.Name XPathAnnotator.Text

/-! ### Characters of elements -/

/-- The characters of a start tag without its end, with the element that it opens within the given bindings. -/
inductive StartTag (bindings : Bindings) : List Char → OpenElement → Prop
  | mk {name : QName} {given : List Char} {attributes : List (QName × String)} {e : OpenElement} (isName : IsName name)
    (spells : SpellsAttributes given attributes) (opens : openElement? bindings name attributes = some e) :
    StartTag bindings ('<' :: (name.text.toList ++ given)) e

/-- The characters of an end tag. -/
def endTag (name : QName) (gap : List Char) : List Char := "</".toList ++ name.text.toList ++ gap ++ ['>']

/-- **The characters of an open element**: its start tag, and the pieces after it. -/
inductive Opens : Bindings → List Char → OpenElement → Prop
  | start {bindings : Bindings} {written : List Char} {e : OpenElement} (tag : StartTag bindings written e) :
    Opens bindings (written ++ ['>']) e
  | text {bindings : Bindings} {written piece after : List Char} {e : OpenElement} {fuel : Nat} {text : String}
    (opens : Opens bindings written e) (noMarkup : '<' ∉ piece)
    (means : readText? [] fuel (piece ++ after) = some (text, after)) :
    Opens bindings (written ++ piece) (e.addText text)
  | section {bindings : Bindings} {written text : List Char} {e : OpenElement} (opens : Opens bindings written e)
    (ends : EndsAtFirst "]]>".toList text) :
    Opens bindings (written ++ ("<![CDATA[".toList ++ text ++ "]]>".toList)) (e.addText (String.ofList text))
  | remark {bindings : Bindings} {written piece : List Char} {e : OpenElement} {remark : Remark}
    (opens : Opens bindings written e) (spells : SpellsRemark piece remark) :
    Opens bindings (written ++ piece) (e.addChild (.remark remark))
  | empty {bindings : Bindings} {written piece : List Char} {e inner : OpenElement} (opens : Opens bindings written e)
    (tag : StartTag e.bindings piece inner) :
    Opens bindings (written ++ (piece ++ "/>".toList)) (e.addChild (.element inner.close))
  | element {bindings : Bindings} {written piece gap : List Char} {e inner : OpenElement}
    (opens : Opens bindings written e) (within : Opens e.bindings piece inner) (blanks : ∀ c ∈ gap, isBlank c = true) :
    Opens bindings (written ++ (piece ++ endTag inner.tag.written gap)) (e.addChild (.element inner.close))

/-- **The characters of a whole element.** -/
inductive Spells (bindings : Bindings) : List Char → Element → Prop
  | empty {written : List Char} {e : OpenElement} (tag : StartTag bindings written e) :
    Spells bindings (written ++ "/>".toList) e.close
  | whole {written gap : List Char} {e : OpenElement} (opens : Opens bindings written e)
    (blanks : ∀ c ∈ gap, isBlank c = true) : Spells bindings (written ++ endTag e.tag.written gap) e.close

/-- The characters of open elements, the innermost first. -/
inductive Stack : List OpenElement → List Char → Prop
  | root {written : List Char} {e : OpenElement} (opens : Opens initialBindings written e) : Stack [e] written
  | inner {written piece : List Char} {e outer : OpenElement} {stack : List OpenElement}
    (around : Stack (outer :: stack) written) (opens : Opens outer.bindings piece e) :
    Stack (e :: outer :: stack) (written ++ piece)

/-! ### Steps -/

section Steps

variable {e changed outer : OpenElement} {stack : List OpenElement} {written piece cs rest : List Char}

/-- **A step at the innermost element** adds its piece to the characters read. -/
theorem Stack.extend (read : Stack (e :: stack) written)
    (step : ∀ bindings written, Opens bindings written e → Opens bindings (written ++ piece) changed) :
    Stack (changed :: stack) (written ++ piece) := by
  cases read with
  | root opens => exact .root (step _ _ opens)
  | inner around opens =>
    rw [List.append_assoc]
    exact .inner around (step _ _ opens)

/-- **An end tag** makes the innermost element a child of the one around it. -/
theorem Stack.close (read : Stack (e :: outer :: stack) written) {gap : List Char}
    (blanks : ∀ c ∈ gap, isBlank c = true) :
    Stack (outer.addChild (.element e.close) :: stack) (written ++ endTag e.tag.written gap) := by
  cases read with
  | inner around opens =>
    rw [List.append_assoc]
    exact around.extend fun _ _ opensOuter => .element opensOuter opens blanks

/-- What comes after the sign of markup in a CDATA section. -/
theorem append_of_readSection? {text : List Char}
    (read : (expect? "[CDATA[" cs).bind (readUntil? [']', ']', '>']) = some (text, rest)) :
    '<' :: '!' :: cs = "<![CDATA[".toList ++ text ++ "]]>".toList ++ rest ∧ EndsAtFirst "]]>".toList text := by
  obtain ⟨after, begins, until_⟩ := Option.bind_eq_some_iff.mp read
  unfold expect? at begins
  dsimp only at begins
  split at begins
  · rename_i here
    obtain ⟨more, same⟩ := List.isPrefixOf_iff_prefix.mp here
    rw [← same, List.drop_left] at begins
    obtain rfl := Option.some.inj begins
    obtain ⟨rfl, ends⟩ := append_of_readUntil? until_
    refine ⟨?_, ends⟩
    rw [← same]
    simp
  · cases begins

/-- The name and the attributes of a start tag. -/
theorem startTag_of_read {bindings : Bindings} {name : QName} {attributes : List (QName × String)} {fuel : Nat}
    {after : List Char} (nameRead : readName? cs = some (name, after))
    (attributesRead : readAttributes? fuel after = some (attributes, rest))
    (opens : openElement? bindings name attributes = some e) :
    ∃ piece, '<' :: cs = piece ++ rest ∧ StartTag bindings piece e := by
  obtain ⟨rfl, isName⟩ := append_of_readName? nameRead
  obtain ⟨given, rfl, spells⟩ := spells_of_readAttributes? attributesRead
  exact ⟨_, by simp, .mk isName spells opens⟩

end Steps

/-! ### Runs -/

section Run

variable {fuel : Nat} {e : OpenElement} {stack : List OpenElement} {written cs rest : List Char} {root : Element}

/-- **A step of the reader** takes one piece and leaves open elements, or it takes the end tag of the root element. -/
theorem Stack.step (open_ : Stack (e :: stack) written)
    (read : readContent? (fuel + 1) (e :: stack) cs = some (root, rest)) :
    (∃ piece after left, cs = piece ++ after ∧ Stack left (written ++ piece) ∧
      readContent? fuel left after = some (root, rest)) ∨
    ∃ used, cs = used ++ rest ∧ Spells initialBindings (written ++ used) root := by
  unfold readContent? at read
  split at read
  · split at read
    · rename_i remark after comment
      obtain ⟨piece, whole, spells⟩ := spells_of_readComment? comment
      exact .inl ⟨piece, after, _, whole, open_.extend fun _ _ opens => opens.remark spells, read⟩
    · cases read
  · split at read
    · rename_i text after cdata
      obtain ⟨whole, ends⟩ := append_of_readSection? cdata
      exact .inl ⟨_, after, _, whole, open_.extend fun _ _ opens => opens.section ends, read⟩
    · cases read
  · split at read
    · rename_i remark after instruction
      obtain ⟨piece, whole, spells⟩ := spells_of_readInstruction? instruction
      exact .inl ⟨piece, after, _, whole, open_.extend fun _ _ opens => opens.remark spells, read⟩
    · cases read
  · split at read
    · cases read
    rename_i name following nameRead
    obtain ⟨rfl, -⟩ := append_of_readName? nameRead
    split at read
    · rename_i after closes
      obtain ⟨gap, blanks, sameGap⟩ := append_of_skipBlanks following
      split at read
      · rename_i same
        subst same
        have whole : '<' :: '/' :: (e.tag.written.text.toList ++ following) =
            endTag e.tag.written gap ++ after := by
          rw [sameGap, closes]
          simp [endTag]
        cases stack with
        | nil =>
          obtain ⟨rfl, rfl⟩ := Prod.mk.inj (Option.some.inj read)
          cases open_ with
          | root opens => exact .inr ⟨_, whole, .whole opens blanks⟩
        | cons outer stack => exact .inl ⟨_, after, _, whole, open_.close blanks, read⟩
      · cases read
    · cases read
  · split at read
    · cases read
    split at read
    · cases read
    split at read
    · cases read
    rename_i name _ nameRead _ attributes _ attributesRead _ inner opens
    obtain ⟨piece, whole, tag⟩ := startTag_of_read nameRead attributesRead opens
    rw [whole]
    split at read
    · exact .inl ⟨piece ++ ['>'], _, _, by simp, .inner open_ (.start tag), read⟩
    · exact .inl ⟨piece ++ "/>".toList, _, _, by simp, open_.extend fun _ _ opens => opens.empty tag, read⟩
    · cases read
  · cases read
  · split at read
    · rename_i text after textRead
      obtain ⟨piece, rfl, noMarkup⟩ := append_of_readText? textRead
      exact .inl ⟨piece, after, _, rfl, open_.extend fun _ _ opens => opens.text noMarkup textRead, read⟩
    · cases read

/-- **What a run of the reader has read** are the characters of the root element, by induction over its steps. -/
theorem Stack.run (open_ : Stack stack written) (read : readContent? fuel stack cs = some (root, rest)) :
    ∃ used, cs = used ++ rest ∧ Spells initialBindings (written ++ used) root := by
  induction fuel generalizing stack written cs with
  | zero => cases read
  | succ fuel ih =>
    cases stack with
    | nil => cases open_
    | cons e stack =>
      rcases open_.step read with ⟨piece, after, left, rfl, opens, more⟩ | whole
      · obtain ⟨used, rfl, spells⟩ := ih opens more
        rw [List.append_assoc] at spells
        exact ⟨piece ++ used, (List.append_assoc ..).symm, spells⟩
      · exact whole

end Run

/-- **The root element is read from its characters.** -/
theorem spells_of_readRoot? {cs rest : List Char} {root : Element} (read : readRoot? cs = some (root, rest)) :
    ∃ used, cs = used ++ rest ∧ Spells initialBindings used root := by
  unfold readRoot? at read
  split at read
  · split at read
    · cases read
    split at read
    · cases read
    split at read
    · cases read
    rename_i name _ nameRead _ attributes _ attributesRead _ inner opens
    obtain ⟨piece, whole, tag⟩ := startTag_of_read nameRead attributesRead opens
    rw [whole]
    split at read
    · obtain ⟨used, rfl, spells⟩ := (Stack.root (.start tag)).run read
      exact ⟨_, by simp, spells⟩
    · obtain ⟨rfl, rfl⟩ := Prod.mk.inj (Option.some.inj read)
      exact ⟨_, by simp, .empty tag⟩
    · cases read
  · cases read

theorem spells_of_readSafely {text : String} {document : Document} (read : Document.readSafely text = .ok document) :
    ∃ used after, (Prolog.read (documentChars text).1).rest = some (used ++ after) ∧
      Spells initialBindings used document.root := by
  unfold Document.readSafely at read
  split at read
  · cases read
  split at read
  · rename_i found
    obtain rfl := Except.ok.inj read
    unfold Document.read at found
    dsimp only at found
    split at found
    · cases found
    · rename_i root rest rootRead
      obtain ⟨cs, afterProlog, rootRead⟩ := Option.bind_eq_some_iff.mp rootRead
      obtain ⟨used, rfl, spells⟩ := spells_of_readRoot? rootRead
      split at found
      · split at found
        · obtain rfl := Option.some.inj found
          exact ⟨used, rest, afterProlog, spells⟩
        · cases found
      · cases found
  · cases read

end XPathAnnotator.Xml
