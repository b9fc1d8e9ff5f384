/-
**Pieces of written expressions.**

A written expression is a row of words and marks. A word goes on up to the next mark, so it can be told from what
comes after it. So can node tests, and lists whose items begin with a mark. The first character of an expression
tells its form, apart from those that begin with a word.

* `word_injective`, `each_injective` — words and lists;
* `test_injective` — **the written form tells a node test**;
* `lead_eq` — expressions with the same text have the same kind of first character.
-/

import Mathlib
import XPathAnnotator.Proofs.Expr.Writing
import XPathAnnotator.Proofs.Number.Written

namespace XPathAnnotator

open XPathAnnotator.Name XPathAnnotator.Text XPathAnnotator.Token

/-! ### What comes next -/

/-- One of some characters comes next, or nothing. -/
def Next (characters rest : List Char) : Prop := ∀ c ∈ rest.head?, c ∈ characters

/-- What may come after an expression. -/
def afterExpr : List Char := [' ', ')', ']', ',']

/-- What may come after a step. -/
def afterStep : List Char := '/' :: afterExpr

/-- What may come after an operand or a node test. -/
def afterOperand : List Char := '[' :: afterStep

section Next

variable {characters more rest : List Char} {c : Char}

theorem next_nil : Next characters [] := by simp [Next]

theorem next_cons (member : c ∈ characters) (rest : List Char) : Next characters (c :: rest) := by
  rintro d ⟨rfl⟩
  exact member

theorem Next.mono (next : Next characters rest) (subset : characters ⊆ more) : Next more rest :=
  fun c head => subset (next c head)

theorem Next.ne_cons (next : Next characters rest) (absent : c ∉ characters) (cs : List Char) : rest ≠ c :: cs := by
  rintro rfl
  exact absent (next c rfl)

end Next

/-! ### Lists -/

/-- **A list whose items begin with a mark** can be told from what comes after it, if its items can. -/
theorem each_injective {α : Type} {write : α → List Char} {mark : Char} {after : List Char} {holds : α → Prop}
    {xs ys : List α} {rest rest' : List Char} (begins : ∀ x, ∃ cs, write x = mark :: cs)
    (each : ∀ x ∈ xs, ∀ y, holds y → ∀ rest rest', Next (mark :: after) rest → Next (mark :: after) rest' →
      write x ++ rest = write y ++ rest' → x = y ∧ rest = rest')
    (all : ∀ y ∈ ys, holds y) (absent : mark ∉ after) (next : Next after rest) (next' : Next after rest')
    (same : xs.flatMap write ++ rest = ys.flatMap write ++ rest') : xs = ys ∧ rest = rest' := by
  have leads (zs : List α) {rest : List Char} (next : Next after rest) :
      Next (mark :: after) (zs.flatMap write ++ rest) := by
    cases zs with
    | nil => exact next.mono (List.subset_cons_self _ _)
    | cons z zs =>
      obtain ⟨cs, written⟩ := begins z
      rw [List.flatMap_cons, written]
      exact next_cons List.mem_cons_self _
  have apart (z : α) (zs : List α) {rest : List Char} (next : Next after rest) (others : List Char) :
      rest ≠ (z :: zs).flatMap write ++ others := by
    obtain ⟨cs, written⟩ := begins z
    rw [List.flatMap_cons, written]
    exact next.ne_cons absent _
  induction xs generalizing ys with
  | nil =>
    cases ys with
    | nil => exact ⟨rfl, same⟩
    | cons y ys => exact absurd same (apart y ys next rest')
  | cons x xs ih =>
    cases ys with
    | nil => exact absurd same.symm (apart x xs next' rest)
    | cons y ys =>
      rw [List.flatMap_cons, List.flatMap_cons, List.append_assoc, List.append_assoc] at same
      obtain ⟨rfl, sameRest⟩ := each x List.mem_cons_self y (all y List.mem_cons_self) _ _ (leads xs next)
        (leads ys next') same
      obtain ⟨rfl, done⟩ := ih (fun x member => each x (List.mem_cons_of_mem _ member))
        (fun y member => all y (List.mem_cons_of_mem _ member)) sameRest
      exact ⟨rfl, done⟩

/-! ### Words -/

/-- Whether a character stands in words: in names, between their parts, or in their place. -/
def inWord (c : Char) : Bool := isNameChar c || c == ':' || c == '*'

theorem inWord_of_isNameChar {c : Char} (isName : isNameChar c = true) : inWord c = true := by simp [inWord, isName]

theorem not_inWord_of_mem {c : Char} (mark : c ∈ '(' :: afterOperand) : inWord c = false := by
  have all : ('(' :: afterOperand).all (fun c => !inWord c) = true := by decide
  simpa using List.all_eq_true.mp all c mark

/-- **A word can be told from what comes after it.** -/
theorem word_injective {word word' rest rest' : List Char} (all : ∀ c ∈ word, inWord c = true)
    (all' : ∀ c ∈ word', inWord c = true) (next : Next ('(' :: afterOperand) rest)
    (next' : Next ('(' :: afterOperand) rest') (same : word ++ rest = word' ++ rest') : word = word' ∧ rest = rest' :=
  run_injective all all' (fun c head => not_inWord_of_mem (next c head)) (fun c head => not_inWord_of_mem (next' c head))
    same

theorem inWord_of_all {cs : List Char} (all : cs.all inWord = true) : ∀ c ∈ cs, inWord c = true :=
  List.all_eq_true.mp all

theorem inWord_of_isNCName {text : String} (isName : isNCName text = true) : ∀ c ∈ text.toList, inWord c = true :=
  fun _ member => inWord_of_isNameChar (isNameChar_of_isNCName isName member)

theorem inWord_text {name : QName} (parts : name.Proper ∨ name.Starred) :
    ∀ c ∈ name.text.toList, inWord c = true := by
  have qualified {qualifier localPart : String} (isName : isNCName qualifier = true)
      (all : ∀ c ∈ localPart.toList, inWord c = true) :
      ∀ c ∈ (QName.text ⟨some qualifier, localPart⟩).toList, inWord c = true := by
    rw [QName.toList_text_qualified]
    exact List.forall_mem_append.mpr ⟨inWord_of_isNCName isName, List.forall_mem_cons.mpr ⟨by decide, all⟩⟩
  rcases parts with proper | ⟨qualifier, isName, rfl⟩
  · obtain ⟨qualifier?, localPart⟩ := name
    cases qualifier? with
    | none => exact inWord_of_isNCName proper.localPart
    | some qualifier => exact qualified (proper.qualifier qualifier rfl) (inWord_of_isNCName proper.localPart)
  · exact qualified isName (inWord_of_all (by decide))

/-- A name has at most one colon. -/
theorem count_colon_text {name : QName} (proper : name.Proper) : name.text.toList.count ':' ≤ 1 := by
  have absent {text : String} (isName : isNCName text = true) : text.toList.count ':' = 0 :=
    List.count_eq_zero.mpr (not_mem_of_isNCName isName (by decide))
  obtain ⟨qualifier?, localPart⟩ := name
  cases qualifier? with
  | none => exact (absent proper.localPart).le.trans (Nat.zero_le 1)
  | some qualifier =>
    rw [QName.toList_text_qualified, List.count_append, List.count_cons_self, absent proper.localPart,
      absent (proper.qualifier qualifier rfl)]

theorem inWord_of_isDigit {c : Char} (digit : c.isDigit = true) : inWord c = true := by
  have letter : c.isAlphanum = true := by simp [Char.isAlphanum, digit]
  simp [inWord, isNameChar, isWord, Number.code_lt_of_isDigit digit, letter]

/-- A number without sign is written as one word without colon. -/
theorem inWord_toText {value : Float} (unsigned : Number.Unsigned value) :
    (∀ c ∈ (Number.toText value).toList, inWord c = true) ∧ ':' ∉ (Number.toText value).toList := by
  rcases Number.written_cases unsigned with ⟨_, whole, fraction, _, digits, written, _⟩ | rfl | rfl
  · rw [written, String.toList_ofList]
    refine ⟨fun c member => ?_, fun colon => ?_⟩
    · rcases digits.mem_numeral member with digit | rfl
      · exact inWord_of_isDigit digit
      · decide
    · rcases digits.mem_numeral colon with digit | point
      · exact absurd digit (by decide)
      · exact absurd point (by decide)
  · rw [Number.toText_infinity]
    exact ⟨inWord_of_all (by decide), by decide⟩
  · rw [Number.toText_notANumber]
    exact ⟨inWord_of_all (by decide), by decide⟩

/-! ### Node tests -/

namespace NodeTest

/-- The word of a node test. -/
def word : NodeTest → String
  | anyName => "*"
  | anyNameIn qualifier => qualifier ++ ":*"
  | .name written => written.text
  | comment => "comment"
  | .text => "text"
  | instruction _ => "processing-instruction"
  | anyNode => "node"

/-- What comes after the word of a node test: nothing, or parentheses with a target or without. -/
def argument? : NodeTest → Option (Option String)
  | comment | .text | anyNode => some none
  | instruction target? => some target?
  | _ => none

/-- The node test with a word and what comes after it. -/
def ofParts (word : String) : Option (Option String) → NodeTest
  | none =>
    if word = "*" then .anyName else if word.endsWith ":*" then .anyNameIn (Expr.qualifierOf word)
    else .name (QName.ofText word)
  | some none =>
    if word = "comment" then .comment else if word = "text" then .text else if word = "node" then .anyNode
    else .instruction none
  | some (some target) => .instruction (some target)

/-- What comes after the word of a node test, as it is written. -/
def bracket : Option (Option String) → List Char
  | none => []
  | some none => ['(', ')']
  | some (some target) => '(' :: '"' :: (target.toList ++ ['"', ')'])

theorem toList_print (test : NodeTest) : test.print.toList = test.word.toList ++ bracket test.argument? := by
  cases test with
  | instruction target? =>
    cases target? with
    | none => decide
    | some target =>
      have opening : "processing-instruction(\"".toList = "processing-instruction".toList ++ ['(', '"'] := by
        decide
      have closing : "\")".toList = ['"', ')'] := rfl
      unfold print word argument? bracket
      simp only [String.toList_append, opening, closing, List.append_assoc, List.cons_append, List.nil_append]
  | anyName | anyNameIn | name => exact (List.append_nil _).symm
  | comment | text | anyNode => rfl

variable {test test' : NodeTest}

theorem inWord_word (made : test.Made) : ∀ c ∈ test.word.toList, inWord c = true := by
  cases test with
  | anyNameIn qualifier =>
    rw [word, String.toList_append]
    exact List.forall_mem_append.mpr ⟨inWord_of_isNCName made, inWord_of_all (by decide)⟩
  | name written => exact inWord_text (.inl made)
  | instruction target? => exact @inWord_of_all "processing-instruction".toList (by decide)
  | _ => exact inWord_of_all (by decide)

/-- A node test is made of its word and what comes after it. -/
theorem ofParts_eq (made : test.Made) : ofParts test.word test.argument? = test := by
  cases test with
  | anyNameIn qualifier =>
    have other : qualifier ++ ":*" ≠ "*" := by
      intro same
      have colon : ':' ∈ (qualifier ++ ":*").toList := by simp
      rw [same] at colon
      exact absurd colon (by decide)
    unfold ofParts word argument?
    simp only [if_neg other, QName.endsWith_star, if_true, Expr.qualifierOf_append]
  | name written =>
    have other : written.text ≠ "*" := fun same => QName.Proper.star_not_mem made (by rw [same]; decide)
    unfold ofParts word argument?
    simp only [if_neg other, QName.Proper.endsWith_star made, QName.ofText_text (.inl made), Bool.false_eq_true,
      if_false]
  | instruction target? => cases target? <;> rfl
  | _ => rfl

theorem bracket_injective {target? target?' : Option (Option String)} {rest rest' : List Char}
    (legible : ∀ target ∈ target?.join, '"' ∉ target.toList)
    (legible' : ∀ target ∈ target?'.join, '"' ∉ target.toList)
    (next : Next afterOperand rest) (next' : Next afterOperand rest')
    (same : bracket target? ++ rest = bracket target?' ++ rest') : target? = target?' ∧ rest = rest' := by
  have noOpening {rest : List Char} (next : Next afterOperand rest) (cs : List Char) : rest ≠ '(' :: cs :=
    next.ne_cons (by decide) cs
  match target?, target?' with
  | none, none => exact ⟨rfl, same⟩
  | none, some none | none, some (some _) => exact absurd same (noOpening next _)
  | some none, none | some (some _), none => exact absurd same.symm (noOpening next' _)
  | some none, some none => exact ⟨rfl, List.append_cancel_left same⟩
  | some none, some (some _) | some (some _), some none =>
    exact absurd (List.cons.inj (List.cons.inj same).2).1 (by decide)
  | some (some target), some (some target') =>
    have inside : target.toList ++ '"' :: (')' :: rest) = target'.toList ++ '"' :: (')' :: rest') := by
      simpa [bracket] using same
    obtain ⟨sameTarget, sameRest⟩ := append_mark_injective (legible target rfl) (legible' target' rfl) inside
    obtain rfl := String.toList_injective sameTarget
    exact ⟨rfl, (List.cons.inj sameRest).2⟩

theorem Legible.target (legible : test.Legible) : ∀ target ∈ test.argument?.join, '"' ∉ target.toList := by
  cases test with
  | instruction target? =>
    cases target? with
    | none => simp [argument?]
    | some target =>
      rintro _ ⟨rfl⟩
      exact legible
  | _ => simp [argument?]

theorem next_bracket {rest : List Char} (next : Next afterOperand rest) (target? : Option (Option String)) :
    Next ('(' :: afterOperand) (bracket target? ++ rest) := by
  match target? with
  | none => exact next.mono (List.subset_cons_self _ _)
  | some none | some (some _) => exact next_cons List.mem_cons_self _

/-- **The written form tells a node test.** -/
theorem test_injective {rest rest' : List Char} (made : test.Made) (made' : test'.Made) (legible : test.Legible)
    (legible' : test'.Legible) (next : Next afterOperand rest) (next' : Next afterOperand rest')
    (same : test.print.toList ++ rest = test'.print.toList ++ rest') : test = test' ∧ rest = rest' := by
  rw [toList_print, toList_print, List.append_assoc, List.append_assoc] at same
  obtain ⟨sameWord, after⟩ := word_injective (inWord_word made) (inWord_word made') (next_bracket next _)
    (next_bracket next' _) same
  obtain ⟨sameArgument, sameRest⟩ := bracket_injective legible.target legible'.target next next' after
  refine ⟨?_, sameRest⟩
  rw [← ofParts_eq made, ← ofParts_eq made', String.toList_injective sameWord, sameArgument]

end NodeTest

end XPathAnnotator
