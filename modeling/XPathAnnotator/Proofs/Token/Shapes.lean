/-
**Shapes of lexemes.**

The shape of a lexeme is told by its first character and, for points and symbols, by the one after it. The classes of
first characters are apart: blanks, quotes, digits, the characters of symbols, and those that names begin with. So a
rule for a shape need not say that those before it do not apply, unless a symbol of one character is the start of a
longer lexeme.

* `Begins` — the rules, one for each kind of lexeme;
* `lexemeAt?_eq_ok_iff` — **lexemes are cut off by these rules**.
-/

import Mathlib
import XPathAnnotator.Proofs.Token.Names

namespace XPathAnnotator.Token

open XPathAnnotator.Text XPathAnnotator.Name

variable {c : Char} {rest : List Char} {shape : Shape} {count : Nat}

/-! ### Classes of characters -/

theorem all_of_isBlank (holds : Char → Bool) (all : [' ', '\t', '\r', '\n'].all holds = true)
    (blank : isBlank c = true) : holds c = true := by
  have listed : c ∈ [' ', '\t', '\r', '\n'] := by simpa [isBlank, or_assoc] using blank
  exact List.all_eq_true.mp all c listed

/-- A character is neither a blank nor a quote. -/
def Bare (c : Char) : Prop := isBlank c = false ∧ (c == '"' || c == '\'') = false

theorem bare_of_class (ofClass : Char → Bool) (apart : [' ', '\t', '\r', '\n', '"', '\''].all (!ofClass ·) = true)
    (inClass : ofClass c = true) : Bare c := by
  have listed (isMark : c ∈ [' ', '\t', '\r', '\n', '"', '\'']) : False :=
    absurd inClass (by simpa using List.all_eq_true.mp apart c isMark)
  refine ⟨Bool.eq_false_iff.mpr fun blank => listed ?_, Bool.eq_false_iff.mpr fun quote => listed ?_⟩
  · exact List.contains_iff_mem.mp (all_of_isBlank _ (by decide) blank)
  · rcases Bool.or_eq_true_iff.mp quote with same | same
    · simp [beq_iff_eq.mp same]
    · simp [beq_iff_eq.mp same]

/-- The characters that symbols begin with. -/
def symbolStarts : List Char := ['!', ':'] ++ shortSymbols

theorem mem_symbolStarts_of_long (long : c :: rest.take 1 ∈ longSymbols) : c ∈ symbolStarts := by
  have all : longSymbols.all (·.head?.all symbolStarts.contains) = true := by decide
  exact List.contains_iff_mem.mp (List.all_eq_true.mp all _ long)

theorem mem_symbolStarts_of_short (short : c ∈ shortSymbols) : c ∈ symbolStarts := List.mem_append_right _ short

theorem of_mem_symbolStarts (symbol : c ∈ symbolStarts) : Bare c ∧ isDigit c = false := by
  have all : symbolStarts.all (!isDigit ·) = true := by decide
  exact ⟨bare_of_class symbolStarts.contains (by decide) (List.contains_iff_mem.mpr symbol),
    by simpa using List.all_eq_true.mp all c symbol⟩

/-- No digit comes after the point of a symbol of two characters. -/
theorem noFraction_of_long (long : c :: rest.take 1 ∈ longSymbols) : ¬ (c = '.' ∧ rest.head?.any isDigit = true) := by
  have all : longSymbols.all (fun cs => !cs.tail.head?.any isDigit) = true := by decide
  have noDigit := List.all_eq_true.mp all _ long
  rintro ⟨-, digit⟩
  cases rest with
  | nil => cases digit
  | cons d rest => exact absurd digit (by simpa using noDigit)

theorem of_isNameStart (start : isNameStart c = true) : Bare c ∧ isDigit c = false ∧ c ∉ symbolStarts := by
  have noDigit : isDigit c = false := by simpa using (Bool.and_eq_true_iff.mp start).2
  refine ⟨bare_of_class isNameStart (by decide) start, noDigit, fun symbol => ?_⟩
  have all : symbolStarts.all (!isNameStart ·) = true := by decide
  exact absurd start (by simpa using List.all_eq_true.mp all c symbol)

/-! ### Rules -/

/-- The lexeme that starts with a character, by its shape and how many characters of the rest belong to it. -/
inductive Begins (c : Char) (rest : List Char) : Shape → Nat → Prop
  | blank (blank : isBlank c = true) : Begins c rest .blank (rest.takeWhile isBlank).length
  | literal (quote : c = '"' ∨ c = '\'') (closed : c ∈ rest) :
    Begins c rest .literal ((rest.takeWhile (· != c)).length + 1)
  | digits (digit : isDigit c = true) : Begins c rest .number (numberLength (c :: rest) - 1)
  | fraction (point : c = '.') (digit : rest.head?.any isDigit = true) :
    Begins c rest .number (rest.takeWhile isDigit).length
  | long (long : c :: rest.take 1 ∈ longSymbols) : Begins c rest .symbol 1
  | short (short : c ∈ shortSymbols) (noFraction : ¬ (c = '.' ∧ rest.head?.any isDigit = true))
    (noLong : c :: rest.take 1 ∉ longSymbols) : Begins c rest .symbol 0
  | name (start : isNameStart c = true) : Begins c rest .name (qualifiedLength (c :: rest) - 1)

theorem begins_of_lexemeAt? (lexeme : lexemeAt? c rest = .ok (shape, count)) : Begins c rest shape count := by
  unfold lexemeAt? at lexeme
  split at lexeme
  · rename_i blank
    obtain ⟨rfl, rfl⟩ := Prod.mk.inj (Except.ok.inj lexeme)
    exact .blank blank
  split at lexeme
  · rename_i quote
    split at lexeme
    · rename_i closed
      obtain ⟨rfl, rfl⟩ := Prod.mk.inj (Except.ok.inj lexeme)
      exact .literal (by simpa using quote) (List.contains_iff_mem.mp closed)
    · cases lexeme
  split at lexeme
  · rename_i digit
    obtain ⟨rfl, rfl⟩ := Prod.mk.inj (Except.ok.inj lexeme)
    exact .digits digit
  split at lexeme
  · rename_i point
    obtain ⟨rfl, rfl⟩ := Prod.mk.inj (Except.ok.inj lexeme)
    rw [Bool.and_eq_true, beq_iff_eq] at point
    exact .fraction point.1 point.2
  rename_i noFraction
  rw [Bool.and_eq_true, beq_iff_eq] at noFraction
  split at lexeme
  · rename_i long
    obtain ⟨rfl, rfl⟩ := Prod.mk.inj (Except.ok.inj lexeme)
    exact .long (List.contains_iff_mem.mp long)
  rename_i noLong
  rw [List.contains_iff_mem] at noLong
  split at lexeme
  · rename_i short
    obtain ⟨rfl, rfl⟩ := Prod.mk.inj (Except.ok.inj lexeme)
    exact .short (List.contains_iff_mem.mp short) noFraction noLong
  split at lexeme
  · rename_i start
    obtain ⟨rfl, rfl⟩ := Prod.mk.inj (Except.ok.inj lexeme)
    exact .name start
  · cases lexeme

/-- What is no blank, no literal and does not begin with a digit is a fraction, a symbol or a name. -/
theorem lexemeAt?_of_bare (bare : Bare c) (noDigit : isDigit c = false) : lexemeAt? c rest =
    if c = '.' ∧ rest.head?.any isDigit = true then .ok (.number, (rest.takeWhile isDigit).length)
    else if c :: rest.take 1 ∈ longSymbols then .ok (.symbol, 1)
    else if c ∈ shortSymbols then .ok (.symbol, 0)
    else if isNameStart c then .ok (.name, qualifiedLength (c :: rest) - 1)
    else .error (.unexpected c) := by
  rw [lexemeAt?, bare.1, bare.2, noDigit]
  simp only [Bool.false_eq_true, if_false, Bool.and_eq_true, beq_iff_eq, List.contains_iff_mem]

/-- **Lexemes are cut off by the rules.** -/
theorem lexemeAt?_eq_ok_iff : lexemeAt? c rest = .ok (shape, count) ↔ Begins c rest shape count := by
  refine ⟨begins_of_lexemeAt?, fun begins => ?_⟩
  cases begins with
  | blank blank => rw [lexemeAt?, if_pos blank]
  | literal quote closed =>
    have noBlank : isBlank c = false := by rcases quote with rfl | rfl <;> decide
    have isQuote : (c == '"' || c == '\'') = true := by simpa using quote
    rw [lexemeAt?, noBlank, isQuote, List.contains_iff_mem.mpr closed]
    rfl
  | digits digit =>
    have bare := bare_of_class isDigit (by decide) digit
    rw [lexemeAt?, bare.1, bare.2, digit]
    rfl
  | fraction point digit =>
    have symbol : c ∈ symbolStarts := point ▸ by decide
    rw [lexemeAt?_of_bare (of_mem_symbolStarts symbol).1 (of_mem_symbolStarts symbol).2, if_pos ⟨point, digit⟩]
  | long long =>
    have symbol := mem_symbolStarts_of_long long
    rw [lexemeAt?_of_bare (of_mem_symbolStarts symbol).1 (of_mem_symbolStarts symbol).2,
      if_neg (noFraction_of_long long), if_pos long]
  | short short noFraction noLong =>
    have symbol := mem_symbolStarts_of_short short
    rw [lexemeAt?_of_bare (of_mem_symbolStarts symbol).1 (of_mem_symbolStarts symbol).2, if_neg noFraction,
      if_neg noLong, if_pos short]
  | name start =>
    obtain ⟨bare, noDigit, noSymbol⟩ := of_isNameStart start
    have noPoint : ¬ (c = '.' ∧ rest.head?.any isDigit = true) := by
      rintro ⟨rfl, -⟩
      exact noSymbol (by decide)
    rw [lexemeAt?_of_bare bare noDigit, if_neg noPoint, if_neg fun long => noSymbol (mem_symbolStarts_of_long long),
      if_neg fun short => noSymbol (mem_symbolStarts_of_short short), if_pos start]

end XPathAnnotator.Token
