/-
**Spacing between tokens.**

Cutting a text into tokens loses nothing but runs of blanks: the text is the lexemes of its tokens in order, with
blanks before, between and after them. How long these runs are does not matter, as long as there is one between any
two lexemes. Then no lexeme goes on with the next one, and every name sees the same after it: a name looks past blanks
for two colons or a parenthesis, and past this one and more blanks for a quote, and no other lexeme begins so.

* `IsLexeme`, `Spaced` — lexemes of tokens, and rows of them between runs of blanks;
* `lexemeAt?_again` — a lexeme before a blank is as long as it was;
* `classifyName_eq_of_spaced` — a name sees the tokens after it, not their spacing;
* `tokenize_spacing` — what is cut into tokens is spaced, and spaced in another way it is cut into the same tokens.
-/

import Mathlib
import XPathAnnotator.Proofs.Token.Lexemes
import XPathAnnotator.Proofs.Token.Lexing

namespace XPathAnnotator.Token

open XPathAnnotator.Text XPathAnnotator.Name

/-! ### Layout -/

/-- A run of blanks, which may be empty. -/
def Blanks (gap : List Char) : Prop := ∀ c ∈ gap, isBlank c = true

/-- How a token is written: a literal between two quotes of a kind that it does not hold, all others as their texts. -/
def IsLexeme (token : Token) (cs : List Char) : Prop :=
  match token.kind with
  | .literal => ∃ quote, (quote = '"' ∨ quote = '\'') ∧ quote ∉ token.text.toList ∧
      cs = quote :: (token.text.toList ++ [quote])
  | _ => cs = token.text.toList

/-- Lexemes of tokens with a run of blanks after each one, where those between two lexemes are as required. -/
inductive Joined (between : List Char → Prop) : List Token → List Char → Prop
  | nil : Joined between [] []
  | cons {token : Token} {tokens : List Token} {lexeme gap rest : List Char} (isLexeme : token.IsLexeme lexeme)
    (blank : Blanks gap) (apart : tokens ≠ [] → between gap) (later : Joined between tokens rest) :
    Joined between (token :: tokens) (lexeme ++ (gap ++ rest))

/-- A run of blanks, and then lexemes of tokens with runs of blanks between and after them. -/
def Spaced (between : List Char → Prop) (tokens : List Token) (cs : List Char) : Prop :=
  ∃ gap rest, cs = gap ++ rest ∧ Blanks gap ∧ Joined between tokens rest

section Layout

variable {between other : List Char → Prop} {previous : Option Kind} {token : Token} {tokens : List Token}
  {cs ds gap rest more : List Char} {c : Char} {shape : Shape} {count : Nat}

theorem isLexeme_iff (noLiteral : token.kind ≠ .literal) : token.IsLexeme cs ↔ cs = token.text.toList := by
  obtain ⟨kind, text⟩ := token
  cases kind with
  | literal => exact absurd rfl noLiteral
  | _ => rfl

theorem Blanks.append (blank : Blanks gap) (further : Blanks more) : Blanks (gap ++ more) :=
  List.forall_mem_append.mpr ⟨blank, further⟩

theorem Spaced.blanks (spaced : Spaced between tokens cs) (blank : Blanks gap) :
    Spaced between tokens (gap ++ cs) := by
  obtain ⟨lead, rest, rfl, further, joined⟩ := spaced
  exact ⟨gap ++ lead, rest, (List.append_assoc ..).symm, blank.append further, joined⟩

/-! ### Lexemes of tokens -/

theorem classifyName_ne_literal {name : String} {rest : List Char} : classifyName previous name rest ≠ .literal := by
  unfold classifyName
  dsimp only
  repeat' split
  all_goals simp

/-- A token is its lexeme, unless it is a literal. -/
theorem text_of_tokenOf? {lexeme : List Char} (means : tokenOf? previous shape lexeme rest = some token)
    (noLiteral : shape ≠ .literal) : token.kind ≠ .literal ∧ token.text = String.ofList lexeme := by
  cases shape with
  | blank => cases means
  | literal => exact absurd rfl noLiteral
  | number =>
    obtain rfl := Option.some.inj means
    exact ⟨by simp, rfl⟩
  | name =>
    obtain rfl := Option.some.inj means
    exact ⟨classifyName_ne_literal, rfl⟩
  | symbol =>
    obtain rfl := Option.some.inj means
    refine ⟨?_, rfl⟩
    dsimp only
    repeat' split
    all_goals simp

/-- A literal stands between quotes. -/
theorem exists_of_literal (lexeme : lexemeAt? c rest = .ok (.literal, count)) :
    (c = '"' ∨ c = '\'') ∧ ∃ value, c ∉ value ∧ rest.take count = value ++ [c] := by
  cases begins_of_lexemeAt? lexeme with
  | literal quote closed =>
    refine ⟨quote, _, ?_, take_takeWhile_add_one closed⟩
    exact fun member => absurd (List.mem_takeWhile_imp member) (by simp)

/-- **What is cut off is the lexeme** of the token. -/
theorem isLexeme_of_tokenOf? (lexeme : lexemeAt? c rest = .ok (shape, count))
    (means : tokenOf? previous shape (c :: rest.take count) (rest.drop count) = some token) :
    token.IsLexeme (c :: rest.take count) := by
  by_cases literal : shape = .literal
  · subst literal
    obtain ⟨isQuote, value, absent, taken⟩ := exists_of_literal lexeme
    obtain rfl := Option.some.inj means
    rw [taken, List.drop_one, List.tail_cons, List.dropLast_concat]
    refine ⟨c, isQuote, ?_, ?_⟩
    · rwa [String.toList_ofList]
    · rw [String.toList_ofList]
  · obtain ⟨noLiteral, text⟩ := text_of_tokenOf? means literal
    rw [isLexeme_iff noLiteral, text, String.toList_ofList]

/-- **Nothing is lost**: what is cut into tokens is the lexemes of these with blanks between them. -/
theorem spaced_of_cuts (cuts : Cuts previous cs tokens) : Spaced (fun _ => True) tokens cs := by
  induction cuts with
  | done previous => exact ⟨[], [], rfl, by simp [Blanks], .nil⟩
  | blanks blank _ ih => exact ih.blanks blank
  | @lexeme previous c rest shape count token tokens lexeme means _ ih =>
    obtain ⟨gap, after, same, blank, joined⟩ := ih
    refine ⟨[], c :: rest, rfl, by simp [Blanks], ?_⟩
    have whole := Joined.cons (isLexeme_of_tokenOf? lexeme means) blank (fun _ => trivial) joined
    rwa [← same, List.cons_append, List.take_append_drop] at whole

end Layout

/-! ### Lexemes before blanks -/

/-- What follows is a blank, if anything follows. -/
def EndsAtBlank (rest : List Char) : Prop := ∀ c ∈ rest.head?, isBlank c = true

section Again

variable {cs rest more : List Char} {c : Char} {shape : Shape} {count : Nat}

theorem EndsAtBlank.endsNumeral (ends : EndsAtBlank more) : ∀ c ∈ more.head?, isDigit c = false ∧ c ≠ '.' := by
  intro c head
  have facts := all_of_isBlank (fun c => !isDigit c && c != '.') (by decide) (ends c head)
  simpa using facts

theorem EndsAtBlank.endsName (ends : EndsAtBlank more) : EndsName more := by
  refine ⟨fun c head => ?_, ?_⟩
  · simpa using all_of_isBlank (fun c => !isNameChar c) (by decide) (ends c head)
  · rintro after rfl
    exact absurd (all_of_isBlank (fun c => c != ':') (by decide) (ends ':' rfl)) (by decide)

theorem EndsAtBlank.endsSymbol (ends : EndsAtBlank more) (c : Char) : EndsSymbol c more := by
  unfold EndsSymbol
  cases more with
  | nil => simp [longSymbols]
  | cons d more =>
    have absent := all_of_isBlank (fun d => longSymbols.all fun cs => !cs.contains d) (by decide) (ends d rfl)
    rw [Bool.eq_false_iff, ne_eq, List.contains_iff_mem]
    intro long
    have outside := List.all_eq_true.mp absent _ long
    simp at outside

/-! ### Numbers -/

theorem numberLength_of_point {after : List Char} (begins : cs.dropWhile isDigit = '.' :: after) :
    numberLength cs = (cs.takeWhile isDigit).length + 1 + (after.takeWhile isDigit).length := by
  unfold numberLength
  rw [begins]
  rfl

theorem numberLength_of_noPoint (noPoint : ∀ after, cs.dropWhile isDigit ≠ '.' :: after) :
    numberLength cs = (cs.takeWhile isDigit).length := by
  unfold numberLength
  split
  next after begins => exact absurd begins (noPoint after)
  next => rfl

/-- A number before a blank. -/
theorem numberLength_again (cs : List Char) (ends : EndsAtBlank more) :
    numberLength (cs.take (numberLength cs) ++ more) = (cs.take (numberLength cs)).length := by
  have apart : ∀ c ∈ more.head?, isDigit c = false := fun c head => (ends.endsNumeral c head).1
  have digits {ds : List Char} : ∀ c ∈ ds.takeWhile isDigit, isDigit c = true := fun c => List.mem_takeWhile_imp
  have dropped : cs.drop (cs.takeWhile isDigit).length = cs.dropWhile isDigit := drop_length_takeWhile _ _
  by_cases point : ∃ after, cs.dropWhile isDigit = '.' :: after
  · obtain ⟨after, begins⟩ := point
    have noDigit : ∀ c ∈ ('.' :: (after.takeWhile isDigit ++ more)).head?, isDigit c = false := by
      rintro c ⟨rfl⟩
      decide
    rw [numberLength_of_point begins, take_add_one_eq (dropped.trans begins), take_length_takeWhile,
      take_length_takeWhile, List.append_assoc, List.cons_append,
      numberLength_of_point (dropWhile_append_apart digits noDigit), takeWhile_append_apart digits noDigit,
      takeWhile_append_apart digits apart, List.length_append, List.length_cons]
    omega
  · rw [numberLength_of_noPoint fun after begins => point ⟨after, begins⟩, take_length_takeWhile,
      numberLength_of_noPoint, takeWhile_append_apart digits apart]
    intro after begins
    rw [dropWhile_append_apart digits apart] at begins
    exact (ends.endsNumeral '.' (by rw [begins]; rfl)).2 rfl

/-- **A lexeme before a blank is as long as it was**, also for a literal, which ends in its quote. -/
theorem lexemeAt?_again (lexeme : lexemeAt? c rest = .ok (shape, count)) (noBlank : shape ≠ .blank)
    (noLiteral : shape ≠ .literal) (ends : EndsAtBlank more) :
    lexemeAt? c (rest.take count ++ more) = .ok (shape, (rest.take count).length) := by
  rw [lexemeAt?_eq_ok_iff]
  cases begins_of_lexemeAt? lexeme with
  | blank => exact absurd rfl noBlank
  | literal => exact absurd rfl noLiteral
  | digits digit =>
    have length := numberLength_again (c :: rest) ends
    rw [List.take_cons (numberLength_pos digit rest), List.cons_append, List.length_cons] at length
    have again := @Begins.digits c (rest.take (numberLength (c :: rest) - 1) ++ more) digit
    rwa [length, Nat.add_sub_cancel] at again
  | fraction point digit =>
    have apart : ∀ d ∈ more.head?, isDigit d = false := fun d head => (ends.endsNumeral d head).1
    have still : (rest.takeWhile isDigit ++ more).head?.any isDigit = true := by
      cases rest with
      | nil => cases digit
      | cons d rest =>
        have isDigit : isDigit d = true := digit
        rwa [List.takeWhile_cons, if_pos isDigit]
    have again := Begins.fraction point still
    rwa [takeWhile_append_apart (fun d => List.mem_takeWhile_imp) apart, ← take_length_takeWhile isDigit rest] at again
  | long long =>
    cases rest with
    | nil => simp [longSymbols] at long
    | cons d rest => exact .long long
  | short short =>
    refine .short short ?_ ?_
    · rintro ⟨-, digit⟩
      cases more with
      | nil => cases digit
      | cons d more => exact Bool.false_ne_true ((ends.endsNumeral d rfl).1.symm.trans digit)
    · exact fun long => Bool.false_ne_true ((ends.endsSymbol c).symm.trans (List.contains_iff_mem.mpr long))
  | name start =>
    obtain ⟨name, parts, written⟩ := exists_name rest start
    have length := qualifiedLength_text parts ends.endsName
    rw [written, List.take_cons (qualifiedLength_pos start rest), List.cons_append, List.length_cons] at length
    have again := @Begins.name c (rest.take (qualifiedLength (c :: rest) - 1) ++ more) start
    rwa [length, Nat.add_sub_cancel] at again

end Again

/-! ### What a name sees -/

/-- The lexeme of a token that is no literal begins with neither a blank nor a quote, and with a colon or an opening
parenthesis only if it is two colons or this parenthesis. -/
def Solid (token : Token) : Prop :=
  token.kind ≠ .literal → ∃ c cs, token.text.toList = c :: cs ∧ Bare c ∧
    (c = ':' → cs = [':']) ∧ (c = '(' → cs = [])

section Sight

variable {between other : List Char → Prop} {previous : Option Kind} {token : Token} {tokens : List Token}
  {cs ds gap rest row row' : List Char} {c : Char} {shape : Shape} {count : Nat}

theorem first_of_lexemeAt? (lexeme : lexemeAt? c rest = .ok (shape, count)) (noBlank : shape ≠ .blank)
    (noLiteral : shape ≠ .literal) :
    Bare c ∧ (c = ':' → rest.take count = [':']) ∧ (c = '(' → rest.take count = []) := by
  cases begins_of_lexemeAt? lexeme with
  | blank => exact absurd rfl noBlank
  | literal => exact absurd rfl noLiteral
  | digits digit =>
    refine ⟨bare_of_class isDigit (by decide) digit, ?_, ?_⟩
    · exact fun same => absurd (same ▸ digit) (by decide)
    · exact fun same => absurd (same ▸ digit) (by decide)
  | fraction point =>
    refine ⟨point ▸ ⟨by decide, by decide⟩, ?_, ?_⟩
    · exact fun same => absurd (point.symm.trans same) (by decide)
    · exact fun same => absurd (point.symm.trans same) (by decide)
  | long long =>
    refine ⟨(of_mem_symbolStarts (mem_symbolStarts_of_long long)).1, ?_, ?_⟩
    · rintro rfl
      simpa [longSymbols] using long
    · rintro rfl
      simp [longSymbols] at long
  | short short =>
    refine ⟨(of_mem_symbolStarts (mem_symbolStarts_of_short short)).1, ?_, fun _ => rfl⟩
    exact fun same => absurd (same ▸ short) (by decide)
  | name start =>
    refine ⟨(of_isNameStart start).1, ?_, ?_⟩
    · exact fun same => absurd (same ▸ start) (by decide)
    · exact fun same => absurd (same ▸ start) (by decide)

theorem solid_of_cuts (cuts : Cuts previous cs tokens) : ∀ token ∈ tokens, token.Solid := by
  induction cuts with
  | done previous => exact fun _ member => absurd member List.not_mem_nil
  | blanks _ _ ih => exact ih
  | @lexeme previous c rest shape count token tokens lexeme means _ ih =>
    refine List.forall_mem_cons.mpr ⟨fun noLiteral => ?_, ih⟩
    have noBlankShape : shape ≠ .blank := by
      rintro rfl
      cases means
    have noLiteralShape : shape ≠ .literal := by
      rintro rfl
      obtain rfl := Option.some.inj means
      exact noLiteral rfl
    refine ⟨c, rest.take count, ?_, first_of_lexemeAt? lexeme noBlankShape noLiteralShape⟩
    rw [(text_of_tokenOf? means noLiteralShape).2, String.toList_ofList]

/-- **How a row of lexemes begins**: with a quote if the first token is a literal, and with a colon or a parenthesis
only if this is a token. -/
theorem Joined.exists_first (joined : Joined between (token :: tokens) row) (solid : token.Solid) :
    ∃ c cs after, row = c :: (cs ++ after) ∧ token.IsLexeme (c :: cs) ∧ Spaced between tokens after ∧
      isBlank c = false ∧ (c == '"' || c == '\'') = (token.kind == .literal) ∧ (c = ':' → cs = [':']) ∧
      (c = '(' → cs = []) := by
  obtain _ | ⟨isLexeme, blank, -, later⟩ := joined
  by_cases literal : token.kind = .literal
  · obtain ⟨quote, isQuote, absent, rfl⟩ : ∃ quote, (quote = '"' ∨ quote = '\'') ∧ quote ∉ token.text.toList ∧
        _ = quote :: (token.text.toList ++ [quote]) := by
      unfold IsLexeme at isLexeme
      rw [literal] at isLexeme
      exact isLexeme
    refine ⟨quote, _, _, rfl, isLexeme, ⟨_, _, rfl, blank, later⟩, ?_⟩
    rw [literal]
    rcases isQuote with rfl | rfl
    · exact ⟨by decide, by decide, fun same => absurd same (by decide), fun same => absurd same (by decide)⟩
    · exact ⟨by decide, by decide, fun same => absurd same (by decide), fun same => absurd same (by decide)⟩
  · obtain ⟨c, cs, written, ⟨noBlank, noQuote⟩, facts⟩ := solid literal
    obtain rfl := ((isLexeme_iff literal).mp isLexeme).trans written
    refine ⟨c, cs, _, rfl, isLexeme, ⟨_, _, rfl, blank, later⟩, noBlank, ?_, facts⟩
    rw [noQuote, beq_false_of_ne literal]

/-- Without the blanks before it a spaced row begins with a lexeme. -/
theorem Spaced.joined (spaced : Spaced between tokens cs) (solid : ∀ token ∈ tokens, token.Solid) :
    Joined between tokens (cs.dropWhile isBlank) := by
  obtain ⟨gap, rest, rfl, blank, joined⟩ := spaced
  rw [dropWhile_append_apart blank]
  · exact joined
  · cases tokens with
    | nil =>
      cases joined
      exact fun c head => absurd head (by simp)
    | cons token tokens =>
      obtain ⟨c, cs, after, rfl, -, -, noBlank, -⟩ := joined.exists_first (solid token List.mem_cons_self)
      rintro d ⟨rfl⟩
      exact noBlank

/-- Whether the first character that is no blank is a quote. -/
def quoteAhead (cs : List Char) : Bool := (cs.dropWhile isBlank).head?.any fun c => c == '"' || c == '\''

theorem Spaced.quoteAhead_eq (spaced : Spaced between tokens cs) (solid : ∀ token ∈ tokens, token.Solid) :
    quoteAhead cs = tokens.head?.any fun token => token.kind == .literal := by
  have joined := spaced.joined solid
  unfold quoteAhead
  generalize cs.dropWhile isBlank = row at joined
  cases tokens with
  | nil =>
    cases joined
    rfl
  | cons token tokens =>
    obtain ⟨c, cs, after, rfl, -, -, -, quote, -⟩ := joined.exists_first (solid token List.mem_cons_self)
    exact quote

/-- What a name sees after it: two colons, or a parenthesis with or without a quote after it, or neither of them. -/
inductive SameSight : List Char → List Char → Prop
  | colons (rest other : List Char) : SameSight (':' :: ':' :: rest) (':' :: ':' :: other)
  | parenthesis {rest other : List Char} (quote : quoteAhead rest = quoteAhead other) :
    SameSight ('(' :: rest) ('(' :: other)
  | neither {rest other : List Char} (first : ∀ c ∈ rest.head?, c ≠ ':' ∧ c ≠ '(')
    (second : ∀ c ∈ other.head?, c ≠ ':' ∧ c ≠ '(') : SameSight rest other

theorem sameSight_of_joined (joined : Joined between tokens row) (joined' : Joined other tokens row')
    (solid : ∀ token ∈ tokens, token.Solid) : SameSight row row' := by
  cases tokens with
  | nil =>
    cases joined
    cases joined'
    exact .neither (by simp) (by simp)
  | cons token tokens =>
    rw [List.forall_mem_cons] at solid
    obtain ⟨c, cs, after, rfl, isLexeme, spaced, -, quote, colon, parenthesis⟩ := joined.exists_first solid.1
    obtain ⟨d, ds, after', rfl, isLexeme', spaced', -, quote', colon', parenthesis'⟩ := joined'.exists_first solid.1
    by_cases literal : token.kind = .literal
    · rw [literal] at quote quote'
      have apart : ∀ c, (c == '"' || c == '\'') = true → c ≠ ':' ∧ c ≠ '(' := by
        intro c isQuote
        rcases Bool.or_eq_true_iff.mp isQuote with same | same
        · exact beq_iff_eq.mp same ▸ by decide
        · exact beq_iff_eq.mp same ▸ by decide
      exact .neither (by simpa using apart c quote) (by simpa using apart d quote')
    · have same := ((isLexeme_iff literal).mp isLexeme).trans ((isLexeme_iff literal).mp isLexeme').symm
      obtain ⟨rfl, rfl⟩ := List.cons.inj same
      by_cases isColon : c = ':'
      · obtain rfl := isColon
        obtain rfl := colon rfl
        exact .colons after after'
      by_cases isParenthesis : c = '('
      · obtain rfl := isParenthesis
        obtain rfl := parenthesis rfl
        exact .parenthesis ((spaced.quoteAhead_eq solid.2).trans (spaced'.quoteAhead_eq solid.2).symm)
      exact .neither (by simpa using ⟨isColon, isParenthesis⟩) (by simpa using ⟨isColon, isParenthesis⟩)

theorem classifyName_of_neither (neither : ∀ c ∈ (cs.dropWhile isBlank).head?, c ≠ ':' ∧ c ≠ '(') (name : String) :
    classifyName previous name cs = if previous == some (.symbol "$") then .name
      else if name.endsWith ":*" then .anyNameIn
      else if endsOperand previous && operatorNames.contains name then .symbol name else .name := by
  unfold classifyName
  dsimp only
  rw [not_isPrefixOf_of_head fun c head => (neither c head).1, Bool.false_and, if_neg Bool.false_ne_true]
  refine if_congr Iff.rfl rfl (if_congr Iff.rfl rfl (if_congr Iff.rfl rfl ?_))
  split
  next inside begins => exact absurd rfl (neither '(' (by rw [begins]; rfl)).2
  next => rfl

/-- What a name means is told by what it sees. -/
theorem classifyName_eq_of_sameSight (same : SameSight (cs.dropWhile isBlank) (ds.dropWhile isBlank)) (name : String) :
    classifyName previous name cs = classifyName previous name ds := by
  generalize first : cs.dropWhile isBlank = row at same
  generalize second : ds.dropWhile isBlank = row' at same
  cases same with
  | colons rest other =>
    unfold classifyName
    rw [first, second]
    rfl
  | parenthesis quote =>
    unfold quoteAhead at quote
    unfold classifyName
    rw [first, second]
    simp only [quote]
    rfl
  | neither noneFirst noneSecond =>
    rw [classifyName_of_neither (by rwa [first]), classifyName_of_neither (by rwa [second])]

/-- **A name sees the tokens after it, not their spacing.** -/
theorem classifyName_eq_of_spaced (previous : Option Kind) (spaced : Spaced between tokens cs)
    (spaced' : Spaced other tokens ds) (solid : ∀ token ∈ tokens, token.Solid) (name : String) :
    classifyName previous name cs = classifyName previous name ds :=
  classifyName_eq_of_sameSight (sameSight_of_joined (spaced.joined solid) (spaced'.joined solid) solid) name

end Sight

/-! ### Cutting again -/

section Cutting

variable {between : List Char → Prop} {previous : Option Kind} {token : Token} {tokens : List Token}
  {cs gap rest written : List Char} {c : Char} {shape : Shape} {count : Nat}

theorem tokensAfter_blanks (blank : Blanks gap) (rest : List Char) :
    tokensAfter previous (gap ++ rest) = tokensAfter previous rest := by
  induction gap with
  | nil => rfl
  | cons c gap ih =>
    unfold Blanks at blank ih
    rw [List.forall_mem_cons] at blank
    rw [List.cons_append, tokensAfter_blank blank.1, ih blank.2]

/-- What a lexeme means depends on what comes after it only if it is a name. -/
theorem tokenOf?_congr {lexeme more : List Char}
    (same : ∀ name, classifyName previous name more = classifyName previous name rest) :
    tokenOf? previous shape lexeme more = tokenOf? previous shape lexeme rest := by
  cases shape with
  | name => simp only [tokenOf?, same]
  | _ => rfl

/-- **A lexeme of a token is cut off as this token again**, before a blank where names mean what they meant. -/
theorem lexes_again (lexeme : lexemeAt? c rest = .ok (shape, count))
    (means : tokenOf? previous shape (c :: rest.take count) (rest.drop count) = some token)
    (isLexeme : token.IsLexeme written) : Lexes previous written [token] (some token.kind) fun more =>
      EndsAtBlank more ∧ ∀ name, classifyName previous name more = classifyName previous name (rest.drop count) := by
  by_cases literal : shape = .literal
  · subst literal
    obtain rfl := Option.some.inj means
    obtain ⟨quote, isQuote, absent, rfl⟩ := isLexeme
    have lexes := @lexes_quoted previous quote isQuote _ absent
    rw [String.ofList_toList] at lexes
    exact lexes.mono fun _ _ => trivial
  · obtain ⟨noLiteral, text⟩ := text_of_tokenOf? means literal
    have noBlank : shape ≠ .blank := by
      rintro rfl
      cases means
    rw [isLexeme_iff noLiteral, text, String.toList_ofList] at isLexeme
    rw [isLexeme]
    refine lexes_lexeme shape (fun more follow => lexemeAt?_again lexeme noBlank literal follow.1) fun more follow => ?_
    exact (tokenOf?_congr follow.2).trans means

theorem endsAtBlank_of_apart (blank : Blanks gap) (joined : Joined between tokens rest)
    (apart : tokens ≠ [] → gap ≠ []) : EndsAtBlank (gap ++ rest) := by
  cases gap with
  | nil =>
    cases joined with
    | nil => exact fun c head => absurd head (by simp)
    | cons => exact absurd rfl (apart (List.cons_ne_nil _ _))
  | cons c gap =>
    rintro d ⟨rfl⟩
    exact blank c List.mem_cons_self

/-- **Spaced in another way** tokens are cut off again. -/
theorem tokensAfter_of_spaced (cuts : Cuts previous cs tokens) {spaced : List Char}
    (isSpaced : Spaced (· ≠ []) tokens spaced) : tokensAfter previous spaced = .ok tokens := by
  induction cuts generalizing spaced with
  | done previous =>
    obtain ⟨gap, rest, rfl, blank, _ | _⟩ := isSpaced
    rw [tokensAfter_blanks blank, tokensAfter.eq_1]
  | blanks _ _ ih => exact ih isSpaced
  | @lexeme previous c rest shape count token tokens lexeme means later ih =>
    obtain ⟨gap, _, rfl, blank, _ | @⟨_, _, written, after, more, isLexeme, blankAfter, apart, joined⟩⟩ := isSpaced
    have spacedAfter : Spaced (· ≠ []) tokens (after ++ more) := ⟨after, more, rfl, blankAfter, joined⟩
    have sight := classifyName_eq_of_spaced previous spacedAfter (spaced_of_cuts later) (solid_of_cuts later)
    rw [tokensAfter_blanks blank,
      lexes_again lexeme means isLexeme _ ⟨endsAtBlank_of_apart blankAfter joined apart, sight⟩, ih spacedAfter]
    rfl

end Cutting

/-- **Cutting a text into tokens loses nothing and ignores spacing.** A text that is cut into tokens is their lexemes in
order, with runs of blanks between and around them. Any text that is their lexemes in order, with a run of blanks
between any two of them and any runs around them, is cut into the same tokens, and so it is if literals stand between
other quotes, which they do not hold. -/
theorem tokenize_spacing {source : String} {tokens : List Token} (cut : tokenize source = .ok tokens) :
    Spaced (fun _ => True) tokens source.toList ∧
      ∀ spaced : String, Spaced (· ≠ []) tokens spaced.toList → tokenize spaced = .ok tokens :=
  ⟨spaced_of_cuts (cuts_of_tokensAfter cut), fun _ => tokensAfter_of_spaced (cuts_of_tokensAfter cut)⟩

/-- The tokens of a qualified star and of a processing instruction with a target, an operator between them. -/
def starOrTarget : List Token :=
  [⟨.anyNameIn, "p:*"⟩, ⟨.symbol "|", "|"⟩, ⟨.targetTest, "processing-instruction"⟩, ⟨.symbol "(", "("⟩,
    ⟨.literal, "x"⟩, ⟨.symbol ")", ")"⟩]

theorem tokenize_spacing_starOrTarget :
    tokenize "p:*|processing-instruction('x')" = .ok starOrTarget ∧
    Spaced (· ≠ []) starOrTarget "\tp:* |  processing-instruction ( \"x\" )".toList ∧
    tokenize "\tp:* |  processing-instruction ( \"x\" )" = .ok starOrTarget := by
  have cut : tokenize "p:*|processing-instruction('x')" = .ok starOrTarget := by decide +kernel
  have tab : Blanks ['\t'] := List.forall_mem_singleton.mpr (by decide)
  have one : Blanks [' '] := List.forall_mem_singleton.mpr (by decide)
  have some {c : Char} {cs : List Char} : c :: cs ≠ [] := List.cons_ne_nil c cs
  have written : "\tp:* |  processing-instruction ( \"x\" )".toList =
      ['\t'] ++ ("p:*".toList ++ ([' '] ++ ("|".toList ++ ([' ', ' '] ++ ("processing-instruction".toList ++
      ([' '] ++ ("(".toList ++ ([' '] ++ (['"', 'x', '"'] ++ ([' '] ++ (")".toList ++ ([] ++ [])))))))))))) := by decide
  have spaced : Spaced (· ≠ []) starOrTarget "\tp:* |  processing-instruction ( \"x\" )".toList :=
    ⟨['\t'], _, written, tab, .cons rfl one (fun _ => some) <| .cons rfl (one.append one) (fun _ => some) <|
      .cons rfl one (fun _ => some) <| .cons rfl one (fun _ => some) <|
      .cons ⟨'"', .inl rfl, by decide, rfl⟩ one (fun _ => some) <|
      .cons rfl (List.forall_mem_nil _) (absurd rfl) .nil⟩
  exact ⟨cut, spaced, (tokenize_spacing cut).2 _ spaced⟩

end XPathAnnotator.Token
