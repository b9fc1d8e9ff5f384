/-
**Cutting a text into tokens piece by piece.**

`Lexes` says that a piece of text is cut into some tokens whatever follows it, as long as what follows does not go
on with its last token. Pieces are put together by `Lexes.append`, and there is one lemma for each shape of
lexemes: a blank, a symbol, a name, a literal and a numeral.

* `Lexes.append` — one piece after the other;
* `tokensAfter_blank`, `lexes_shortSymbol`, `lexes_longSymbol`, `lexes_name`, `lexes_literal`, `lexes_numeral` —
  single lexemes.
-/

import Mathlib
import XPathAnnotator.Expr.Printer
import XPathAnnotator.Proofs.Number.Numerals
import XPathAnnotator.Proofs.Token.Shapes

namespace XPathAnnotator.Token

open XPathAnnotator.Text XPathAnnotator.Name

/-- After a token of kind `previous`, characters are cut into tokens, the last one of kind `last`, whatever follows
them under a condition. -/
def Lexes (previous : Option Kind) (cs : List Char) (tokens : List Token) (last : Option Kind)
    (follow : List Char → Prop) : Prop :=
  ∀ rest, follow rest → tokensAfter previous (cs ++ rest) = (tokensAfter last rest).map (tokens ++ ·)

section Lexes

variable {previous middle last : Option Kind} {cs more : List Char} {tokens others : List Token}
  {follow after : List Char → Prop}

/-- **One piece after the other.** -/
theorem Lexes.append (first : Lexes previous cs tokens middle follow) (second : Lexes middle more others last after)
    (leads : ∀ rest, after rest → follow (more ++ rest)) :
    Lexes previous (cs ++ more) (tokens ++ others) last after := by
  intro rest condition
  rw [List.append_assoc, first _ (leads rest condition), second rest condition]
  cases tokensAfter last rest with
  | error cause => rfl
  | ok found => exact congrArg Except.ok (List.append_assoc tokens others found).symm

/-- One piece after another one that may be followed by anything. -/
theorem Lexes.before (first : Lexes previous cs tokens middle fun _ => True)
    (second : Lexes middle more others last after) : Lexes previous (cs ++ more) (tokens ++ others) last after :=
  first.append second fun _ _ => trivial

theorem Lexes.nil : Lexes previous [] [] previous follow := by
  intro rest _
  rw [List.nil_append]
  cases tokensAfter previous rest <;> rfl

theorem Lexes.mono (lexes : Lexes previous cs tokens last follow) (weaker : ∀ rest, after rest → follow rest) :
    Lexes previous cs tokens last after := fun rest condition => lexes rest (weaker rest condition)

/-- A text that is cut to its end. -/
theorem Lexes.tokensAfter_eq (lexes : Lexes previous cs tokens last follow) (condition : follow []) :
    tokensAfter previous cs = .ok tokens := by
  have whole := lexes [] condition
  rw [List.append_nil, tokensAfter.eq_1] at whole
  rw [whole]
  exact congrArg Except.ok (List.append_nil tokens)

end Lexes

/-! ### One lexeme -/

/-- A lexeme that is a token. -/
theorem tokensAfter_token {previous : Option Kind} {c : Char} {rest : List Char} {shape : Shape} {count : Nat}
    {token : Token} (lexeme : lexemeAt? c rest = .ok (shape, count))
    (means : tokenOf? previous shape (c :: rest.take count) (rest.drop count) = some token) :
    tokensAfter previous (c :: rest) = (tokensAfter (some token.kind) (rest.drop count)).map (token :: ·) := by
  rw [tokensAfter.eq_def]
  dsimp only
  rw [lexeme]
  dsimp only
  rw [means]
  dsimp only
  cases tokensAfter (some token.kind) (rest.drop count) <;> rfl

/-- A piece that is one lexeme. -/
theorem lexes_lexeme (shape : Shape) {previous : Option Kind} {c : Char} {cs : List Char} {token : Token}
    {follow : List Char → Prop} (lexeme : ∀ rest, follow rest → lexemeAt? c (cs ++ rest) = .ok (shape, cs.length))
    (means : ∀ rest, follow rest → tokenOf? previous shape (c :: cs) rest = some token) :
    Lexes previous (c :: cs) [token] (some token.kind) follow := by
  intro rest condition
  have taken : (cs ++ rest).take cs.length = cs := List.take_left
  have dropped : (cs ++ rest).drop cs.length = rest := List.drop_left
  have meant : tokenOf? previous shape (c :: (cs ++ rest).take cs.length) ((cs ++ rest).drop cs.length) =
      some token := by
    rw [taken, dropped]
    exact means rest condition
  have step := tokensAfter_token (lexeme rest condition) meant
  rw [dropped] at step
  exact step

/-! ### Blanks -/

theorem tokensAfter_dropWhile {previous : Option Kind} {c : Char} (blank : isBlank c = true) (rest : List Char) :
    tokensAfter previous (c :: rest) = tokensAfter previous (rest.dropWhile isBlank) := by
  rw [tokensAfter.eq_def]
  dsimp only
  rw [lexemeAt?, if_pos blank]
  dsimp only [tokenOf?]
  rw [drop_length_takeWhile]

/-- **A blank** is passed over. -/
theorem tokensAfter_blank {previous : Option Kind} {c : Char} (blank : isBlank c = true) (rest : List Char) :
    tokensAfter previous (c :: rest) = tokensAfter previous rest := by
  rw [tokensAfter_dropWhile blank]
  cases rest with
  | nil => rfl
  | cons d rest =>
    by_cases further : isBlank d = true
    · rw [tokensAfter_dropWhile further, List.dropWhile_cons, if_pos further]
    · rw [List.dropWhile_cons, if_neg further]

theorem lexes_blank (previous : Option Kind) : Lexes previous [' '] [] previous fun _ => True := by
  intro rest _
  rw [List.singleton_append, tokensAfter_blank (by decide)]
  cases tokensAfter previous rest <;> rfl

/-! ### Symbols -/

/-- The symbols of one character apart from the point. -/
def plainSymbols : List Char := ['(', ')', '[', ']', '@', ',', '/', '|', '+', '-', '=', '<', '>', '*', '$']

/-- What follows does not make a symbol longer. -/
def EndsSymbol (c : Char) (rest : List Char) : Prop := longSymbols.contains (c :: rest.take 1) = false

theorem lexemeAt?_shortSymbol {c : Char} {rest : List Char} (plain : c ∈ plainSymbols) (ends : EndsSymbol c rest) :
    lexemeAt? c rest = .ok (.symbol, 0) := by
  have all : plainSymbols.all (fun c => c != '.' && shortSymbols.contains c) = true := by decide
  have facts := List.all_eq_true.mp all c plain
  rw [Bool.and_eq_true, bne_iff_ne, List.contains_iff_mem] at facts
  refine lexemeAt?_eq_ok_iff.mpr (.short facts.2 (fun fraction => facts.1 fraction.1) fun long => ?_)
  exact Bool.false_ne_true (ends.symm.trans (List.contains_iff_mem.mpr long))

/-- **A symbol of one character**, apart from the star. -/
theorem lexes_shortSymbol {previous : Option Kind} {c : Char} (plain : c ∈ plainSymbols) (noStar : c ≠ '*') :
    Lexes previous [c] [⟨.symbol (String.ofList [c]), String.ofList [c]⟩] (some (.symbol (String.ofList [c])))
      (EndsSymbol c) := by
  have other : (String.ofList [c] != "*") = true := by
    rw [bne_iff_ne]
    exact fun same => noStar (by simpa using String.ofList_injective (same.trans (rfl : "*" = String.ofList ['*'])))
  refine lexes_lexeme .symbol (fun rest ends => lexemeAt?_shortSymbol plain ends) fun rest _ => ?_
  rw [tokenOf?, if_pos other]

/-- **A star**, which multiplies after an operand. -/
theorem lexes_star (previous : Option Kind) :
    Lexes previous ['*'] [⟨if endsOperand previous then .multiply else .anyName, "*"⟩]
      (some (if endsOperand previous then .multiply else .anyName)) fun _ => True := by
  refine lexes_lexeme .symbol (fun rest _ => lexemeAt?_shortSymbol (by decide) ?_) fun rest _ => ?_
  · simp [EndsSymbol, longSymbols]
  · rfl

/-- **A symbol of two characters.** -/
theorem lexes_longSymbol (previous : Option Kind) {c d : Char} (long : [c, d] ∈ longSymbols) :
    Lexes previous [c, d] [⟨.symbol (String.ofList [c, d]), String.ofList [c, d]⟩]
      (some (.symbol (String.ofList [c, d]))) fun _ => True := by
  have other : (String.ofList [c, d] != "*") = true := by
    rw [bne_iff_ne]
    exact fun same => absurd (String.ofList_injective (same.trans (rfl : "*" = String.ofList ['*']))) (by simp)
  refine lexes_lexeme .symbol (fun rest _ => lexemeAt?_eq_ok_iff.mpr (.long long)) fun rest _ => ?_
  rw [tokenOf?, if_pos other]

/-! ### Names -/

/-- **A name** is a token of the kind that its neighbours give it. -/
theorem lexes_name {previous : Option Kind} {name : QName} (parts : name.Proper ∨ name.Starred) (kind : Kind) :
    Lexes previous name.text.toList [⟨kind, name.text⟩] (some kind)
      fun rest => EndsName rest ∧ classifyName previous name.text rest = kind := by
  obtain ⟨c, cs, written, start⟩ := QName.exists_text_toList parts
  have text : String.ofList (c :: cs) = name.text := by rw [← written, String.ofList_toList]
  rw [written]
  refine lexes_lexeme .name (fun rest follow => ?_) fun rest follow => ?_
  · have length := qualifiedLength_text parts follow.1
    rw [written, List.cons_append] at length
    have begins := @Begins.name c (cs ++ rest) start
    rw [length] at begins
    exact lexemeAt?_eq_ok_iff.mpr begins
  · rw [tokenOf?, text, follow.2]

theorem not_isPrefixOf_of_head {cs : List Char} (head : ∀ c ∈ cs.head?, c ≠ ':') :
    [':', ':'].isPrefixOf cs = false := by
  cases cs with
  | nil => rfl
  | cons c cs => simp [List.isPrefixOf, (head c rfl).symm]

/-! ### Literals and numerals -/

theorem lexes_quoted {previous : Option Kind} {quote : Char} (isQuote : quote = '"' ∨ quote = '\'')
    {value : List Char} (absent : quote ∉ value) :
    Lexes previous (quote :: (value ++ [quote])) [⟨.literal, String.ofList value⟩] (some .literal)
      fun _ => True := by
  refine lexes_lexeme .literal (fun rest _ => ?_) fun rest _ => ?_
  · have closed : quote ∈ value ++ [quote] ++ rest := by simp
    have others : ∀ c ∈ value, (c != quote) = true :=
      fun c member => bne_iff_ne.mpr fun same => absent (same ▸ member)
    have inside : (value ++ [quote] ++ rest).takeWhile (· != quote) = value := by
      rw [List.append_assoc, List.takeWhile_append_of_pos others]
      simp
    have begins := Begins.literal isQuote closed
    rw [inside] at begins
    rw [List.length_append, List.length_singleton]
    exact lexemeAt?_eq_ok_iff.mpr begins
  · rw [tokenOf?, List.drop_one, List.tail_cons, List.dropLast_concat]

/-- A literal that does not hold both quotes stands between quotes that it does not hold. -/
theorem exists_quote {value : String} (quotable : '"' ∉ value.toList ∨ '\'' ∉ value.toList) :
    ∃ quote, (quote = '"' ∨ quote = '\'') ∧ quote ∉ value.toList ∧
      (printLiteral value).toList = quote :: (value.toList ++ [quote]) := by
  unfold printLiteral
  split
  case isTrue double =>
    refine ⟨'\'', .inr rfl, quotable.resolve_left fun absent => absent (List.contains_iff_mem.mp double), ?_⟩
    rw [String.toList_append, String.toList_append]
    rfl
  case isFalse noDouble =>
    refine ⟨'"', .inl rfl, fun member => noDouble (List.contains_iff_mem.mpr member), ?_⟩
    rw [String.toList_append, String.toList_append]
    rfl

/-- **A literal** that does not hold both quotes. -/
theorem lexes_literal {previous : Option Kind} {value : String}
    (quotable : '"' ∉ value.toList ∨ '\'' ∉ value.toList) :
    Lexes previous (printLiteral value).toList [⟨.literal, value⟩] (some .literal) fun _ => True := by
  obtain ⟨quote, isQuote, absent, written⟩ := exists_quote quotable
  have lexes := @lexes_quoted previous quote isQuote value.toList absent
  rw [String.ofList_toList] at lexes
  rw [written]
  exact lexes

theorem numberLength_numeral {whole fraction rest : List Char} (digits : Number.Digits whole fraction)
    (ends : ∀ c ∈ rest.head?, isDigit c = false ∧ c ≠ '.') :
    numberLength (Number.numeral whole fraction ++ rest) = (Number.numeral whole fraction).length := by
  have apart : ∀ c ∈ rest.head?, isDigit c = false := fun c head => (ends c head).1
  unfold numberLength Number.numeral
  dsimp only
  cases fraction with
  | nil =>
    simp only [List.isEmpty_nil, if_true, List.append_nil]
    rw [Number.takeWhile_isDigit_append digits.whole apart, Number.dropWhile_isDigit_append digits.whole apart]
    split
    · exact absurd rfl (ends '.' rfl).2
    · rfl
  | cons c fraction =>
    have point : ∀ d ∈ ('.' :: (c :: fraction ++ rest)).head?, isDigit d = false := by
      rintro d ⟨rfl⟩
      decide
    simp only [List.isEmpty_cons, Bool.false_eq_true, if_false]
    rw [List.append_assoc, List.cons_append, Number.takeWhile_isDigit_append digits.whole point,
      Number.dropWhile_isDigit_append digits.whole point]
    change whole.length + 1 + ((c :: fraction ++ rest).takeWhile isDigit).length = _
    rw [Number.takeWhile_isDigit_append digits.fraction apart]
    simp only [List.length_append, List.length_cons]
    omega

/-- **A numeral** goes on with digits and a point. -/
theorem lexes_numeral {previous : Option Kind} {whole fraction : List Char} (digits : Number.Digits whole fraction) :
    Lexes previous (Number.numeral whole fraction) [⟨.number, String.ofList (Number.numeral whole fraction)⟩]
      (some .number) fun rest => ∀ c ∈ rest.head?, isDigit c = false ∧ c ≠ '.' := by
  have length := fun rest => @numberLength_numeral whole fraction rest digits
  obtain ⟨c, others, first⟩ := List.exists_cons_of_ne_nil digits.nonempty
  have digit : c.isDigit = true := digits.whole c (by simp [first])
  obtain ⟨cs, written⟩ : ∃ cs, Number.numeral whole fraction = c :: cs := by
    rw [Number.numeral, first]
    exact ⟨_, rfl⟩
  rw [written] at length ⊢
  refine lexes_lexeme .number (fun rest ends => ?_) fun rest _ => rfl
  have begins := @Begins.digits c (cs ++ rest) (Number.isDigit_of_isDigit digit)
  have whole := length rest ends
  rw [List.cons_append] at whole
  rw [whole] at begins
  exact lexemeAt?_eq_ok_iff.mpr begins

end XPathAnnotator.Token
