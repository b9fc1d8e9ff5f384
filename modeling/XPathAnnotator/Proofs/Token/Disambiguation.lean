/-
**Names and stars between their neighbours.**

By the lexical rules of XPath a star multiplies, and `and`, `or`, `mod` and `div` are operators, if there is a token
before them that is an operator itself or one of a few marks in no case. Names before two colons are axes, and those
before a parenthesis are functions or node types. The lexer decides otherwise: by a list of the kinds of token that end
an operand, and by the characters after a name. The kinds in neither list are those of axes, functions and node types,
and what these have seen ahead is the token after them, so neither a star nor an operator follows.

* `Classified` — what a name means, one rule for each kind;
* `Cuts.exists_first`, `Cuts.exists_at` — the lexeme of a token, between the token before it and the text after it;
* `Cuts.next_of_required` — what a name has seen ahead is the next token;
* `endsOperand_iff` — the two lists agree before a star and before the name of an operator;
* `tokenize_disambiguated` — **the rules hold of every token between its neighbours**.
-/

import Mathlib
import XPathAnnotator.Proofs.Token.Spacing

namespace XPathAnnotator.Token

open XPathAnnotator.Text XPathAnnotator.Name

/-! ### The rules -/

/-- The marks and operators after which no operator comes. -/
def operandOpeners : List Kind :=
  [.symbol "@", .symbol "::", .symbol "(", .symbol "[", .symbol ",", .symbol "and", .symbol "or", .symbol "mod",
    .symbol "div", .multiply, .symbol "/", .symbol "//", .symbol "|", .symbol "+", .symbol "-", .symbol "=",
    .symbol "!=", .symbol "<", .symbol "<=", .symbol ">", .symbol ">="]

/-- An operator comes next: there is a token before, and it is none after which no operator comes. -/
def OperatorExpected (previous : Option Token) : Prop :=
  ∃ token, previous = some token ∧ token.kind ∉ operandOpeners

/-- The token before is the sign of a variable. -/
def AfterSign (previous : Option Token) : Prop := previous.map Token.kind = some (.symbol "$")

/-- **The rules for a token between its neighbours.** Tokens that are no literals are known by their texts. -/
structure Disambiguated (previous : Option Token) (token : Token) (after : List Token) : Prop where
  star : token.kind ≠ .literal → token.text = "*" → ¬ AfterSign previous →
    (token.kind = .multiply ↔ OperatorExpected previous)
  operatorName : token.kind ≠ .literal → token.text ∈ operatorNames → ¬ AfterSign previous →
    (token.kind = .symbol token.text ↔ OperatorExpected previous)
  axis : token.kind = .axisName → after.head? = some ⟨.symbol "::", "::"⟩
  parenthesis : token.kind = .functionName ∨ token.kind = .nodeType ∨ token.kind = .targetTest →
    after.head? = some ⟨.symbol "(", "("⟩
  target : token.kind = .targetTest →
    ∃ literal later, literal.kind = .literal ∧ after = ⟨.symbol "(", "("⟩ :: literal :: later
  function : token.kind ≠ .literal → isNCName token.text = true → ¬ OperatorExpected previous →
    ¬ AfterSign previous → after.head? = some ⟨.symbol "(", "("⟩ →
    (token.kind = .functionName ↔ token.text ∉ nodeTypes)

/-! ### Names -/

/-- A name to which neither the sign of a variable nor a star nor the place of an operator gives its meaning. -/
structure Ordinary (previous : Option Kind) (name : String) : Prop where
  unsigned : previous ≠ some (.symbol "$")
  noStar : name.endsWith ":*" = false
  noOperator : ¬ (endsOperand previous = true ∧ name ∈ operatorNames)

/-- **What a name means**, by the token before it and the characters after it. -/
inductive Classified (previous : Option Kind) (name : String) (rest : List Char) : Kind → Prop
  | variableName (sign : previous = some (.symbol "$")) : Classified previous name rest .name
  | anyNameIn (unsigned : previous ≠ some (.symbol "$")) (star : name.endsWith ":*" = true) :
    Classified previous name rest .anyNameIn
  | operator (operand : endsOperand previous = true) (listed : name ∈ operatorNames) :
    Classified previous name rest (.symbol name)
  | axis (ordinary : Ordinary previous name) {further : List Char}
    (colons : rest.dropWhile isBlank = ':' :: ':' :: further) (noColon : ':' ∉ name.toList) :
    Classified previous name rest .axisName
  | function (ordinary : Ordinary previous name) {inside : List Char}
    (opening : rest.dropWhile isBlank = '(' :: inside) (noType : name ∉ nodeTypes) :
    Classified previous name rest .functionName
  | target (ordinary : Ordinary previous name) {inside : List Char}
    (opening : rest.dropWhile isBlank = '(' :: inside) (isTarget : name = "processing-instruction")
    (quote : quoteAhead inside = true) : Classified previous name rest .targetTest
  | nodeType (ordinary : Ordinary previous name) {inside : List Char}
    (opening : rest.dropWhile isBlank = '(' :: inside) (listed : name ∈ nodeTypes) :
    Classified previous name rest .nodeType
  | name (ordinary : Ordinary previous name) (noOpening : ∀ inside, rest.dropWhile isBlank ≠ '(' :: inside) :
    Classified previous name rest .name

theorem classified_classifyName (previous : Option Kind) (name : String) (rest : List Char) :
    Classified previous name rest (classifyName previous name rest) := by
  unfold classifyName
  dsimp only
  split
  · rename_i sign
    exact .variableName (beq_iff_eq.mp sign)
  rename_i unsigned
  rw [beq_iff_eq] at unsigned
  split
  · rename_i star
    exact .anyNameIn unsigned star
  rename_i noStar
  split
  · rename_i operator
    rw [Bool.and_eq_true, List.contains_iff_mem] at operator
    exact .operator operator.1 operator.2
  rename_i noOperator
  rw [Bool.and_eq_true, List.contains_iff_mem] at noOperator
  have ordinary : Ordinary previous name := ⟨unsigned, Bool.eq_false_iff.mpr noStar, noOperator⟩
  split
  · rename_i axis
    rw [Bool.and_eq_true, List.isPrefixOf_iff_prefix, Bool.not_eq_true', ← Bool.not_eq_true,
      List.contains_iff_mem] at axis
    obtain ⟨⟨further, colons⟩, noColon⟩ := axis
    exact .axis ordinary colons.symm noColon
  split
  · rename_i inside opening
    split
    · rename_i noType
      exact .function ordinary opening (by simpa using noType)
    rename_i isType
    have listed : name ∈ nodeTypes := by simpa using isType
    split
    · rename_i isTarget
      rw [Bool.and_eq_true, beq_iff_eq] at isTarget
      exact .target ordinary opening isTarget.1 isTarget.2
    · exact .nodeType ordinary opening listed
  · rename_i noOpening
    exact .name ordinary noOpening

/-! ### Lexemes by their first characters -/

section Lexeme

variable {previous : Option Kind} {token : Token} {tokens after : List Token} {cs rest : List Char} {c : Char}
  {shape : Shape} {count : Nat}

theorem shape_of_isNameStart (lexeme : lexemeAt? c rest = .ok (shape, count)) (start : isNameStart c = true) :
    shape = .name := by
  rw [lexemeAt?_eq_ok_iff.mpr (.name start)] at lexeme
  exact (Prod.mk.inj (Except.ok.inj lexeme)).1.symm

theorem symbol_of_star (lexeme : lexemeAt? '*' rest = .ok (shape, count)) : shape = .symbol ∧ count = 0 := by
  rw [lexemeAt?_shortSymbol (by decide) (by simp [EndsSymbol, longSymbols])] at lexeme
  obtain ⟨rfl, rfl⟩ := Prod.mk.inj (Except.ok.inj lexeme)
  exact ⟨rfl, rfl⟩

theorem symbol_of_parenthesis (lexeme : lexemeAt? '(' rest = .ok (shape, count)) : shape = .symbol ∧ count = 0 := by
  rw [lexemeAt?_shortSymbol (by decide) (by simp [EndsSymbol, longSymbols])] at lexeme
  obtain ⟨rfl, rfl⟩ := Prod.mk.inj (Except.ok.inj lexeme)
  exact ⟨rfl, rfl⟩

theorem symbol_of_colons (lexeme : lexemeAt? ':' (':' :: rest) = .ok (shape, count)) :
    shape = .symbol ∧ count = 1 := by
  have colons : Begins ':' (':' :: rest) .symbol 1 := .long (by simp [longSymbols])
  rw [lexemeAt?_eq_ok_iff.mpr colons] at lexeme
  obtain ⟨rfl, rfl⟩ := Prod.mk.inj (Except.ok.inj lexeme)
  exact ⟨rfl, rfl⟩

theorem literal_of_quote (lexeme : lexemeAt? c rest = .ok (shape, count)) (quote : (c == '"' || c == '\'') = true) :
    shape = .literal := by
  have noBlank : isBlank c = false := by
    rcases Bool.or_eq_true_iff.mp quote with same | same
    · exact beq_iff_eq.mp same ▸ by decide
    · exact beq_iff_eq.mp same ▸ by decide
  rw [lexemeAt?, noBlank, quote] at lexeme
  simp only [Bool.false_eq_true, if_false, if_true] at lexeme
  split at lexeme
  · exact (Prod.mk.inj (Except.ok.inj lexeme)).1.symm
  · cases lexeme

/-- The text of a token that is no literal begins as its lexeme does. -/
theorem toList_of_tokenOf? (means : tokenOf? previous shape (c :: rest.take count) (rest.drop count) = some token)
    (noLiteral : token.kind ≠ .literal) : token.text.toList = c :: rest.take count := by
  have other : shape ≠ .literal := by
    rintro rfl
    obtain rfl := Option.some.inj means
    exact noLiteral rfl
  rw [(text_of_tokenOf? means other).2, String.toList_ofList]

/-- A token whose text begins as a name does is a name. -/
theorem classified_of_tokenOf? (lexeme : lexemeAt? c rest = .ok (shape, count))
    (means : tokenOf? previous shape (c :: rest.take count) (rest.drop count) = some token)
    (start : isNameStart c = true) : Classified previous token.text (rest.drop count) token.kind := by
  obtain rfl := shape_of_isNameStart lexeme start
  obtain rfl := Option.some.inj means
  exact classified_classifyName _ _ _

/-! ### The token that comes next -/

theorem noBlank_of_tokenOf? (lexeme : lexemeAt? c rest = .ok (shape, count))
    (means : tokenOf? previous shape (c :: rest.take count) (rest.drop count) = some token) : isBlank c = false := by
  rw [Bool.eq_false_iff]
  intro blank
  rw [lexemeAt?, if_pos blank] at lexeme
  obtain ⟨rfl, rfl⟩ := Prod.mk.inj (Except.ok.inj lexeme)
  cases means

/-- **The first token** after blanks is that of the lexeme there. -/
theorem Cuts.exists_first (cuts : Cuts previous cs (token :: tokens)) :
    ∃ c rest shape count, cs.dropWhile isBlank = c :: rest ∧ lexemeAt? c rest = .ok (shape, count) ∧
      tokenOf? previous shape (c :: rest.take count) (rest.drop count) = some token ∧
      Cuts (some token.kind) (rest.drop count) tokens := by
  generalize whole : token :: tokens = all at cuts
  induction cuts with
  | done previous => exact absurd whole (List.cons_ne_nil _ _)
  | @blanks previous gap rest _ blank _ ih =>
    obtain ⟨c, others, shape, count, begins, facts⟩ := ih whole
    refine ⟨c, others, shape, count, ?_, facts⟩
    rw [List.dropWhile_append, List.dropWhile_eq_nil_iff.mpr blank]
    exact begins
  | @lexeme previous c rest shape count _ _ lexeme means later _ =>
    obtain ⟨rfl, rfl⟩ := List.cons.inj whole
    refine ⟨c, rest, shape, count, ?_, lexeme, means, later⟩
    rw [List.dropWhile_cons, noBlank_of_tokenOf? lexeme means]
    rfl

theorem Cuts.dropWhile_eq_nil (cuts : Cuts previous cs []) : cs.dropWhile isBlank = [] := by
  generalize whole : ([] : List Token) = all at cuts
  induction cuts with
  | done previous => rfl
  | @blanks previous gap rest _ blank _ ih =>
    rw [List.dropWhile_append, List.dropWhile_eq_nil_iff.mpr blank]
    exact ih whole
  | lexeme => exact absurd whole.symm (List.cons_ne_nil _ _)

/-- Where there are characters after blanks, there is a token. -/
theorem Cuts.exists_next (cuts : Cuts previous cs tokens) (begins : cs.dropWhile isBlank = c :: rest) :
    ∃ token later shape count, tokens = token :: later ∧ lexemeAt? c rest = .ok (shape, count) ∧
      tokenOf? previous shape (c :: rest.take count) (rest.drop count) = some token ∧
      Cuts (some token.kind) (rest.drop count) later := by
  cases tokens with
  | nil => exact absurd (begins.symm.trans cuts.dropWhile_eq_nil) (List.cons_ne_nil _ _)
  | cons token later =>
    obtain ⟨d, others, shape, count, again, lexeme, means, further⟩ := cuts.exists_first
    obtain ⟨rfl, rfl⟩ := List.cons.inj (begins.symm.trans again)
    exact ⟨token, later, shape, count, rfl, lexeme, means, further⟩

theorem Cuts.next_of_colons (cuts : Cuts previous cs tokens) (colons : cs.dropWhile isBlank = ':' :: ':' :: rest) :
    tokens.head? = some ⟨.symbol "::", "::"⟩ := by
  obtain ⟨token, later, shape, count, rfl, lexeme, means, -⟩ := cuts.exists_next colons
  obtain ⟨rfl, rfl⟩ := symbol_of_colons lexeme
  exact means.symm

theorem Cuts.next_of_parenthesis (cuts : Cuts previous cs tokens) (opening : cs.dropWhile isBlank = '(' :: rest) :
    ∃ later, tokens = ⟨.symbol "(", "("⟩ :: later ∧ Cuts (some (.symbol "(")) rest later := by
  obtain ⟨token, later, shape, count, rfl, lexeme, means, further⟩ := cuts.exists_next opening
  obtain ⟨rfl, rfl⟩ := symbol_of_parenthesis lexeme
  obtain rfl : (⟨.symbol "(", "("⟩ : Token) = token := Option.some.inj means
  exact ⟨later, rfl, further⟩

theorem Cuts.next_of_quote (cuts : Cuts previous cs tokens) (quote : quoteAhead cs = true) :
    ∃ literal later, literal.kind = .literal ∧ tokens = literal :: later := by
  unfold quoteAhead at quote
  cases begins : cs.dropWhile isBlank with
  | nil =>
    rw [begins] at quote
    cases quote
  | cons c rest =>
    rw [begins] at quote
    obtain ⟨token, later, shape, count, rfl, lexeme, means, -⟩ := cuts.exists_next begins
    obtain rfl := literal_of_quote lexeme quote
    obtain rfl := Option.some.inj means
    exact ⟨_, later, rfl, rfl⟩

/-- A parenthesis that is a token stands at the start. -/
theorem Cuts.parenthesis_of_next (cuts : Cuts previous cs tokens) (next : tokens.head? = some ⟨.symbol "(", "("⟩) :
    ∃ inside, cs.dropWhile isBlank = '(' :: inside := by
  cases tokens with
  | nil => cases next
  | cons token tokens =>
    obtain rfl := Option.some.inj next
    obtain ⟨c, rest, shape, count, begins, -, means, -⟩ := cuts.exists_first
    have written : ['('] = c :: rest.take count := toList_of_tokenOf? means (by simp)
    obtain ⟨rfl, -⟩ := List.cons.inj written
    exact ⟨rest, begins⟩

/-- The mark that comes after tokens of some kinds: two colons after an axis, a parenthesis after other names. -/
def Kind.required : Kind → Option String
  | .axisName => some "::"
  | .functionName | .nodeType | .targetTest => some "("
  | _ => none

theorem classified_of_required
    (means : tokenOf? previous shape (c :: rest.take count) (rest.drop count) = some token) {mark : String}
    (required : token.kind.required = some mark) : Classified previous token.text (rest.drop count) token.kind := by
  cases shape with
  | blank => cases means
  | literal | number =>
    obtain rfl := Option.some.inj means
    cases required
  | symbol =>
    obtain rfl := Option.some.inj means
    dsimp only at required
    repeat' split at required
    all_goals cases required
  | name =>
    obtain rfl := Option.some.inj means
    exact classified_classifyName _ _ _

theorem mem_of_required {kind : Kind} {mark : String} (required : kind.required = some mark) : mark ∈ ["::", "("] := by
  cases kind <;> cases required <;> decide

/-- **What a name has seen ahead is the next token.** -/
theorem Cuts.next_of_required (cuts : Cuts (some token.kind) (rest.drop count) after)
    (means : tokenOf? previous shape (c :: rest.take count) (rest.drop count) = some token) {mark : String}
    (required : token.kind.required = some mark) : after.head? = some ⟨.symbol mark, mark⟩ := by
  have classified := classified_of_required means required
  generalize token.kind = kind at cuts required classified
  cases classified with
  | axis _ colons _ =>
    obtain rfl := Option.some.inj required
    exact cuts.next_of_colons colons
  | function _ opening _ | target _ opening _ _ | nodeType _ opening _ =>
    obtain rfl := Option.some.inj required
    obtain ⟨later, rfl, -⟩ := cuts.next_of_parenthesis opening
    rfl
  | _ => cases required

/-- No symbol is a star, which is a token of a kind of its own. -/
theorem ne_star_of_tokenOf? (means : tokenOf? previous shape (c :: rest.take count) (rest.drop count) = some token)
    {text : String} (symbol : token.kind = .symbol text) : text ≠ "*" := by
  cases shape with
  | blank => cases means
  | literal | number =>
    obtain rfl := Option.some.inj means
    cases symbol
  | symbol =>
    obtain rfl := Option.some.inj means
    dsimp only at symbol
    split at symbol
    · rename_i other
      obtain rfl := Kind.symbol.inj symbol
      exact bne_iff_ne.mp other
    · split at symbol <;> cases symbol
  | name =>
    obtain rfl := Option.some.inj means
    have classified := classified_classifyName previous (String.ofList (c :: rest.take count)) (rest.drop count)
    have meant : classifyName previous (String.ofList (c :: rest.take count)) (rest.drop count) = .symbol text := symbol
    rw [meant] at classified
    cases classified with
    | operator _ listed => exact fun same => absurd (same ▸ listed) (by decide)

/-! ### Places in a row of tokens -/

/-- **The lexeme of a token** anywhere in a row. -/
theorem Cuts.exists_at {before : List Token} (cuts : Cuts previous cs (before ++ token :: after)) :
    ∃ c rest shape count, lexemeAt? c rest = .ok (shape, count) ∧
      tokenOf? ((before.getLast?.map Token.kind).or previous) shape (c :: rest.take count) (rest.drop count) =
        some token ∧ Cuts (some token.kind) (rest.drop count) after := by
  induction before generalizing previous cs with
  | nil =>
    obtain ⟨c, rest, shape, count, -, facts⟩ := cuts.exists_first
    exact ⟨c, rest, shape, count, facts⟩
  | cons first before ih =>
    obtain ⟨_, _, _, _, _, _, _, later⟩ := cuts.exists_first
    obtain ⟨c, rest, shape, count, lexeme, means, further⟩ := ih later
    refine ⟨c, rest, shape, count, lexeme, ?_, further⟩
    cases before with
    | nil => exact means
    | cons second before =>
      rw [List.getLast?_cons_cons]
      rw [List.getLast?_cons] at means ⊢
      exact means

end Lexeme

section Places

variable {cs : List Char} {before after : List Token} {token : Token}

/-- The kinds of token that end an operand are those that no operand must follow, of those after which anything may
come. -/
theorem endsOperand_iff_not_mem {kind : Kind} (free : kind.required = none) (unsigned : kind ≠ .symbol "$")
    (symbol : ∀ text, kind = .symbol text → text ∈ symbolTexts ∧ text ≠ "*") :
    kind.endsOperand = true ↔ kind ∉ operandOpeners := by
  cases kind with
  | symbol text =>
    obtain ⟨listed, noStar⟩ := symbol text rfl
    have all : ∀ text ∈ symbolTexts, text ≠ "$" → text ≠ "*" →
        ((Kind.symbol text).endsOperand = true ↔ Kind.symbol text ∉ operandOpeners) := by decide
    exact all text listed (fun same => unsigned (congrArg Kind.symbol same)) noStar
  | axisName | functionName | nodeType | targetTest => cases free
  | _ => decide

/-- **The two lists agree** before any token that is no mark after a name. -/
theorem endsOperand_iff (cuts : Cuts none cs (before ++ token :: after)) (unsigned : ¬ AfterSign before.getLast?)
    (noMark : token.text ∉ ["::", "("]) :
    endsOperand (before.getLast?.map Token.kind) = true ↔ OperatorExpected before.getLast? := by
  rcases List.eq_nil_or_concat before with rfl | ⟨front, last, rfl⟩
  · exact iff_of_false (by decide) (by simp [OperatorExpected])
  rw [List.concat_eq_append] at *
  rw [List.append_assoc, List.singleton_append] at cuts
  obtain ⟨c, rest, shape, count, lexeme, means, later⟩ := cuts.exists_at
  have free : last.kind.required = none := by
    cases required : last.kind.required with
    | none => rfl
    | some mark =>
      -- a kind in neither list would need another token here
      obtain rfl := Option.some.inj (later.next_of_required means required)
      exact absurd (mem_of_required required) noMark
  rw [List.getLast?_append_of_ne_nil _ (List.cons_ne_nil _ _), List.getLast?_singleton] at unsigned ⊢
  have agree := endsOperand_iff_not_mem free (fun same => unsigned (congrArg some same)) fun text symbol => by
    have sound := sound_tokenOf? lexeme means
    rw [Sound, symbol] at sound
    exact ⟨sound, ne_star_of_tokenOf? means symbol⟩
  simpa [OperatorExpected, endsOperand] using agree

/-- A star multiplies after an operand. -/
theorem multiply_iff (cuts : Cuts none cs (before ++ token :: after)) (noLiteral : token.kind ≠ .literal)
    (star : token.text = "*") :
    token.kind = .multiply ↔ endsOperand (before.getLast?.map Token.kind) = true := by
  obtain ⟨c, rest, shape, count, lexeme, means, -⟩ := cuts.exists_at
  have written : ['*'] = c :: rest.take count := by
    rw [← toList_of_tokenOf? means noLiteral, star]
    rfl
  obtain ⟨rfl, -⟩ := List.cons.inj written
  obtain ⟨rfl, rfl⟩ := symbol_of_star lexeme
  have meant : (⟨if endsOperand (before.getLast?.map Token.kind) then .multiply else .anyName, "*"⟩ : Token) = token :=
    Option.some.inj (by rwa [Option.or_none] at means)
  rw [← meant]
  by_cases operand : endsOperand (before.getLast?.map Token.kind) = true
  · simp [operand]
  · simp [operand]

/-- A name that begins as names do is told by its neighbours. -/
theorem Cuts.exists_classified (cuts : Cuts none cs (before ++ token :: after)) (noLiteral : token.kind ≠ .literal)
    (start : ∀ c ∈ token.text.toList.head?, isNameStart c = true) :
    ∃ rest, Classified (before.getLast?.map Token.kind) token.text rest token.kind ∧
      Cuts (some token.kind) rest after := by
  obtain ⟨c, rest, shape, count, lexeme, means, later⟩ := cuts.exists_at
  have written := toList_of_tokenOf? means noLiteral
  have classified := classified_of_tokenOf? lexeme means (start c (by rw [written]; rfl))
  rw [Option.or_none] at classified
  exact ⟨_, classified, later⟩

theorem isNameStart_operatorName {name : String} (listed : name ∈ operatorNames) :
    ∀ c ∈ name.toList.head?, isNameStart c = true := by
  have all : ∀ name ∈ operatorNames, (name.toList.head?.all isNameStart) = true := by decide
  intro c head
  have starts := all name listed
  rw [head] at starts
  exact starts

theorem isNameStart_ncName {name : String} (isName : isNCName name = true) :
    ∀ c ∈ name.toList.head?, isNameStart c = true := by
  obtain ⟨c, rest, written, start, -⟩ := isNCName_iff.mp isName
  rw [written]
  rintro d ⟨rfl⟩
  exact start

/-- `and`, `or`, `mod` and `div` are operators after an operand. -/
theorem operator_iff (cuts : Cuts none cs (before ++ token :: after)) (noLiteral : token.kind ≠ .literal)
    (listed : token.text ∈ operatorNames) (unsigned : ¬ AfterSign before.getLast?) :
    token.kind = .symbol token.text ↔ endsOperand (before.getLast?.map Token.kind) = true := by
  obtain ⟨rest, classified, -⟩ := cuts.exists_classified noLiteral (isNameStart_operatorName listed)
  obtain ⟨kind, name⟩ := token
  have noStar : ∀ name ∈ operatorNames, name.endsWith ":*" = false := by decide +kernel
  dsimp only at classified listed ⊢
  cases classified with
  | variableName sign => exact absurd sign unsigned
  | anyNameIn _ star => exact absurd star (by simp [noStar name listed])
  | operator operand _ => exact iff_of_true rfl operand
  | axis ordinary | function ordinary | target ordinary | nodeType ordinary | name ordinary =>
    exact iff_of_false (by simp) fun operand => ordinary.noOperator ⟨operand, listed⟩

/-- A name before a parenthesis where no operator comes is a function or a node type. -/
theorem function_iff (cuts : Cuts none cs (before ++ token :: after)) (noLiteral : token.kind ≠ .literal)
    (isName : isNCName token.text = true) (noOperand : ¬ endsOperand (before.getLast?.map Token.kind) = true)
    (unsigned : ¬ AfterSign before.getLast?) (next : after.head? = some ⟨.symbol "(", "("⟩) :
    token.kind = .functionName ↔ token.text ∉ nodeTypes := by
  obtain ⟨rest, classified, later⟩ := cuts.exists_classified noLiteral (isNameStart_ncName isName)
  obtain ⟨inside, opening⟩ := later.parenthesis_of_next next
  obtain ⟨kind, name⟩ := token
  dsimp only at classified isName ⊢
  cases classified with
  | variableName sign => exact absurd sign unsigned
  | anyNameIn _ star =>
    have proper : (QName.mk none name).Proper := ⟨by simp, isName⟩
    have noStar : name.endsWith ":*" = false := proper.endsWith_star
    exact absurd star (by simp [noStar])
  | operator operand _ => exact absurd operand noOperand
  | axis _ colons => exact absurd (opening.symm.trans colons) (by simp)
  | function _ _ noType => exact iff_of_true rfl noType
  | target _ _ isTarget =>
    subst isTarget
    exact iff_of_false (by simp) (by decide)
  | nodeType _ _ listed => exact iff_of_false (by simp) (not_not_intro listed)
  | name _ noOpening => exact absurd opening (noOpening inside)

theorem target_next (cuts : Cuts none cs (before ++ token :: after)) (isTarget : token.kind = .targetTest) :
    ∃ literal later, literal.kind = .literal ∧ after = ⟨.symbol "(", "("⟩ :: literal :: later := by
  obtain ⟨c, rest, shape, count, lexeme, means, later⟩ := cuts.exists_at
  have required : token.kind.required = some "(" := by
    rw [isTarget]
    rfl
  have classified := classified_of_required means required
  rw [isTarget] at classified
  cases classified with
  | target _ opening _ quote =>
    obtain ⟨more, rfl, further⟩ := later.next_of_parenthesis opening
    obtain ⟨literal, rest, isLiteral, rfl⟩ := further.next_of_quote quote
    exact ⟨literal, rest, isLiteral, rfl⟩

end Places

/-- **Names and stars are told apart by the rules.** Wherever a token stands among those of an expression: a star that
is not after the sign of a variable multiplies, and a name `and`, `or`, `mod` or `div` is an operator, exactly if there
is a token before it that is neither an opening mark nor an operator; after an axis come two colons, after a function
or a node type a parenthesis, and after one with a target also a literal; and an unqualified name before a parenthesis
where no operator comes is a function, unless it is a node type. -/
theorem tokenize_disambiguated {source : String} {tokens before after : List Token} {token : Token}
    (cut : tokenize source = .ok tokens) (here : tokens = before ++ token :: after) :
    Disambiguated before.getLast? token after := by
  subst here
  have cuts := cuts_of_tokensAfter cut
  obtain ⟨c, rest, shape, count, lexeme, means, later⟩ := cuts.exists_at
  have next {mark : String} (required : token.kind.required = some mark) := later.next_of_required means required
  constructor
  case star =>
    intro noLiteral star unsigned
    rw [multiply_iff cuts noLiteral star, endsOperand_iff cuts unsigned (by rw [star]; decide)]
  case operatorName =>
    intro noLiteral listed unsigned
    have marks : ∀ name ∈ operatorNames, name ∉ ["::", "("] := by decide
    rw [operator_iff cuts noLiteral listed unsigned, endsOperand_iff cuts unsigned (marks _ listed)]
  case axis => exact fun axis => next (by rw [axis]; rfl)
  case parenthesis =>
    rintro (isFunction | isType | isTarget)
    · exact next (by rw [isFunction]; rfl)
    · exact next (by rw [isType]; rfl)
    · exact next (by rw [isTarget]; rfl)
  case target => exact target_next cuts
  case function =>
    intro noLiteral isName noOperator unsigned parenthesis
    refine function_iff cuts noLiteral isName ?_ unsigned parenthesis
    rw [endsOperand_iff cuts unsigned ?_]
    · exact noOperator
    · have marks : ∀ mark ∈ ["::", "("], isNCName mark = false := by decide
      exact fun mark => absurd isName (by simp [marks _ mark])

/-- The tokens of two products, where `div` is a name, an operator and a function. -/
def divisions : List Token :=
  [⟨.anyName, "*"⟩, ⟨.multiply, "*"⟩, ⟨.name, "div"⟩, ⟨.symbol "div", "div"⟩]

theorem tokenize_disambiguated_divisions :
    tokenize "* * div div div(1)" =
      .ok (divisions ++ ⟨.functionName, "div"⟩ :: [⟨.symbol "(", "("⟩, ⟨.number, "1"⟩, ⟨.symbol ")", ")"⟩]) ∧
    Disambiguated (some ⟨.symbol "div", "div"⟩) ⟨.functionName, "div"⟩
      [⟨.symbol "(", "("⟩, ⟨.number, "1"⟩, ⟨.symbol ")", ")"⟩] := by
  have cut : tokenize "* * div div div(1)" =
      .ok (divisions ++ ⟨.functionName, "div"⟩ :: [⟨.symbol "(", "("⟩, ⟨.number, "1"⟩, ⟨.symbol ")", ")"⟩]) := by
    decide +kernel
  exact ⟨cut, @tokenize_disambiguated _ _ divisions _ _ cut rfl⟩

end XPathAnnotator.Token
