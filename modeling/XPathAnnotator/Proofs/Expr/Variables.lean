/-
**Token values and names of variables.**

One rule cuts off plain names, names with a qualifier and stars with a qualifier, and what such a lexeme is follows from
its neighbours. The value of a token has the form that its kind promises, with one exception: after the sign of a
variable everything that this rule cuts off is a name, a star with a qualifier too.

A variable that the parser makes is named by the token after a sign. So with the tokens of an expression the variables
in it are named as the kinds of token promise, with the same exception, and `$p:*` shows that there is this exception.

* `IsNumeral`, `IsQName`, `WellFormed` — the form that a kind promises;
* `StarredVariable` — the exception;
* `wellFormed_or_starred_of_tokenOf?` — **a token has the form of its kind, or is the exception**;
* `wellFormed_iff_of_tokenize` — the same of all tokens of an expression;
* `OneOfStarred` — the exception among the tokens;
* `keeps_variablesNamed` — the rules of the grammar keep the names of variables;
* `tokens_wellFormed_variables_named` — **tokens have the forms of their kinds, and variables are named by names**;
* `starred_of_tokenize_variable` — a star with a qualifier is the name of a variable.
-/

import Mathlib
import XPathAnnotator.Proofs.Expr.RoundTrip
import XPathAnnotator.Proofs.Token.Disambiguation

namespace XPathAnnotator.Token

open XPathAnnotator.Text XPathAnnotator.Name

/-! ### Forms -/

/-- Digits with an optional fraction, or a point with digits after it. -/
inductive IsNumeral : List Char → Prop
  | whole {digits : List Char} (nonempty : digits ≠ []) (all : ∀ c ∈ digits, isDigit c = true) : IsNumeral digits
  | fraction {digits more : List Char} (nonempty : digits ≠ []) (all : ∀ c ∈ digits, isDigit c = true)
    (allMore : ∀ c ∈ more, isDigit c = true) : IsNumeral (digits ++ '.' :: more)
  | point {digits : List Char} (nonempty : digits ≠ []) (all : ∀ c ∈ digits, isDigit c = true) :
    IsNumeral ('.' :: digits)

/-- A name without colon, or two of them with a colon between. -/
def IsQName (text : String) : Prop :=
  isNCName text = true ∨
    ∃ qualifier localPart, isNCName qualifier = true ∧ isNCName localPart = true ∧ text = qualifier ++ ":" ++ localPart

/-- A name without colon before a colon and a star. -/
def IsStarred (text : String) : Prop := ∃ qualifier, isNCName qualifier = true ∧ text = qualifier ++ ":*"

/-- **The value of a token has the form of its kind.** -/
def WellFormed (token : Token) : Prop :=
  match token.kind with
  | .literal => '"' ∉ token.text.toList ∨ '\'' ∉ token.text.toList
  | .number => IsNumeral token.text.toList
  | .name => IsQName token.text
  | .anyName | .multiply => token.text = "*"
  | .anyNameIn => IsStarred token.text
  | .axisName => isNCName token.text = true
  | .functionName => IsQName token.text ∧ token.text ∉ nodeTypes
  | .nodeType => token.text ∈ nodeTypes
  | .targetTest => token.text = "processing-instruction"
  | .symbol text => token.text = text ∧ text ∈ symbolTexts

/-- A star with a qualifier that is taken for the name of a variable. -/
def StarredVariable (previous : Option Token) (token : Token) : Prop :=
  AfterSign previous ∧ token.kind = .name ∧ IsStarred token.text

theorem isQName_iff {text : String} : IsQName text ↔ ∃ name : QName, name.Proper ∧ name.text = text := by
  constructor
  · rintro (isName | ⟨qualifier, localPart, isQualifier, isLocal, rfl⟩)
    · exact ⟨⟨none, text⟩, ⟨by simp, isName⟩, rfl⟩
    · exact ⟨⟨some qualifier, localPart⟩, ⟨fun _ same => Option.some.inj same ▸ isQualifier, isLocal⟩, rfl⟩
  · rintro ⟨⟨qualifier?, localPart⟩, proper, rfl⟩
    cases qualifier? with
    | none => exact .inl proper.localPart
    | some qualifier => exact .inr ⟨qualifier, localPart, proper.qualifier qualifier rfl, proper.localPart, rfl⟩

theorem isStarred_iff {text : String} : IsStarred text ↔ ∃ name : QName, name.Starred ∧ name.text = text := by
  constructor
  · rintro ⟨qualifier, isName, rfl⟩
    exact ⟨⟨some qualifier, "*"⟩, ⟨qualifier, isName, rfl⟩, String.append_assoc ..⟩
  · rintro ⟨name, ⟨qualifier, isName, rfl⟩, rfl⟩
    exact ⟨qualifier, isName, String.append_assoc ..⟩

theorem IsStarred.endsWith {text : String} (starred : IsStarred text) : text.endsWith ":*" = true := by
  obtain ⟨qualifier, -, rfl⟩ := starred
  exact QName.endsWith_star qualifier

theorem IsStarred.not_isQName {text : String} (starred : IsStarred text) : ¬ IsQName text := by
  intro isName
  obtain ⟨name, proper, rfl⟩ := isQName_iff.mp isName
  exact absurd starred.endsWith (by simp [proper.endsWith_star])

/-! ### Numerals -/

theorem takeWhile_isDigit_ne_nil {c : Char} (digit : isDigit c = true) (rest : List Char) :
    (c :: rest).takeWhile isDigit ≠ [] := by
  rw [List.takeWhile_cons, if_pos digit]
  exact List.cons_ne_nil _ _

/-- **What is cut off as a number** at a digit is a numeral. -/
theorem isNumeral_take {c : Char} (digit : isDigit c = true) (rest : List Char) :
    IsNumeral ((c :: rest).take (numberLength (c :: rest))) := by
  have nonempty := takeWhile_isDigit_ne_nil digit rest
  have digits {ds : List Char} : ∀ c ∈ ds.takeWhile isDigit, isDigit c = true := fun c => List.mem_takeWhile_imp
  by_cases point : ∃ after, (c :: rest).dropWhile isDigit = '.' :: after
  · obtain ⟨after, begins⟩ := point
    rw [numberLength_of_point begins, take_add_one_eq ((drop_length_takeWhile _ _).trans begins),
      take_length_takeWhile, take_length_takeWhile]
    exact .fraction nonempty digits digits
  · rw [numberLength_of_noPoint fun after begins => point ⟨after, begins⟩, take_length_takeWhile]
    exact .whole nonempty digits

theorem isNumeral_point {rest : List Char} (digit : rest.head?.any isDigit = true) :
    IsNumeral ('.' :: rest.takeWhile isDigit) := by
  refine .point ?_ fun c => List.mem_takeWhile_imp
  cases rest with
  | nil => cases digit
  | cons c rest => exact takeWhile_isDigit_ne_nil digit rest

/-! ### Tokens -/

section Token

variable {previous : Option Kind} {token : Token} {rest : List Char} {c : Char} {shape : Shape} {count : Nat}

/-- A name is what its neighbours say it is, or the exception. -/
theorem Classified.wellFormed_or_starred {name : String} {kind : Kind} (parts : IsQName name ∨ IsStarred name)
    (classified : Classified previous name rest kind) :
    WellFormed ⟨kind, name⟩ ∨ previous = some (.symbol "$") ∧ kind = .name ∧ IsStarred name := by
  -- away from the sign of a variable, a star is known by its end
  have plain (ordinary : Ordinary previous name) : IsQName name :=
    parts.resolve_right fun starred => absurd starred.endsWith (by simp [ordinary.noStar])
  cases classified with
  | variableName sign => exact parts.imp id fun starred => ⟨sign, rfl, starred⟩
  | anyNameIn _ star =>
    refine .inl (parts.resolve_left fun isName => ?_)
    obtain ⟨name, proper, rfl⟩ := isQName_iff.mp isName
    exact absurd star (by simp [proper.endsWith_star])
  | operator _ listed =>
    have names : operatorNames ⊆ symbolTexts := by decide
    exact .inl ⟨rfl, names listed⟩
  | axis ordinary _ noColon =>
    refine .inl ((plain ordinary).resolve_right ?_)
    rintro ⟨qualifier, localPart, -, -, rfl⟩
    exact noColon (by simp)
  | function ordinary _ noType => exact .inl ⟨plain ordinary, noType⟩
  | target _ _ isTarget => exact .inl isTarget
  | nodeType _ _ listed => exact .inl listed
  | name ordinary => exact .inl (plain ordinary)

theorem wellFormed_symbol {symbol : String} (listed : symbol ∈ symbolTexts) :
    WellFormed ⟨if symbol != "*" then .symbol symbol else if endsOperand previous then .multiply else .anyName,
      symbol⟩ := by
  split
  · exact ⟨rfl, listed⟩
  · rename_i star
    have same : symbol = "*" := by simpa using star
    split
    · exact same
    · exact same

/-- **A token has the form of its kind**, or is a star with a qualifier after the sign of a variable. -/
theorem wellFormed_or_starred_of_tokenOf? (lexeme : lexemeAt? c rest = .ok (shape, count))
    (means : tokenOf? previous shape (c :: rest.take count) (rest.drop count) = some token) :
    token.WellFormed ∨ previous = some (.symbol "$") ∧ token.kind = .name ∧ IsStarred token.text := by
  cases begins_of_lexemeAt? lexeme with
  | blank => cases means
  | literal =>
    have sound := sound_tokenOf? lexeme means
    obtain rfl := Option.some.inj means
    exact .inl sound
  | digits digit =>
    obtain rfl := Option.some.inj means
    refine .inl (show IsNumeral (String.ofList _).toList from ?_)
    rw [String.toList_ofList, ← List.take_cons (numberLength_pos digit rest)]
    exact isNumeral_take digit rest
  | fraction point digit =>
    obtain rfl := Option.some.inj means
    refine .inl (show IsNumeral (String.ofList _).toList from ?_)
    rw [String.toList_ofList, take_length_takeWhile, point]
    exact isNumeral_point digit
  | long long =>
    obtain rfl := Option.some.inj means
    exact .inl (wellFormed_symbol (ofList_mem_symbolTexts (.inl long)))
  | short short =>
    obtain rfl := Option.some.inj means
    exact .inl (wellFormed_symbol (ofList_mem_symbolTexts (.inr ⟨c, short, rfl⟩)))
  | name start =>
    obtain rfl := Option.some.inj means
    obtain ⟨name, parts, written⟩ := exists_name rest start
    have named : String.ofList (c :: rest.take (qualifiedLength (c :: rest) - 1)) = name.text := by
      rw [← List.take_cons (qualifiedLength_pos start rest), ← written, String.ofList_toList]
    rw [named]
    refine (classified_classifyName previous name.text _).wellFormed_or_starred ?_
    exact parts.imp (fun proper => isQName_iff.mpr ⟨name, proper, rfl⟩)
      fun starred => isStarred_iff.mpr ⟨name, starred, rfl⟩

end Token

/-- The exception does not have the form of its kind. -/
theorem StarredVariable.not_wellFormed {previous : Option Token} {token : Token}
    (starred : StarredVariable previous token) : ¬ token.WellFormed := by
  obtain ⟨-, isName, starred⟩ := starred
  rw [WellFormed, isName]
  exact starred.not_isQName

/-- **All tokens of an expression have the forms of their kinds**, except for stars with a qualifier after the sign of a
variable. -/
theorem wellFormed_iff_of_tokenize {source : String} {before after : List Token} {token : Token}
    (cut : tokenize source = .ok (before ++ token :: after)) :
    token.WellFormed ↔ ¬ StarredVariable before.getLast? token := by
  refine ⟨fun wellFormed starred => starred.not_wellFormed wellFormed, fun noStar => ?_⟩
  obtain ⟨c, rest, shape, count, lexeme, means, -⟩ := (cuts_of_tokensAfter cut).exists_at
  rw [Option.or_none] at means
  exact (wellFormed_or_starred_of_tokenOf? lexeme means).resolve_right noStar

end XPathAnnotator.Token

namespace XPathAnnotator.Expr

open Token XPathAnnotator.Name

/-! ### Names of variables -/

/-- A text that stands among tokens as a star with a qualifier after the sign of a variable. -/
def OneOfStarred (tokens : List Token) (text : String) : Prop :=
  ∃ before token after, tokens = before ++ token :: after ∧ StarredVariable before.getLast? token ∧ token.text = text

/-- **A variable is named by a name**, or by one of the exceptions among the tokens. -/
def VariableNamed (tokens : List Token) (e : Expr) : Prop :=
  ∀ name, e = .reference name → IsQName name.text ∨ OneOfStarred tokens name.text

theorem OneOfStarred.isStarred {tokens : List Token} {text : String} (starred : OneOfStarred tokens text) :
    IsStarred text := by
  obtain ⟨_, _, _, -, ⟨-, -, starred⟩, rfl⟩ := starred
  exact starred

theorem text_ofText {text : String} (parts : IsQName text ∨ IsStarred text) : (QName.ofText text).text = text := by
  rcases parts with isName | starred
  · obtain ⟨name, proper, rfl⟩ := isQName_iff.mp isName
    rw [QName.ofText_text (.inl proper)]
  · obtain ⟨name, isStar, rfl⟩ := isStarred_iff.mp starred
    rw [QName.ofText_text (.inr isStar)]

/-- **The names of variables** are kept by the rules. -/
theorem keeps_variablesNamed (tokens : List Token) :
    Keeps WordMade (fun text => IsQName text ∨ OneOfStarred tokens text)
      (fun e => e.Shaped ∧ VariableNamed tokens e) fun _ => True where
  text _ := ⟨trivial, by simp [VariableNamed]⟩
  number _ := ⟨trivial, by simp [VariableNamed]⟩
  negate := ⟨trivial, by simp [VariableNamed]⟩
  binary := ⟨trivial, by simp [VariableNamed]⟩
  path shaped := ⟨shaped, by simp [VariableNamed]⟩
  filter shaped := ⟨shaped, by simp [VariableNamed]⟩
  call _ := ⟨trivial, by simp [VariableNamed]⟩
  reference := by
    intro text named
    refine ⟨trivial, ?_⟩
    rintro name ⟨rfl⟩
    rwa [text_ofText (named.imp_right OneOfStarred.isStarred)]
  variableName word := by
    obtain ⟨name, written, proper | ⟨sign, _⟩⟩ := WordMade.sound .name word (by simp)
    · exact .inl (isQName_iff.mpr ⟨name, proper, written⟩)
    · exact absurd sign (by simp)
  shaped := And.left
  nameTest _ := trivial
  anyNameIn _ := trivial
  nameless _ := trivial
  instruction := trivial

/-- After the sign of a variable there is a name, or one of the exceptions. -/
theorem eachVariable_named {source : String} {tokens : List Token} (cut : tokenize source = .ok tokens) :
    EachVariable (fun text => IsQName text ∨ OneOfStarred tokens text) tokens := by
  rintro sign name ⟨before, after, rfl⟩ isSign isName
  rw [List.append_assoc, List.cons_append, List.cons_append, List.nil_append] at cut
  have split : before ++ sign :: name :: after = (before ++ [sign]) ++ name :: after := by simp
  rw [split] at cut
  by_cases starred : StarredVariable (before ++ [sign]).getLast? name
  · exact .inr ⟨before ++ [sign], name, after, by simp, starred, rfl⟩
  · have wellFormed := (wellFormed_iff_of_tokenize cut).mpr starred
    rw [WellFormed, isName] at wellFormed
    exact .inl wellFormed

/-- **Tokens have the forms of their kinds, and variables are named by names.** Among the tokens of an expression
exactly the stars with a qualifier after the sign of a variable do not have the form of their kind; and every variable
in what the parser makes of them is named by a name, or by one of these. -/
theorem tokens_wellFormed_variables_named {source : String} {tokens : List Token} (cut : tokenize source = .ok tokens) :
    (∀ before token after, tokens = before ++ token :: after →
      (token.WellFormed ↔ ¬ StarredVariable before.getLast? token)) ∧
    ∀ e, parse source = .ok e → e.Everywhere (VariableNamed tokens) fun _ => True := by
  refine ⟨?_, fun e parsed => ?_⟩
  · rintro before token after rfl
    exact wellFormed_iff_of_tokenize cut
  · have everywhere := everywhere_of_parse (keeps_variablesNamed tokens) cut (eachVariable_named cut) parsed
    exact everywhere.mono (fun _ => And.right) fun _ => id

/-- The tokens of a product of a variable. -/
def doubled : List Token :=
  [⟨.symbol "$", "$"⟩, ⟨.name, "p:x"⟩, ⟨.multiply, "*"⟩, ⟨.number, "2."⟩]

theorem tokens_wellFormed_doubled : tokenize "$p:x*2." = .ok doubled ∧ (∀ token ∈ doubled, token.WellFormed) ∧
    ∀ e, parse "$p:x*2." = .ok e → e.Everywhere (VariableNamed doubled) fun _ => True := by
  have cut : tokenize "$p:x*2." = .ok doubled := by decide +kernel
  obtain ⟨forms, named⟩ := tokens_wellFormed_variables_named cut
  refine ⟨cut, fun token member => ?_, named⟩
  obtain ⟨before, after, split⟩ := List.append_of_mem member
  refine (forms before token after split).mpr fun starred => ?_
  have noStar : ∀ token ∈ doubled, token.text.endsWith ":*" = false := by decide +kernel
  exact absurd starred.2.2.endsWith (by simp [noStar token member])

/-- **A star with a qualifier is the name of a variable**: in `$p:*` the token after the sign is a name by its kind, and
the parser makes a variable of it, but there is no such name. -/
theorem starred_of_tokenize_variable :
    tokenize "$p:*" = .ok [⟨.symbol "$", "$"⟩, ⟨.name, "p:*"⟩] ∧ ¬ WellFormed ⟨.name, "p:*"⟩ ∧
    parse "$p:*" = .ok (.reference ⟨some "p", "*"⟩) ∧ ¬ IsQName (QName.text ⟨some "p", "*"⟩) := by
  have cut : tokenize "$p:*" = .ok [⟨.symbol "$", "$"⟩, ⟨.name, "p:*"⟩] := by decide +kernel
  have starred : IsStarred "p:*" := ⟨"p", by decide, rfl⟩
  have made : (Expr.reference ⟨some "p", "*"⟩).Printable EndsAtRoot := ⟨.inr ⟨"p", by decide, rfl⟩, trivial⟩
  exact ⟨cut, starred.not_isQName, parse_of_reads cut (reads_tokens _ made), starred.not_isQName⟩

end XPathAnnotator.Expr
