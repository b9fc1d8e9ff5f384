/-
**Tokens between their neighbours.**

What a name or a star means depends on the token before it and on the characters after it. So a piece of a written
expression is cut into its tokens where an operand may begin (`Open`), or after the end of one, and as long as what
follows may come after an operand (`Closes`).

* `Open.classifyName_of_closes`, `Open.classifyName_of_parenthesis`, `Open.classifyName_of_colons` — what a name is
  where an operand may begin;
* `classifyName_operator` — the names of operators after an operand;
* `lexes_axis`, `lexes_test`, `lexes_operator` — axes, node tests and operators.
-/

import Mathlib
import XPathAnnotator.Proofs.Expr.Spelling
import XPathAnnotator.Proofs.Token.Lexing

namespace XPathAnnotator

open XPathAnnotator.Name XPathAnnotator.Text

namespace Token

/-! ### Neighbours -/

/-- After a token of this kind an operand may begin, and it is not the name of a variable. -/
structure Open (previous : Option Kind) : Prop where
  operand : endsOperand previous = false
  noVariable : previous ≠ some (.symbol "$")

/-- What may come after an operand: a blank before an operator, a closing mark, a comma, a predicate or a slash. -/
structure Closes (rest : List Char) : Prop where
  head : ∀ c ∈ rest.head?, c ∈ [' ', ')', ']', '[', ',', '/']
  after : ∀ c ∈ (rest.dropWhile isBlank).head?, c ≠ ':' ∧ c ≠ '('

theorem closes_nil : Closes [] := ⟨by simp, by simp⟩

theorem closes_mark {c : Char} (mark : c ∈ [')', ']', '[', ',', '/']) (rest : List Char) : Closes (c :: rest) := by
  have facts : isBlank c = false ∧ c ≠ ':' ∧ c ≠ '(' := by
    simp only [List.mem_cons, List.not_mem_nil, or_false] at mark
    rcases mark with rfl | rfl | rfl | rfl | rfl <;> decide
  have kept : (c :: rest).dropWhile isBlank = c :: rest := by
    rw [List.dropWhile_cons, if_neg (by simp [facts.1])]
  refine ⟨fun d head => ?_, fun d head => ?_⟩
  · obtain rfl : c = d := by simpa using head
    exact List.mem_cons_of_mem _ mark
  · rw [kept] at head
    obtain rfl : c = d := by simpa using head
    exact facts.2

theorem Closes.endsName {rest : List Char} (closes : Closes rest) : EndsName rest := by
  refine ⟨fun c head => isNameChar_of_mem_marks ?_, ?_⟩
  · have member := closes.head c head
    simp only [List.mem_cons, List.not_mem_nil, or_false] at member
    simp only [marks, List.mem_cons]
    tauto
  · rintro after rfl
    exact absurd (closes.head ':' rfl) (by decide)

/-- A numeral ends where an operand does. -/
theorem Closes.endsNumeral {rest : List Char} (closes : Closes rest) :
    ∀ c ∈ rest.head?, isDigit c = false ∧ c ≠ '.' := by
  have all : [' ', ')', ']', '[', ',', '/'].all (fun c => !isDigit c && c != '.') = true := by decide
  intro c head
  simpa using List.all_eq_true.mp all c (closes.head c head)

section Classify

variable {previous : Option Kind} {name : String} {rest : List Char}

/-- A name at the end of an operand is a name test. -/
theorem Open.classifyName_of_closes (isOpen : Open previous) (noStar : name.endsWith ":*" = false)
    (closes : Closes rest) : classifyName previous name rest = .name := by
  have noVariable : (previous == some (.symbol "$")) = false := beq_eq_false_iff_ne.mpr isOpen.noVariable
  have noColon := not_isPrefixOf_of_head fun c head => (closes.after c head).1
  unfold classifyName
  simp only [noVariable, noStar, isOpen.operand, noColon, Bool.false_and, Bool.false_eq_true, if_false]
  split
  · rename_i inside begins
    exact absurd rfl (closes.after '(' (by rw [begins]; rfl)).2
  · rfl

/-- A name before a parenthesis is a function or a node type. -/
theorem Open.classifyName_of_parenthesis (isOpen : Open previous) (noStar : name.endsWith ":*" = false) :
    classifyName previous name ('(' :: rest) =
      if !nodeTypes.contains name then .functionName
      else if name == "processing-instruction" &&
          ((rest.dropWhile isBlank).head?.any fun c => c == '"' || c == '\'') then .targetTest
      else .nodeType := by
  have noVariable : (previous == some (.symbol "$")) = false := beq_eq_false_iff_ne.mpr isOpen.noVariable
  have kept : ('(' :: rest).dropWhile isBlank = '(' :: rest := rfl
  have noColon : [':', ':'].isPrefixOf ('(' :: rest) = false := rfl
  unfold classifyName
  simp only [noVariable, noStar, isOpen.operand, kept, noColon, Bool.false_and, Bool.false_eq_true, if_false]

/-- A name without colon before two colons is an axis. -/
theorem Open.classifyName_of_colons (isOpen : Open previous) (noStar : name.endsWith ":*" = false)
    (noColon : ':' ∉ name.toList) : classifyName previous name (':' :: ':' :: rest) = .axisName := by
  have noVariable : (previous == some (.symbol "$")) = false := beq_eq_false_iff_ne.mpr isOpen.noVariable
  have kept : (':' :: ':' :: rest).dropWhile isBlank = ':' :: ':' :: rest := rfl
  have colons : [':', ':'].isPrefixOf (':' :: ':' :: rest) = true := by simp [List.isPrefixOf]
  have absent : name.toList.contains ':' = false := by simpa using noColon
  unfold classifyName
  simp only [noVariable, noStar, isOpen.operand, kept, colons, absent, Bool.false_and, Bool.false_eq_true,
    Bool.not_false, Bool.and_true, if_false, if_true]

/-- A name of an operator after an operand is this operator. -/
theorem classifyName_operator (operand : endsOperand previous = true) (noStar : name.endsWith ":*" = false)
    (member : name ∈ operatorNames) : classifyName previous name rest = .symbol name := by
  have noVariable : (previous == some (.symbol "$")) = false := by
    rw [beq_eq_false_iff_ne]
    rintro rfl
    exact absurd operand (by decide)
  have listed : operatorNames.contains name = true := List.contains_iff_mem.mpr member
  unfold classifyName
  simp only [noVariable, noStar, operand, listed, Bool.and_self, Bool.false_eq_true, if_false, if_true]

/-- Any name after the sign of a variable is its name. -/
theorem classifyName_variable : classifyName (some (.symbol "$")) name rest = .name := rfl

end Classify

/-! ### Symbols -/

/-- A symbol of one character that begins no longer one. -/
theorem lexes_mark (previous : Option Kind) (c : Char)
    (mark : c ∈ ['(', ')', '[', ']', ',', '|', '+', '-', '=', '$']) :
    Lexes previous [c] [Token.symbol (String.ofList [c])] (some (.symbol (String.ofList [c]))) fun _ => True := by
  have one (plain : c ∈ plainSymbols) (noStar : c ≠ '*') (ends : ∀ rest, EndsSymbol c rest) :
      Lexes previous [c] [Token.symbol (String.ofList [c])] (some (.symbol (String.ofList [c]))) fun _ => True :=
    (lexes_shortSymbol plain noStar).mono fun rest _ => ends rest
  simp only [List.mem_cons, List.not_mem_nil, or_false] at mark
  rcases mark with rfl | rfl | rfl | rfl | rfl | rfl | rfl | rfl | rfl | rfl <;>
    exact one (by decide) (by decide) fun rest => by simp [EndsSymbol, longSymbols]

theorem lexes_slash (previous : Option Kind) :
    Lexes previous "/".toList [Token.symbol "/"] (some (.symbol "/")) fun rest => rest.head? ≠ some '/' := by
  refine (@lexes_shortSymbol previous '/' (by decide) (by decide)).mono fun rest other => ?_
  cases rest with
  | nil => simp [EndsSymbol, longSymbols]
  | cons c rest =>
    have different : c ≠ '/' := fun same => other (by simp [same])
    simp [EndsSymbol, longSymbols, different]

theorem lexes_colons (previous : Option Kind) :
    Lexes previous "::".toList [Token.symbol "::"] (some (.symbol "::")) fun _ => True :=
  @lexes_longSymbol previous ':' ':' (by decide)

/-! ### Names -/

theorem endsName_cons {c : Char} (mark : c ∈ marks) (noColon : c ≠ ':') (rest : List Char) :
    EndsName (c :: rest) := by
  refine ⟨fun d head => ?_, fun after same => absurd (List.cons.inj same).1 noColon⟩
  obtain rfl : c = d := by simpa using head
  exact isNameChar_of_mem_marks mark

theorem endsName_colons (rest : List Char) : EndsName (':' :: ':' :: rest) := by
  refine ⟨fun c head => ?_, fun after same => ?_⟩
  · obtain rfl : ':' = c := by simpa using head
    exact isNameChar_of_mem_marks (by decide)
  · obtain rfl := (List.cons.inj same).2
    exact ⟨by rw [nameLength, if_neg (by decide)], by simp⟩

section Words

variable {previous : Option Kind} {word : String}

theorem proper_word (isName : isNCName word = true) : QName.Proper ⟨none, word⟩ :=
  ⟨fun _ none => absurd none (by simp), isName⟩

theorem noStar_word (isName : isNCName word = true) : word.endsWith ":*" = false := (proper_word isName).endsWith_star

/-- A name without colon. -/
theorem lexes_word (isName : isNCName word = true) (kind : Kind) :
    Lexes previous word.toList [⟨kind, word⟩] (some kind)
      fun rest => EndsName rest ∧ classifyName previous word rest = kind :=
  lexes_name (.inl (proper_word isName)) kind

end Words

theorem isNCName_axis (axis : Axis) : isNCName axis.name = true := by cases axis <;> decide

/-- **The name of an axis** before two colons. -/
theorem lexes_axis {previous : Option Kind} (isOpen : Open previous) (axis : Axis) :
    Lexes previous (axis.name.toList ++ "::".toList) [⟨.axisName, axis.name⟩, Token.symbol "::"]
      (some (.symbol "::")) fun _ => True := by
  have isName := isNCName_axis axis
  have noColon : ':' ∉ axis.name.toList := not_mem_of_isNCName isName (by decide)
  refine (lexes_word isName .axisName).append (lexes_colons _) fun rest _ => ⟨endsName_colons _, ?_⟩
  exact isOpen.classifyName_of_colons (noStar_word isName) noColon

/-! ### Node tests -/

theorem open_colons : Open (some (.symbol "::")) := ⟨by decide, by decide⟩

theorem isNCName_nodeType {name : String} (member : name ∈ nodeTypes) : isNCName name = true := by
  have all : nodeTypes.all isNCName = true := by decide
  exact List.all_eq_true.mp all name member

/-- A node type between parentheses. -/
theorem lexes_nodeType (name : String) (member : name ∈ nodeTypes) :
    Lexes (some (.symbol "::")) (name.toList ++ (['('] ++ [')'])) (NodeTest.typeTokens name) (some (.symbol ")"))
      Closes := by
  have isName := isNCName_nodeType member
  have listed : nodeTypes.contains name = true := List.contains_iff_mem.mpr member
  have parentheses : Lexes (some .nodeType) (['('] ++ [')']) [Token.symbol "(", Token.symbol ")"]
      (some (.symbol ")")) Closes :=
    (lexes_mark _ '(' (by decide)).before ((lexes_mark _ ')' (by decide)).mono fun _ _ => trivial)
  refine (lexes_word isName .nodeType).append parentheses fun rest _ => ⟨endsName_cons (by decide) (by decide) _, ?_⟩
  have noQuote : ((')' :: rest).dropWhile isBlank).head?.any (fun c => c == '"' || c == '\'') = false := rfl
  rw [List.append_assoc, List.singleton_append, List.singleton_append,
    open_colons.classifyName_of_parenthesis (noStar_word isName), listed, noQuote]
  simp

/-- A processing instruction with a target between double quotes. -/
theorem lexes_target {target : List Char} (legible : '"' ∉ target) :
    Lexes (some (.symbol "::"))
      ("processing-instruction".toList ++ (['('] ++ (('"' :: (target ++ ['"'])) ++ [')'])))
      [⟨.targetTest, "processing-instruction"⟩, Token.symbol "(", ⟨.literal, String.ofList target⟩, Token.symbol ")"]
      (some (.symbol ")")) Closes := by
  have isName : isNCName "processing-instruction" = true := isNCName_nodeType (by decide)
  have inside : Lexes (some .targetTest) (['('] ++ (('"' :: (target ++ ['"'])) ++ [')']))
      [Token.symbol "(", ⟨.literal, String.ofList target⟩, Token.symbol ")"] (some (.symbol ")")) Closes :=
    (lexes_mark _ '(' (by decide)).before ((lexes_quoted (.inl rfl) legible).before
      ((lexes_mark _ ')' (by decide)).mono fun _ _ => trivial))
  refine (lexes_word isName .targetTest).append inside fun rest _ => ⟨endsName_cons (by decide) (by decide) _, ?_⟩
  have listed : nodeTypes.contains "processing-instruction" = true := by decide
  have quote : (('"' :: (target ++ ['"']) ++ [')'] ++ rest).dropWhile isBlank).head?.any
      (fun c => c == '"' || c == '\'') = true := rfl
  rw [List.append_assoc, List.singleton_append,
    open_colons.classifyName_of_parenthesis (noStar_word isName), listed, quote]
  simp

/-- **A node test** after the axis. -/
theorem lexes_test {test : NodeTest} (made : test.Made) (legible : test.Legible) :
    ∃ last, endsOperand last = true ∧ Lexes (some (.symbol "::")) test.print.toList test.tokens last Closes := by
  cases test with
  | anyName => exact ⟨some .anyName, rfl, (lexes_star _).mono fun _ _ => trivial⟩
  | anyNameIn qualifier =>
    have starred : QName.Starred ⟨some qualifier, "*"⟩ := ⟨qualifier, made, rfl⟩
    have written : QName.text ⟨some qualifier, "*"⟩ = qualifier ++ ":*" := String.append_assoc ..
    have lexes := @lexes_name (some (.symbol "::")) _ (.inr starred) .anyNameIn
    rw [written] at lexes
    refine ⟨some .anyNameIn, rfl, lexes.mono fun rest closes => ⟨closes.endsName, ?_⟩⟩
    have noVariable : (some (Kind.symbol "::") == some (.symbol "$")) = false := by decide
    rw [classifyName, noVariable, QName.endsWith_star]
    rfl
  | name written =>
    refine ⟨some .name, rfl, (lexes_name (.inl made) .name).mono fun rest closes => ⟨closes.endsName, ?_⟩⟩
    exact open_colons.classifyName_of_closes (QName.Proper.endsWith_star made) closes
  | comment => exact ⟨some (.symbol ")"), by decide, lexes_nodeType "comment" (by decide)⟩
  | text => exact ⟨some (.symbol ")"), by decide, lexes_nodeType "text" (by decide)⟩
  | anyNode => exact ⟨some (.symbol ")"), by decide, lexes_nodeType "node" (by decide)⟩
  | instruction target? =>
    cases target? with
    | none => exact ⟨some (.symbol ")"), by decide, lexes_nodeType "processing-instruction" (by decide)⟩
    | some target =>
      have lexes := @lexes_target target.toList legible
      have opening : "processing-instruction(\"".toList = "processing-instruction".toList ++ ['(', '"'] := by
        decide
      have closing : "\")".toList = ['"', ')'] := rfl
      have written : (NodeTest.instruction (some target)).print.toList =
          "processing-instruction".toList ++ (['('] ++ (('"' :: (target.toList ++ ['"'])) ++ [')'])) := by
        unfold NodeTest.print
        simp only [String.toList_append, opening, closing, List.append_assoc, List.cons_append, List.nil_append]
      rw [← written, String.ofList_toList] at lexes
      exact ⟨some (.symbol ")"), by decide, lexes⟩

/-! ### Operators -/

theorem endsName_of_space {rest : List Char} (space : rest.head? = some ' ') : EndsName rest := by
  cases rest with
  | nil => exact absurd space (by simp)
  | cons c rest =>
    obtain rfl : c = ' ' := by simpa using space
    exact endsName_cons (by decide) (by decide) rest

theorem lexes_operatorName {previous : Option Kind} (operand : endsOperand previous = true) {name : String}
    (member : name ∈ operatorNames) :
    Lexes previous name.toList [Token.symbol name] (some (.symbol name)) fun rest => rest.head? = some ' ' := by
  have all : operatorNames.all isNCName = true := by decide
  have isName : isNCName name = true := List.all_eq_true.mp all name member
  exact (lexes_word isName _).mono fun rest space =>
    ⟨endsName_of_space space, classifyName_operator operand (noStar_word isName) member⟩

theorem endsSymbol_of_space {c : Char} {rest : List Char} (space : rest.head? = some ' ') : EndsSymbol c rest := by
  cases rest with
  | nil => exact absurd space (by simp)
  | cons d rest =>
    obtain rfl : d = ' ' := by simpa using space
    simp [EndsSymbol, longSymbols]

/-- **An operator** before a blank, after the end of an operand if it looks like a name. -/
theorem lexes_operator (operator : Operator) {previous : Option Kind}
    (operand : operator.LooksLikeName → endsOperand previous = true) :
    Lexes previous operator.symbol.toList [operator.token] (some operator.token.kind)
      fun rest => rest.head? = some ' ' := by
  have mark (c : Char) (isMark : c ∈ ['(', ')', '[', ']', ',', '|', '+', '-', '=', '$']) :=
    (lexes_mark previous c isMark).mono fun rest (_ : rest.head? = some ' ') => trivial
  have long {c d : Char} (isLong : [c, d] ∈ longSymbols) :=
    (lexes_longSymbol previous isLong).mono fun rest (_ : rest.head? = some ' ') => trivial
  have short {c : Char} (isPlain : c ∈ plainSymbols) (noStar : c ≠ '*') :=
    (@lexes_shortSymbol previous c isPlain noStar).mono fun rest space => endsSymbol_of_space space
  cases operator with
  | or => exact lexes_operatorName (operand trivial) (by decide)
  | and => exact lexes_operatorName (operand trivial) (by decide)
  | div => exact lexes_operatorName (operand trivial) (by decide)
  | mod => exact lexes_operatorName (operand trivial) (by decide)
  | multiply =>
    have multiplies : (if endsOperand previous then Kind.multiply else .anyName) = .multiply :=
      if_pos (operand trivial)
    have lexes := lexes_star previous
    rw [multiplies] at lexes
    exact lexes.mono fun _ _ => trivial
  | equal => exact mark '=' (by decide)
  | plus => exact mark '+' (by decide)
  | minus => exact mark '-' (by decide)
  | union => exact mark '|' (by decide)
  | notEqual => exact @long '!' '=' (by decide)
  | lessOrEqual => exact @long '<' '=' (by decide)
  | greaterOrEqual => exact @long '>' '=' (by decide)
  | less => exact @short '<' (by decide) (by decide)
  | greater => exact @short '>' (by decide) (by decide)

/-- After an operator an operand may begin. -/
theorem open_operator (operator : Operator) : Open (some operator.token.kind) := by
  cases operator <;> exact ⟨by decide, by decide⟩

/-- A blank and an operator close an operand. -/
theorem closes_operator (operator : Operator) (rest : List Char) :
    Closes (' ' :: (operator.symbol.toList ++ rest)) := by
  obtain ⟨first, others, written, visible, noColon, noOpening⟩ : ∃ first others,
      operator.symbol.toList = first :: others ∧ isBlank first = false ∧ first ≠ ':' ∧ first ≠ '(' := by
    cases operator <;> exact ⟨_, _, rfl, by decide, by decide, by decide⟩
  refine ⟨fun c head => ?_, fun c head => ?_⟩
  · obtain rfl : ' ' = c := by simpa using head
    decide
  · have blank : isBlank ' ' = true := rfl
    rw [written, List.cons_append, List.dropWhile_cons, if_pos blank, List.dropWhile_cons,
      if_neg (by simp [visible])] at head
    obtain rfl : first = c := by simpa using head
    exact ⟨noColon, noOpening⟩

end Token

end XPathAnnotator
