/-
**Abbreviations mean their longhand.**

In longhand every step names its axis: `//` is `/descendant-or-self::node()/`, `@` is `attribute::`, a step `.` is
`self::node()` and a step `..` is `parent::node()`, and a node test that no axis stands before is on the axis `child`.
Tokens are written in longhand one by one, by what stands before them; no table of the parser and no tree is needed for
it. What the parser reads is the same before and after, for the rules keep the parts that they are given, wherever in
an expression these stand: the steps that the parser puts in for `//` after a filter expression, at the root and within
a path are the ones that are written out.

* `Token.longhand`, `longhand` — tokens in longhand;
* `InLonghand`, `inLonghand_longhandAfter` — nothing is left to write out;
* `Stays`, `Row.reads_longhand` — what each rule makes of parts that are written out;
* `Reads.stays` — so a reading stays;
* `ofTokens_longhand` — so does the expression that is parsed.
-/

import Mathlib
import XPathAnnotator.Proofs.Expr.Abbreviations
import XPathAnnotator.Proofs.Expr.Rows

namespace XPathAnnotator

/-- The tokens of a named axis. -/
def Axis.tokens (axis : Axis) : List Token := [⟨.axisName, axis.name⟩, Token.symbol "::"]

/-- A step to any node on an axis. -/
def Step.toAny (axis : Axis) : Step := .mk axis .anyNode []

namespace Token

/-! ### Longhand -/

/-- The abbreviations, each with what it stands for. -/
def abbreviations : List (String × List Token) := [
  ("//", symbol "/" :: (Step.descendants.tokens ++ [symbol "/"])),
  ("@", Axis.attribute.tokens),
  (".", (Step.toAny .self).tokens),
  ("..", (Step.toAny .parent).tokens)]

/-- The marks that what comes after them belongs to: those of an axis, and the sign of a variable. -/
def leadingMarks : List String := ["::", "@", "$"]

/-- The terminals that node tests begin with. -/
def testStarts : List String :=
  ["QNAME", "ASTERISK_NAME_TEST", "NCNAME_COLON_ASTERISK", "NODE_TYPE", "PI_WITH_LITERAL"]

/-- Whether what comes after a token belongs to it. -/
def leads (token : Token) : Bool := leadingMarks.contains token.kind.terminal

/-- A token in longhand, by whether it belongs to the one before it: an abbreviation is written out, and a node test
gets the axis `child` if it has none. -/
def longhand (led : Bool) (token : Token) : List Token :=
  match abbreviations.lookup token.kind.terminal with
  | some written => written
  | none => if !led && testStarts.contains token.kind.terminal then Axis.child.tokens ++ [token] else [token]

/-- Tokens in longhand. -/
def longhandAfter (led : Bool) : List Token → List Token
  | [] => []
  | token :: rest => token.longhand led ++ longhandAfter token.leads rest

/-- No abbreviation is left, and every node test belongs to a mark before it. -/
def InLonghand (led : Bool) : List Token → Prop
  | [] => True
  | token :: rest =>
    abbreviations.lookup token.kind.terminal = none ∧ (token.kind.terminal ∈ testStarts → led = true) ∧
      InLonghand token.leads rest

/-- What every token of a text is: no end mark, and if it is the mark of two slashes, its text is two slashes. -/
structure Regular (token : Token) : Prop where
  noEnd : token.kind.terminal ≠ Grammar.endSymbol
  slashes : token.kind.terminal = "//" → token.text = "//"

variable {token : Token} {tokens more : List Token}

theorem text_of_classifyName {previous : Option Kind} {name mark : String} {rest : List Char}
    (symbol : classifyName previous name rest = .symbol mark) : name = mark := by
  unfold classifyName at symbol
  dsimp only at symbol
  repeat' split at symbol
  all_goals first | exact Kind.symbol.inj symbol | cases symbol

/-- A symbol is cut off as itself. -/
theorem text_of_symbol {previous : Option Kind} {shape : Shape} {lexeme rest : List Char} {mark : String}
    (means : tokenOf? previous shape lexeme rest = some token) (symbol : token.kind = .symbol mark) :
    token.text = mark := by
  cases shape with
  | blank => cases means
  | literal | number =>
    obtain rfl := Option.some.inj means
    cases symbol
  | name =>
    obtain rfl := Option.some.inj means
    exact text_of_classifyName symbol
  | symbol =>
    obtain rfl := Option.some.inj means
    dsimp only at symbol ⊢
    repeat' split at symbol
    all_goals first | exact Kind.symbol.inj symbol | cases symbol

theorem text_of_cuts {previous : Option Kind} {cs : List Char} (cuts : Cuts previous cs tokens) :
    ∀ token ∈ tokens, ∀ mark, token.kind = .symbol mark → token.text = mark := by
  induction cuts with
  | done previous => exact fun _ member => absurd member List.not_mem_nil
  | blanks _ _ ih => exact ih
  | lexeme _ means _ ih => exact List.forall_mem_cons.mpr ⟨fun _ => text_of_symbol means, ih⟩

theorem eq_symbol_of_terminal {kind : Kind} (isMark : kind.terminal = "//") : kind = .symbol "//" := by
  cases kind with
  | symbol mark => exact congrArg Kind.symbol isMark
  | _ => simp [Kind.terminal] at isMark

/-- All tokens of a text are such tokens. -/
theorem regular_of_tokenize {source : String} (cut : tokenize source = .ok tokens) (token : Token)
    (member : token ∈ tokens) : token.Regular where
  noEnd := Expr.terminal_ne_endSymbol (sound_of_tokensAfter cut) member
  slashes isMark := text_of_cuts (cuts_of_tokensAfter cut) token member "//" (eq_symbol_of_terminal isMark)

/-- A token that is neither an abbreviation nor the start of a node test stays as it is. -/
theorem longhand_of_lookup (noAbbreviation : abbreviations.lookup token.kind.terminal = none) {led : Bool}
    (named : token.kind.terminal ∈ testStarts → led = true) : token.longhand led = [token] := by
  rw [longhand, noAbbreviation]
  refine if_neg fun both => ?_
  rw [Bool.and_eq_true, Bool.not_eq_true', List.contains_iff_mem] at both
  exact absurd (named both.2) (Bool.eq_false_iff.mp both.1)

/-- Tokens in longhand stay as they are. -/
theorem InLonghand.longhandAfter_eq {led : Bool} (written : InLonghand led tokens) :
    longhandAfter led tokens = tokens := by
  induction tokens generalizing led with
  | nil => rfl
  | cons token rest ih =>
    rw [longhandAfter, longhand_of_lookup written.1 written.2.1, ih written.2.2, List.singleton_append]

theorem inLonghand_axis (axis : Axis) (led : Bool) (rest : InLonghand true tokens) :
    InLonghand led (axis.tokens ++ tokens) := by
  have name : abbreviations.lookup "AXIS_NAME" = none ∧ "AXIS_NAME" ∉ testStarts := by decide
  have mark : abbreviations.lookup "::" = none ∧ "::" ∉ testStarts := by decide
  exact ⟨name.1, fun starts => absurd starts name.2, mark.1, fun starts => absurd starts mark.2, rest⟩

theorem inLonghand_symbol (mark : String) (plain : abbreviations.lookup mark = none ∧ mark ∉ testStarts) (led : Bool)
    (rest : InLonghand (symbol mark).leads tokens) : InLonghand led (symbol mark :: tokens) :=
  ⟨plain.1, fun starts => absurd starts plain.2, rest⟩

theorem inLonghand_toAny (axis : Axis) (led : Bool) (rest : InLonghand false tokens) :
    InLonghand led ((Step.toAny axis).tokens ++ tokens) :=
  inLonghand_axis axis led ⟨by decide, fun _ => rfl,
    inLonghand_symbol "(" (by decide) _ (inLonghand_symbol ")" (by decide) _ rest)⟩

theorem inLonghand_longhand {led : Bool} (rest : InLonghand token.leads tokens) :
    InLonghand led (token.longhand led ++ tokens) := by
  unfold longhand
  cases found : abbreviations.lookup token.kind.terminal with
  | some written =>
    have listed : (token.kind.terminal, written) ∈ abbreviations := by
      obtain ⟨before, after, same, -⟩ := List.lookup_eq_some_iff.mp found
      rw [same]
      exact List.mem_append_right before List.mem_cons_self
    simp only [abbreviations, List.mem_cons, Prod.mk.injEq, List.not_mem_nil, or_false] at listed
    unfold leads at rest
    rcases listed with ⟨mark, rfl⟩ | ⟨mark, rfl⟩ | ⟨mark, rfl⟩ | ⟨mark, rfl⟩
    all_goals rw [mark] at rest
    · have long := inLonghand_toAny .descendantOrSelf false (inLonghand_symbol "/" (by decide) _ rest)
      rw [List.cons_append, List.append_assoc]
      exact inLonghand_symbol "/" (by decide) _ long
    · exact inLonghand_axis .attribute _ rest
    · exact inLonghand_toAny .self _ rest
    · exact inLonghand_toAny .parent _ rest
  | none =>
    dsimp only
    split
    · rw [List.append_assoc]
      exact inLonghand_axis .child _ ⟨found, fun _ => rfl, rest⟩
    next named =>
      rw [Bool.not_eq_true, Bool.and_eq_false_iff, Bool.not_eq_false', ← Bool.not_eq_true, List.contains_iff_mem]
        at named
      exact ⟨found, fun starts => named.resolve_right (not_not_intro starts), rest⟩

/-- **Nothing is left to write out.** -/
theorem inLonghand_longhandAfter (led : Bool) (tokens : List Token) : InLonghand led (longhandAfter led tokens) := by
  induction tokens generalizing led with
  | nil => trivial
  | cons token rest ih => exact inLonghand_longhand (ih token.leads)

/-- Rows of tokens are written in longhand one after the other. -/
theorem longhandAfter_append (led : Bool) (before : List Token) (last : Token) (more : List Token) :
    longhandAfter led (before ++ [last] ++ more) =
      longhandAfter led (before ++ [last]) ++ longhandAfter last.leads more := by
  induction before generalizing led with
  | nil => rw [List.nil_append, List.singleton_append, longhandAfter, longhandAfter, longhandAfter, List.append_nil]
  | cons token before ih =>
    rw [List.cons_append, List.cons_append, longhandAfter, longhandAfter, ih, List.append_assoc]

end Token

namespace Expr

open Grammar Token

/-! ### Symbols and their texts -/

/-- The symbols whose texts may be those of another symbol in longhand: what steps are made of. -/
def changing : List String := abbreviations.map Prod.fst ++ testStarts ++ ["NodeTest", "NameTest"]

/-- Whether what comes after the texts of a symbol belongs to them. -/
def endsLeading (s : String) : Bool := ("AxisSpecifier" :: leadingMarks).contains s

variable {s : String} {symbols : List String} {tokens more : List Token} {part : Part} {parts : List Part}

theorem axisSpecifier_mem_nonterminals : "AxisSpecifier" ∈ grammar.nonterminals := by
  rw [grammar_eq]
  decide

/-- What comes after a text is written out by what the text ends in. -/
theorem Reads.longhandAfter_append (reads : Reads s tokens part) (led : Bool) (more : List Token) :
    longhandAfter led (tokens ++ more) = longhandAfter led tokens ++ longhandAfter (endsLeading s) more := by
  obtain ⟨before, last, rfl, notLeft, same⟩ := reads.exists_last endsLeading (by decide)
  have noAxis : (last.kind.terminal == "AxisSpecifier") = false :=
    beq_false_of_ne fun same => notLeft (same ▸ axisSpecifier_mem_nonterminals)
  have leads : last.leads = endsLeading last.kind.terminal := by
    rw [endsLeading, List.contains_cons, noAxis, Bool.false_or]
    rfl
  rw [Token.longhandAfter_append, leads, same]

theorem longhand_of_not_changing {token : Token} (settled : token.kind.terminal ∉ changing) (led : Bool) :
    token.longhand led = [token] := by
  simp only [changing, List.mem_append, not_or] at settled
  refine longhand_of_lookup ?_ fun starts => absurd starts settled.1.2
  rw [List.lookup_eq_none_iff]
  intro pair member
  exact bne_iff_ne.mpr fun same => settled.1.1 (same ▸ List.mem_map_of_mem member)

/-- A reading of tokens of a text that stays in longhand, unless the symbol is one that steps are made of. -/
structure Stays (s : String) (tokens : List Token) (part : Part) : Prop where
  reads : Reads s tokens part
  regular : ∀ token ∈ tokens, token.Regular
  written : s ∉ changing → Reads s (longhandAfter false tokens) part

/-- **Parts one after the other** are the same in longhand, if no name belongs to a mark at the end of the part before
it. -/
theorem Row.readsAll_longhand (row : Row Stays symbols tokens parts) (settled : ∀ s ∈ symbols, s ∉ changing)
    (apart : ∀ s ∈ symbols.dropLast, endsLeading s = false) :
    ReadsAll symbols (longhandAfter false tokens) parts := by
  induction row with
  | nil => exact .nil
  | @cons s symbols tokens more part parts first rest ih =>
    rw [List.forall_mem_cons] at settled
    rw [first.reads.longhandAfter_append]
    refine .cons (first.written settled.1) ?_
    cases symbols with
    | nil =>
      cases rest
      exact .nil
    | cons next symbols =>
      rw [List.dropLast_cons_cons, List.forall_mem_cons] at apart
      rw [apart.1]
      exact ih settled.2 apart.2

/-! ### Node tests -/

/-- The rules of node tests: all but one have a terminal that node tests begin with, and others that stay. -/
theorem rules_test {k : Nat} {p : Production} (found : grammar.productions[k]? = some p)
    (test : p.left ∈ ["NodeTest", "NameTest"]) :
    k = 47 ∨ (∀ s ∈ p.right, s ∉ grammar.nonterminals) ∧ p.right.head p.right_ne_nil ∈ testStarts ∧
      ∀ s ∈ p.right.tail, abbreviations.lookup s = none ∧ s ∉ testStarts := by
  rw [grammar_eq]
  exact of_productions (Q := fun k p => p.left ∈ ["NodeTest", "NameTest"] →
    k = 47 ∨ (∀ s ∈ p.right, s ∉ (Grammar.mk "Expr" rules).nonterminals) ∧
      p.right.head p.right_ne_nil ∈ testStarts ∧
      ∀ s ∈ p.right.tail, abbreviations.lookup s = none ∧ s ∉ testStarts) (by decide) found test

/-- What is read as terminals are tokens of these kinds. -/
theorem Row.map_terminal_eq (row : Row Reads symbols tokens parts)
    (terminals : ∀ s ∈ symbols, s ∉ grammar.nonterminals) :
    tokens.map (fun token => token.kind.terminal) = symbols := by
  induction row with
  | nil => rfl
  | cons first _ ih =>
    rw [List.forall_mem_cons] at terminals
    obtain ⟨token, rfl, isTerminal, -⟩ := first.exists_token terminals.1
    rw [List.map_append, ih terminals.2, List.map_singleton, isTerminal, List.singleton_append]

theorem inLonghand_of_terminals {led : Bool}
    (stay : ∀ s ∈ tokens.map (fun token => token.kind.terminal), abbreviations.lookup s = none ∧ s ∉ testStarts) :
    InLonghand led tokens := by
  induction tokens generalizing led with
  | nil => trivial
  | cons token rest ih =>
    rw [List.map_cons, List.forall_mem_cons] at stay
    exact ⟨stay.1.1, fun starts => absurd starts stay.1.2, ih stay.2⟩

/-- A node test begins with one of the terminals that node tests begin with, and goes on in longhand. -/
theorem Reads.exists_start (reads : Reads s tokens part) (test : s ∈ ["NodeTest", "NameTest"]) :
    ∃ first rest, tokens = first :: rest ∧ first.kind.terminal ∈ testStarts ∧ ∀ led, InLonghand led rest := by
  refine Reads.induction (P := fun s tokens _ => s ∈ ["NodeTest", "NameTest"] → ∃ first rest,
    tokens = first :: rest ∧ first.kind.terminal ∈ testStarts ∧ ∀ led, InLonghand led rest) ?_ ?_ reads test
  · intro token notLeft test
    have lefts : ∀ s ∈ ["NodeTest", "NameTest"], s ∈ grammar.nonterminals := by
      rw [grammar_eq]
      decide
    exact absurd (lefts _ test) notLeft
  · intro k p tokens parts part found row _ test
    rcases rules_test found test with rfl | ⟨terminals, starts, stay⟩
    · rw [grammar_eq] at found
      obtain rfl := Option.some.inj found
      obtain _ | ⟨⟨-, start⟩, _ | _⟩ := row
      rw [List.append_nil]
      exact start (by decide)
    · have kinds := (row.imp fun _ _ _ _ both => both.1).map_terminal_eq terminals
      cases tokens with
      | nil => exact absurd kinds.symm p.right_ne_nil
      | cons first rest =>
        refine ⟨first, rest, rfl, ?_, fun led => inLonghand_of_terminals ?_⟩
        · simpa only [← kinds, List.map_cons, List.head_cons] using starts
        · simpa only [← kinds, List.map_cons, List.tail_cons] using stay

/-- **A node test in longhand**: it gets an axis, unless it has one. -/
theorem Reads.longhandAfter_test (reads : Reads s tokens part) (test : s ∈ ["NodeTest", "NameTest"]) :
    longhandAfter true tokens = tokens ∧ longhandAfter false tokens = Axis.child.tokens ++ tokens := by
  obtain ⟨first, rest, rfl, starts, stay⟩ := reads.exists_start test
  have apart : ∀ s ∈ testStarts, abbreviations.lookup s = none := by decide
  constructor
  · exact InLonghand.longhandAfter_eq ⟨apart _ starts, fun _ => rfl, stay _⟩
  · have alone : first.longhand false = Axis.child.tokens ++ [first] := by
      rw [longhand, apart _ starts]
      exact if_pos (List.contains_iff_mem.mpr starts)
    rw [longhandAfter, alone, (stay _).longhandAfter_eq, List.append_assoc, List.singleton_append]

/-! ### Steps -/

section Steps

variable {rest : List String} (settled : ∀ s ∈ rest, s ∉ changing) (apart : ∀ s ∈ rest.dropLast, endsLeading s = false)

include settled apart

/-- A node test and what comes after it. -/
theorem Row.readsAll_test (row : Row Stays ("NodeTest" :: rest) tokens parts) :
    ReadsAll ("NodeTest" :: rest) (longhandAfter true tokens) parts ∧
      longhandAfter false tokens = Axis.child.tokens ++ longhandAfter true tokens ∧
      ∃ test, parts.head? = some (.test test) := by
  obtain _ | ⟨first, later⟩ := row
  obtain ⟨test, rfl, -⟩ := first.reads.fits
  obtain ⟨led, alone⟩ := first.reads.longhandAfter_test (by decide)
  rw [first.reads.longhandAfter_append, first.reads.longhandAfter_append, led, alone]
  exact ⟨.cons first.reads (later.readsAll_longhand settled apart), List.append_assoc .., test, rfl⟩

/-- A step with an axis. -/
theorem Row.readsAll_axis (row : Row Stays ("AxisSpecifier" :: "NodeTest" :: rest) tokens parts) :
    ReadsAll ("AxisSpecifier" :: "NodeTest" :: rest) (longhandAfter false tokens) parts := by
  obtain _ | ⟨axis, later⟩ := row
  rw [axis.reads.longhandAfter_append]
  exact .cons (axis.written (by decide)) (later.readsAll_test settled apart).1

omit settled apart in
theorem makeStep_child {test : NodeTest} (begins : parts.head? = some (.test test))
    (built : makeStep parts = .ok part) : makeStep (.axis .child :: parts) = .ok part := by
  unfold makeStep at built
  split at built
  case h_1 | h_2 => cases begins
  case h_5 => cases built
  all_goals exact built

/-- A step without axis gets the axis `child`. -/
theorem Row.reads_child (row : Row Stays ("NodeTest" :: rest) tokens parts) (built : makeStep parts = .ok part)
    {k : Nat} (found : rules[k]? = some ⟨"Step", "AxisSpecifier" :: "NodeTest" :: rest, List.cons_ne_nil _ _⟩)
    (builder : builders.getD (k + 1) keep = makeStep) : Reads "Step" (longhandAfter false tokens) part := by
  obtain ⟨all, written, test, begins⟩ := row.readsAll_test settled apart
  rw [written]
  exact Reads.of_rule found (.cons (reads_axis .child) all) (by rw [builder, makeStep_child begins built])

end Steps

theorem marks_not_mem_nonterminals : ∀ s ∈ ["//", "@", ".", "..", "$", "QNAME"], s ∉ grammar.nonterminals := by
  rw [grammar_eq]
  decide

theorem longhandAfter_mark {mark : String} {written : List Token} (found : abbreviations.lookup mark = some written)
    (reads : Reads mark tokens part) (notLeft : mark ∉ grammar.nonterminals) (led : Bool) :
    longhandAfter led tokens = written ∧ ∃ text, part = .word text := by
  obtain ⟨token, rfl, rfl, rfl⟩ := reads.exists_token notLeft
  rw [longhandAfter, longhandAfter, longhand, found, List.append_nil]
  exact ⟨rfl, token.text, rfl⟩

theorem reads_toAny (axis : Axis) : Reads "Step" (Step.toAny axis).tokens (.step (Step.toAny axis)) :=
  reads_step axis made_anyNode fun _ member => absurd member List.not_mem_nil

theorem reads_descendants : Reads "Step" Step.descendants.tokens (.step .descendants) := reads_toAny .descendantOrSelf

/-- The steps `.` and `..`. -/
theorem Row.reads_toAny {mark : String} (axis : Axis) (row : Row Stays [mark] tokens parts)
    (found : abbreviations.lookup mark = some (Step.toAny axis).tokens) (notLeft : mark ∉ grammar.nonterminals)
    (built : anyNodeStep axis parts = .ok part) : Reads "Step" (longhandAfter false tokens) part := by
  obtain _ | ⟨first, _ | _⟩ := row
  obtain ⟨written, text, rfl⟩ := longhandAfter_mark found first.reads notLeft false
  obtain rfl := Except.ok.inj built
  rw [List.append_nil, written]
  exact Expr.reads_toAny axis

/-- The sign of attributes. -/
theorem Row.reads_attribute (row : Row Stays ["@"] tokens parts) (built : attributeAxis parts = .ok part) :
    Reads "AxisSpecifier" (longhandAfter false tokens) part := by
  obtain _ | ⟨first, _ | _⟩ := row
  obtain ⟨written, text, rfl⟩ := longhandAfter_mark rfl first.reads (marks_not_mem_nonterminals "@" (by decide)) false
  obtain rfl := Except.ok.inj built
  rw [List.append_nil, written]
  exact reads_axis .attribute

/-- The name of a variable belongs to its sign. -/
theorem Row.reads_reference (row : Row Stays ["$", "QNAME"] tokens parts) (built : variableReference parts = .ok part) :
    Reads "VariableReference" (longhandAfter false tokens) part := by
  have written : InLonghand false tokens := by
    obtain _ | ⟨sign, _ | ⟨name, _ | _⟩⟩ := row
    obtain ⟨first, rfl, isSign, -⟩ := sign.reads.exists_token (marks_not_mem_nonterminals "$" (by decide))
    obtain ⟨second, rfl, isName, -⟩ := name.reads.exists_token (marks_not_mem_nonterminals "QNAME" (by decide))
    refine ⟨?_, ?_, ?_, ?_, trivial⟩
    · rw [isSign]
      decide
    · rw [isSign]
      exact fun starts => absurd starts (by decide)
    · rw [isName]
      decide
    · unfold leads
      rw [isSign]
      exact fun _ => rfl
  rw [written.longhandAfter_eq]
  exact @Reads.of_rule 64 _ rfl _ _ _ (row.imp fun _ _ _ _ stays => stays.reads).readsAll built

/-! ### Paths -/

/-- The hidden step after a mark of two slashes, and the two slashes around it. -/
theorem longhandAfter_descendants (reads : Reads "//" tokens part) (regular : ∀ token ∈ tokens, token.Regular)
    (led : Bool) (more : List Token) : part = .word "//" ∧
      longhandAfter led (tokens ++ more) = Token.symbol "/" :: ((Step.descendants.tokens ++ [Token.symbol "/"]) ++
        longhandAfter false more) := by
  obtain ⟨token, rfl, isMark, rfl⟩ := reads.exists_token (marks_not_mem_nonterminals "//" (by decide))
  have text := (regular token List.mem_cons_self).slashes isMark
  have written := longhandAfter_mark rfl reads (marks_not_mem_nonterminals "//" (by decide)) led
  rw [reads.longhandAfter_append, written.1, text]
  exact ⟨rfl, rfl⟩

/-- The steps after two slashes, with the hidden step in front. -/
theorem Row.reads_descendants (row : Row Stays ["//", "RelativeLocationPath"] tokens parts) :
    ∃ steps some, parts = [.word "//", .path false steps] ∧
      (∀ led, longhandAfter led tokens = Token.symbol "/" :: some) ∧
      Reads "RelativeLocationPath" some (.path false (.descendants :: steps)) := by
  obtain _ | ⟨mark, _ | ⟨path, _ | _⟩⟩ := row
  obtain ⟨steps, rfl, -⟩ := path.reads.fits
  obtain ⟨rfl, -⟩ := longhandAfter_descendants mark.reads mark.regular false []
  have behind := Expr.reads_descendants.behind_step (path.written (by decide))
  refine ⟨steps, _, rfl, fun led => ?_, behind⟩
  rw [List.append_nil, (longhandAfter_descendants mark.reads mark.regular led _).2, List.append_assoc,
    List.singleton_append]

/-- Two slashes after a filter expression. -/
theorem Row.reads_filtered (row : Row Stays ["FilterExpr", "//", "RelativeLocationPath"] tokens parts)
    (built : filteredPath parts = .ok part) : Reads "PathExpr" (longhandAfter false tokens) part := by
  obtain _ | ⟨base, later⟩ := row
  obtain ⟨e, rfl, -⟩ := base.reads.fits
  obtain ⟨steps, some, rfl, written, reads⟩ := later.reads_descendants
  rw [base.reads.longhandAfter_append, written]
  refine @Reads.of_rule 26 _ rfl _ _ _ (.cons (base.written (by decide)) (.symbol "/" (by decide) reads.last)) ?_
  exact built

/-- Two slashes at the root. -/
theorem Row.reads_absolute (row : Row Stays ["//", "RelativeLocationPath"] tokens parts)
    (built : absolutePath parts = .ok part) : Reads "AbsoluteLocationPath" (longhandAfter false tokens) part := by
  obtain ⟨steps, some, rfl, written, reads⟩ := row.reads_descendants
  rw [written]
  exact @Reads.of_rule 33 _ rfl _ _ _ (.symbol "/" (by decide) reads.last) built

/-- Two slashes between steps. -/
theorem Row.reads_further (row : Row Stays ["RelativeLocationPath", "//", "Step"] tokens parts)
    (built : nextStep parts = .ok part) : Reads "RelativeLocationPath" (longhandAfter false tokens) part := by
  obtain _ | ⟨path, _ | ⟨mark, _ | ⟨last, _ | _⟩⟩⟩ := row
  obtain ⟨steps, rfl, -⟩ := path.reads.fits
  obtain ⟨step, rfl, -⟩ := last.reads.fits
  obtain ⟨rfl, -⟩ := longhandAfter_descendants mark.reads mark.regular false []
  obtain rfl := Except.ok.inj built
  have hidden : Reads "RelativeLocationPath" _ (.path false (steps ++ [.descendants])) :=
    @Reads.of_rule 36 _ rfl _ _ _ (.cons (path.written (by decide))
      (.symbol "/" (by decide) Expr.reads_descendants.last)) rfl
  have all := ReadsAll.cons hidden (.symbol "/" (by decide) (last.written (by decide)).last)
  have whole := @Reads.of_rule 36 _ rfl _ _ _ all rfl
  rw [List.append_nil, path.reads.longhandAfter_append, (longhandAfter_descendants mark.reads mark.regular _ _).2]
  simpa [stepsAfter] using whole

/-! ### All rules -/

/-- The rules in which something changes in longhand: in all others the parts stay side by side. -/
theorem rules_changing {k : Nat} {p : Production} (found : grammar.productions[k]? = some p)
    (settled : p.left ∉ changing) :
    (∀ s ∈ p.right, s ∉ changing) ∧ (∀ s ∈ p.right.dropLast, endsLeading s = false) ∨
      k ∈ [28, 35, 38, 39, 40, 41, 42, 43, 44, 46, 65] :=
  of_productions (Q := fun k p => p.left ∉ changing →
    (∀ s ∈ p.right, s ∉ changing) ∧ (∀ s ∈ p.right.dropLast, endsLeading s = false) ∨
      k ∈ [28, 35, 38, 39, 40, 41, 42, 43, 44, 46, 65]) (by decide) found settled

/-- **What a rule makes of parts is the same in longhand.** -/
theorem Row.reads_longhand {k : Nat} {p : Production} (found : grammar.productions[k]? = some p)
    (row : Row Stays p.right tokens parts) (built : builders.getD k keep parts = .ok part)
    (settled : p.left ∉ changing) : Reads p.left (longhandAfter false tokens) part := by
  rcases rules_changing found settled with ⟨stay, apart⟩ | changes
  · exact Reads.of_production found (row.readsAll_longhand stay apart) built
  · rw [grammar_eq] at found
    simp only [List.mem_cons, List.not_mem_nil, or_false] at changes
    rcases changes with rfl | rfl | rfl | rfl | rfl | rfl | rfl | rfl | rfl | rfl | rfl
    all_goals obtain rfl := Option.some.inj found
    -- paths
    · exact row.reads_filtered built
    · exact row.reads_absolute built
    · exact row.reads_further built
    -- steps
    · exact @Reads.of_rule 38 _ rfl _ _ _ (row.readsAll_axis (by decide) (by decide)) built
    · exact @Reads.of_rule 39 _ rfl _ _ _ (row.readsAll_axis (by decide) (by decide)) built
    · exact row.reads_child (k := 38) (by decide) (by decide) built rfl rfl
    · exact row.reads_child (k := 39) (by decide) (by decide) built rfl rfl
    · exact row.reads_toAny .self rfl (marks_not_mem_nonterminals _ (by decide)) built
    · exact row.reads_toAny .parent rfl (marks_not_mem_nonterminals _ (by decide)) built
    -- the axis of attributes, and variables
    · exact row.reads_attribute built
    · exact row.reads_reference built

/-- **A reading stays in longhand**, if its symbol is none that steps are made of. -/
theorem Reads.stays (reads : Reads s tokens part) (regular : ∀ token ∈ tokens, token.Regular) :
    Stays s tokens part := by
  refine Reads.induction (P := fun s tokens part => (∀ token ∈ tokens, token.Regular) → Stays s tokens part)
    ?_ ?_ reads regular
  · intro token notLeft regular
    refine ⟨reads_word notLeft, regular, fun settled => ?_⟩
    rw [longhandAfter, longhandAfter, longhand_of_not_changing settled, List.append_nil]
    exact reads_word notLeft
  · intro k p tokens parts part found row built regular
    have stays : Row Stays p.right tokens parts :=
      row.imp fun s some part inTokens both => both.2 fun token member => regular token (inTokens token member)
    have reads := (row.imp fun _ _ _ _ both => both.1).readsAll
    exact ⟨Reads.of_production found reads built, regular, stays.reads_longhand found built⟩

/-- **Abbreviated syntax means its longhand**: if tokens like those of a text are parsed as an expression, then they are
parsed as the same one when all of them are written in longhand, where no abbreviation and no step without axis is
left. -/
theorem ofTokens_longhand {tokens : List Token} (regular : ∀ token ∈ tokens, token.Regular) {e : Expr}
    (parsed : ofTokens tokens = .ok e) :
    ofTokens (longhandAfter false tokens) = .ok e ∧ InLonghand false (longhandAfter false tokens) := by
  have reads := reads_of_ofTokens (fun token member => (regular token member).noEnd) parsed
  exact ⟨ofTokens_of_reads ((reads.stays regular).written (by decide)), inLonghand_longhandAfter false tokens⟩

/-- A filter expression with abbreviations in its predicate and after it. -/
def itemTokens : List Token :=
  [Token.symbol "(", ⟨.name, "item"⟩, Token.symbol ")", Token.symbol "[", Token.symbol "@", ⟨.name, "ref"⟩,
    Token.symbol "]", Token.symbol "//", Token.symbol "..", Token.symbol "/", ⟨.anyName, "*"⟩]

/-- What it is parsed as. -/
def itemExpr : Expr :=
  .filter (.path false [childNamed "item"]) [.path false [.mk .attribute (.name ⟨none, "ref"⟩) []]]
    [.descendants, .toAny .parent, .mk .child .anyName []]

theorem ofTokens_itemTokens : ofTokens itemTokens = .ok itemExpr := by
  have isMark : ∀ s ∈ ["//", "..", "/"], s ∈ grammar.terminals := by
    rw [grammar_eq]
    decide
  have byName {step : Step} (isBrief : step.Brief) : Reads "Expr" step.brief (.expr (.path false [step])) :=
    (reads_location (@Reads.keep _ _ _ (@Reads.of_rule 35 _ rfl _ _ _ (reads_brief_step isBrief).last rfl)
      30 _ rfl rfl)).rise (i := 1) (j := 10) (by decide) (Nat.le_refl 10)
  have item := reads_parenthesized (byName (@Step.Brief.toChild "item" (by decide)))
  have ref : Reads "Predicate" _ _ := @reads_between _ _ _ _ _ _ 54
    (byName (@Step.Brief.toAttribute "ref" (by decide))) (by decide) (by decide) rfl rfl
  have filtered : Reads "FilterExpr" _ _ := @Reads.of_rule 29 _ rfl _ _ _ (.cons item ref.last) rfl
  have parent : Reads "Step" _ (.step (.toAny .parent)) :=
    @Reads.of_rule 43 _ rfl _ _ _ (@reads_token (Token.symbol "..") (isMark _ (by decide))).last rfl
  have all : Reads "Step" _ (.step (.mk .child .anyName [])) :=
    @Reads.of_rule 40 _ rfl _ _ _ (@reads_test .anyName trivial).last rfl
  have first : Reads "RelativeLocationPath" _ _ := @Reads.of_rule 35 _ rfl _ _ _ parent.last rfl
  have path : Reads "RelativeLocationPath" _ _ := @Reads.of_rule 36 _ rfl _ _ _
    (.cons first (.cons (@reads_token (Token.symbol "/") (isMark _ (by decide))) all.last)) rfl
  have whole : Reads "PathExpr" itemTokens (.expr itemExpr) := @Reads.of_rule 27 _ rfl _ _ _
    (.cons filtered (.cons (@reads_token (Token.symbol "//") (isMark _ (by decide))) path.last)) rfl
  exact ofTokens_of_reads (whole.rise (i := 1) (j := 10) (by decide) (Nat.le_refl 10))

theorem ofTokens_longhand_item : Token.tokenize "(item)[@ref]//../*" = .ok itemTokens ∧
    ofTokens itemTokens = .ok itemExpr ∧
    Token.tokenize "(child::item)[attribute::ref]/descendant-or-self::node()/parent::node()/child::*" =
      .ok (longhandAfter false itemTokens) ∧
    ofTokens (longhandAfter false itemTokens) = .ok itemExpr := by
  have cut : Token.tokenize "(item)[@ref]//../*" = .ok itemTokens := by decide +kernel
  exact ⟨cut, ofTokens_itemTokens, by decide +kernel,
    (ofTokens_longhand (regular_of_tokenize cut) ofTokens_itemTokens).1⟩

end Expr

end XPathAnnotator
