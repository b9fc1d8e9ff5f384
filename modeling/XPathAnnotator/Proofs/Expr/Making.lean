/-
**What the parser makes.**

The tokens of a text are known by their kinds, and a name that is a qualified star stands only after the sign of a
variable. No symbol but this sign ends in it, so along a derivation tree only the rule of variables meets such
names. What is known of the words then goes over to the expression that is parsed.

* `worded_of_soundAfter` — the words of a derivation tree;
* `keeps_made` — what is known of words, expressions and node tests is kept by the rules;
* `everywhere_of_parse` — what is parsed keeps what the rules keep;
* `made_of_parse` — **what is parsed is made as the parser makes it**, everywhere.
-/

import Mathlib
import XPathAnnotator.Proofs.Expr.Roles
import XPathAnnotator.Proofs.Expr.Spelling
import XPathAnnotator.Proofs.Token.Lexemes

namespace XPathAnnotator

open Grammar XPathAnnotator.Name

namespace Token

/-! ### Tokens and their neighbours -/

theorem soundAfter_append_cons {previous : Option Kind} {before after : List Token} {token : Token} :
    SoundAfter previous (before ++ token :: after) ↔
      SoundAfter previous (before ++ [token]) ∧ SoundAfter (some token.kind) after := by
  induction before generalizing previous with
  | nil => simp [SoundAfter]
  | cons first before ih =>
    rw [List.cons_append, List.cons_append, SoundAfter, SoundAfter, ih, and_assoc]

theorem SoundAfter.exists_sound {previous : Option Kind} {tokens : List Token} (sound : SoundAfter previous tokens)
    {token : Token} (member : token ∈ tokens) : ∃ before, token.Sound before := by
  induction tokens generalizing previous with
  | nil => exact absurd member List.not_mem_nil
  | cons first tokens ih =>
    rcases List.mem_cons.mp member with rfl | member
    · exact ⟨previous, sound.1⟩
    · exact ih sound.2 member

/-- A property of the names of all variables among tokens. -/
def EachVariable (V : String → Prop) (tokens : List Token) : Prop :=
  ∀ sign name, [sign, name] <:+: tokens → sign.kind = .symbol "$" → name.kind = .name → V name.text

theorem EachVariable.of_infix {V : String → Prop} {tokens part : List Token} (each : EachVariable V tokens)
    (inTokens : part <:+: tokens) : EachVariable V part :=
  fun sign name inPart => each sign name (inPart.trans inTokens)

variable {previous : Option Kind} {text : String}

/-- Only after the sign of a variable there are other tokens than at the start. -/
theorem Sound.unsigned {token : Token} (sound : token.Sound previous) (noSign : previous ≠ some (.symbol "$")) :
    token.Sound none := by
  obtain ⟨kind, text⟩ := token
  cases kind
  case name =>
    obtain ⟨name, written, proper | ⟨sign, _⟩⟩ := sound
    · exact ⟨name, written, .inl proper⟩
    · exact absurd sign noSign
  all_goals exact sound

/-- Tokens that are no symbols are known by their terminals. -/
theorem Sound.kind_eq {kind other : Kind} (sound : Sound previous ⟨kind, text⟩) (word : ∀ mark, other ≠ .symbol mark)
    (same : kind.terminal = other.terminal) : kind = other := by
  cases kind with
  | symbol mark =>
    have listed : mark ∈ symbolTexts := sound
    have unlisted : other.terminal ∉ symbolTexts := by
      cases other
      case symbol mark => exact absurd rfl (word mark)
      all_goals decide
    exact absurd (same ▸ listed) unlisted
  | _ =>
    cases other
    case symbol mark => exact absurd rfl (word mark)
    all_goals first | rfl | exact absurd same (by decide)

end Token

namespace Expr

/-- What is known of a word by its terminal, if it does not come after the sign of a variable. -/
def WordMade (terminal text : String) : Prop :=
  ∃ kind : Token.Kind, kind.terminal = terminal ∧ Token.Sound none ⟨kind, text⟩

/-- What is known of the name of a variable. -/
def VariableMade (text : String) : Prop := ∃ name : QName, name.text = text ∧ (name.Proper ∨ name.Starred)

theorem WordMade.sound (kind : Token.Kind) {text : String} (word : WordMade kind.terminal text)
    (noSymbol : ∀ mark, kind ≠ .symbol mark) : Token.Sound none ⟨kind, text⟩ := by
  obtain ⟨other, same, sound⟩ := word
  obtain rfl := sound.kind_eq noSymbol same
  exact sound

/-- **What is known of words, expressions and node tests** is kept by the rules. -/
theorem keeps_made : Keeps WordMade VariableMade Made NodeTest.Made where
  text word := WordMade.sound .literal word (by simp)
  number word := Number.unsigned_ofText (WordMade.sound .number word (by simp))
  negate := trivial
  binary := trivial
  path shaped := shaped
  filter shaped := shaped
  call word := by
    obtain ⟨name, rfl, proper, unlisted⟩ := WordMade.sound .functionName word (by simp)
    rw [QName.ofText_text (.inl proper)]
    exact ⟨proper, unlisted⟩
  reference isName := by
    obtain ⟨name, rfl, parts⟩ := isName
    rw [QName.ofText_text parts]
    exact parts
  variableName word := by
    obtain ⟨name, written, proper | ⟨sign, _⟩⟩ := WordMade.sound .name word (by simp)
    · exact ⟨name, written, .inl proper⟩
    · exact absurd sign (by simp)
  shaped := Made.shaped
  nameTest word := by
    obtain ⟨name, rfl, proper | ⟨sign, _⟩⟩ := WordMade.sound .name word (by simp)
    · rw [QName.ofText_text (.inl proper)]
      exact proper
    · exact absurd sign (by simp)
  anyNameIn word := by
    obtain ⟨qualifier, isName, rfl⟩ := WordMade.sound .anyNameIn word (by simp)
    rw [qualifierOf_append]
    exact isName
  nameless listed := by
    simp only [List.mem_cons, List.not_mem_nil, or_false] at listed
    rcases listed with rfl | rfl | rfl | rfl <;> trivial
  instruction := trivial

/-! ### The sign of a variable -/

/-- The sign of a variable stands in one rule, before a name. -/
theorem sign_rule {p : Nat} {production : Production} (found : grammar.productions[p]? = some production) :
    "$" ∉ production.right ∨ p = 65 ∧ production.right = ["$", "QNAME"] := by
  have all : ∀ pair ∈ (Grammar.mk "Expr" rules).productions.zipIdx,
      "$" ∉ pair.1.right ∨ pair.2 = 65 ∧ pair.1.right = ["$", "QNAME"] := by decide
  rw [grammar_eq] at found
  exact all (production, p) (List.mem_zipIdx_iff_getElem?.mpr found)

theorem sign_not_mem_nonterminals : "$" ∉ grammar.nonterminals := by
  rw [grammar_eq]
  decide

theorem name_not_mem_nonterminals : "QNAME" ∉ grammar.nonterminals := by
  rw [grammar_eq]
  decide

/-- The tree of a terminal is a token. -/
theorem Derives.eq_leaf {s : String} {tree : Tree} (derives : grammar.Derives s tree)
    (notLeft : s ∉ grammar.nonterminals) : ∃ token : Grammar.Token, tree = .leaf token ∧ token.kind = s := by
  cases derives with
  | @leaf token => exact ⟨token, rfl, rfl⟩
  | node found _ => exact absurd (left_mem_nonterminals (List.mem_of_getElem? found)) notLeft

/-- A tree whose text ends, and not in the sign of a variable. -/
def EndsUnsigned (tokens : List Grammar.Token) : Prop :=
  ∃ before last, tokens = before ++ [last] ∧ last.kind ≠ "$"

theorem endsUnsigned_append {tokens more : List Grammar.Token} (ends : EndsUnsigned more) :
    EndsUnsigned (tokens ++ more) := by
  obtain ⟨before, last, rfl, noSign⟩ := ends
  exact ⟨tokens ++ before, last, (List.append_assoc ..).symm, noSign⟩

theorem endsUnsigned_yieldAll {symbols : List String} {trees : List Tree} (derives : grammar.DerivesAll symbols trees)
    (each : ∀ tree ∈ trees, ∀ s, grammar.Derives s tree → s ≠ "$" → EndsUnsigned tree.yield)
    (nonempty : symbols ≠ []) (noSign : symbols.getLast nonempty ≠ "$") : EndsUnsigned (Tree.yieldAll trees) := by
  induction trees generalizing symbols with
  | nil =>
    cases derives
    exact absurd rfl nonempty
  | cons tree trees ih =>
    cases derives with
    | @cons s symbols _ _ first rest =>
      rw [Tree.yieldAll]
      cases symbols with
      | nil =>
        cases rest
        rw [Tree.yieldAll, List.append_nil]
        exact each tree List.mem_cons_self s first noSign
      | cons next symbols =>
        rw [List.getLast_cons (List.cons_ne_nil _ _)] at noSign
        exact endsUnsigned_append
          (ih rest (fun child member => each child (List.mem_cons_of_mem _ member)) (List.cons_ne_nil _ _) noSign)

/-- **No symbol but the sign of a variable ends in it.** -/
theorem endsUnsigned_yield {tree : Tree} {s : String} (derives : grammar.Derives s tree) (noSign : s ≠ "$") :
    EndsUnsigned tree.yield := by
  induction tree using Tree.induction generalizing s with
  | leaf token =>
    cases derives with
    | leaf _ => exact ⟨[], token, rfl, noSign⟩
  | node p children ih =>
    cases derives with
    | @node _ production _ found derivesAll =>
      refine endsUnsigned_yieldAll derivesAll (fun child member s derives noSign => ih child member derives noSign)
        production.right_ne_nil ?_
      rcases sign_rule found with noSign | ⟨_, right⟩
      · exact fun same => noSign (same ▸ List.getLast_mem production.right_ne_nil)
      · simp [right]

/-! ### The words of a tree -/

section Words

variable {previous : Option Token.Kind} {tokens : List Token} {V : String → Prop}

/-- Only the sign of a variable is a token of its terminal. -/
theorem kind_eq_sign {kind : Token.Kind} (same : kind.terminal = "$") : kind = .symbol "$" := by
  cases kind with
  | symbol mark => exact congrArg Token.Kind.symbol same
  | _ => exact absurd same (by decide)

/-- The words of trees, one after the other, of which none is the sign of a variable. -/
theorem worded_all {symbols : List String} {trees : List Tree} (derives : grammar.DerivesAll symbols trees)
    (each : ∀ tree ∈ trees, ∀ s previous tokens, grammar.Derives s tree → tree.yield = tokens.map Token.forGrammar →
      Token.SoundAfter previous tokens → Token.EachVariable V tokens → previous ≠ some (.symbol "$") →
      Worded WordMade V tree)
    (yields : Tree.yieldAll trees = tokens.map Token.forGrammar) (sound : Token.SoundAfter previous tokens)
    (named : Token.EachVariable V tokens) (noSign : previous ≠ some (.symbol "$")) (unsigned : "$" ∉ symbols) :
    ∀ tree ∈ trees, Worded WordMade V tree := by
  induction trees generalizing symbols previous tokens with
  | nil => simp
  | cons tree trees ih =>
    cases derives with
    | @cons s symbols _ _ first rest =>
      rw [List.mem_cons, not_or] at unsigned
      rw [Tree.yieldAll] at yields
      obtain ⟨here, after, rfl, yieldsHere, yieldsAfter⟩ := List.append_eq_map_iff.mp yields
      have namedHere := named.of_infix (List.prefix_append here after).isInfix
      have namedAfter := named.of_infix (List.suffix_append here after).isInfix
      obtain ⟨before, last, ending, noSignLast⟩ := endsUnsigned_yield first (Ne.symm unsigned.1)
      rw [← yieldsHere] at ending
      obtain ⟨before, single, rfl, _, isLast⟩ := List.map_eq_append_iff.mp ending
      obtain ⟨token, rfl, rfl⟩ := List.map_eq_singleton_iff.mp isLast
      rw [List.append_assoc, List.singleton_append, Token.soundAfter_append_cons] at sound
      have unsignedAfter : some token.kind ≠ some (.symbol "$") := by
        intro same
        exact noSignLast (congrArg Token.Kind.terminal (Option.some.inj same))
      refine List.forall_mem_cons.mpr ⟨?_, ?_⟩
      · exact each tree List.mem_cons_self s previous _ first yieldsHere.symm sound.1 namedHere noSign
      · exact ih rest (fun child member => each child (List.mem_cons_of_mem _ member)) yieldsAfter.symm sound.2
          namedAfter unsignedAfter unsigned.2

/-- **The words of a derivation tree** are what the tokens of its text are. -/
theorem worded_of_soundAfter {tree : Tree} {s : String} (derives : grammar.Derives s tree)
    (yields : tree.yield = tokens.map Token.forGrammar) (sound : Token.SoundAfter previous tokens)
    (named : Token.EachVariable V tokens) (noSign : previous ≠ some (.symbol "$")) : Worded WordMade V tree := by
  induction tree using Tree.induction generalizing s previous tokens with
  | leaf token =>
    obtain ⟨source, rfl, rfl⟩ := List.map_eq_singleton_iff.mp yields.symm
    exact .leaf ⟨source.kind, rfl, sound.1.unsigned noSign⟩
  | node p children ih =>
    cases derives with
    | @node _ production _ found derivesAll =>
      rcases sign_rule found with unsigned | ⟨rfl, right⟩
      · exact .node (worded_all derivesAll (fun child member s previous tokens => ih child member) yields sound
          named noSign unsigned)
      · rw [right] at derivesAll
        obtain ⟨sign, name, rfl, signDerives, nameDerives⟩ : ∃ sign name, children = [sign, name] ∧
            grammar.Derives "$" sign ∧ grammar.Derives "QNAME" name := by
          rcases derivesAll with _ | ⟨first, _ | ⟨second, _ | _⟩⟩
          exact ⟨_, _, rfl, first, second⟩
        obtain ⟨signToken, rfl, isSign⟩ := Derives.eq_leaf signDerives sign_not_mem_nonterminals
        obtain ⟨nameToken, rfl, isName⟩ := Derives.eq_leaf nameDerives name_not_mem_nonterminals
        have two : [signToken, nameToken] = tokens.map Token.forGrammar := yields
        obtain ⟨signSource, _, rfl, rfl, names⟩ := List.map_eq_cons_iff.mp two.symm
        obtain ⟨nameSource, rfl, rfl⟩ := List.map_eq_singleton_iff.mp names
        have isName : nameSource.kind = .name := sound.2.1.kind_eq (by simp) isName
        exact .reference (named signSource nameSource List.infix_rfl (kind_eq_sign isSign) isName)

/-- What is known of the names of variables among the tokens of a text. -/
theorem eachVariable_made (sound : Token.SoundAfter previous tokens) : Token.EachVariable VariableMade tokens := by
  rintro sign name ⟨before, after, rfl⟩ - isName
  rw [List.append_assoc, List.cons_append, Token.soundAfter_append_cons] at sound
  have ofName : name.Sound (some sign.kind) := sound.2.1
  rw [Token.Sound, isName] at ofName
  obtain ⟨qname, written, parts⟩ := ofName
  exact ⟨qname, written, parts.imp_right And.right⟩

end Words

/-! ### Parsing -/

/-- No token of a text is an end mark. -/
theorem terminal_ne_endSymbol {tokens : List Token} (sound : Token.SoundAfter none tokens) {token : Token}
    (member : token ∈ tokens) : token.kind.terminal ≠ endSymbol := by
  obtain ⟨before, sound⟩ := sound.exists_sound member
  obtain ⟨kind, text⟩ := token
  cases kind with
  | symbol mark =>
    have unlisted : endSymbol ∉ Token.symbolTexts := by decide
    have listed : mark ∈ Token.symbolTexts := sound
    exact fun same => unlisted (same ▸ listed)
  | _ => simp [Token.Kind.terminal, endSymbol]

/-- **What is parsed keeps what the rules keep**, also what is known of the names of variables among the tokens. -/
theorem everywhere_of_parse {V : String → Prop} {P : Expr → Prop} {Q : NodeTest → Prop} (keeps : Keeps WordMade V P Q)
    {source : String} {tokens : List Token} (cut : Token.tokenize source = .ok tokens)
    (named : Token.EachVariable V tokens) {e : Expr} (parsed : parse source = .ok e) : e.Everywhere P Q := by
  unfold parse at parsed
  rw [cut] at parsed
  have sound := Token.sound_of_tokensAfter cut
  have only : ∀ token ∈ tokens, token.kind.terminal ≠ endSymbol := fun _ member => terminal_ne_endSymbol sound member
  obtain ⟨tree, derives, yields, folds⟩ := reads_of_ofTokens only parsed
  have outcome := outcome_fold keeps derives (worded_of_soundAfter derives yields sound named (by simp))
  rw [folds] at outcome
  obtain ⟨_, same, everywhere⟩ := outcome
  obtain rfl := Part.expr.inj same
  exact everywhere

/-- **What is parsed** is an expression as the parser makes it, in all its parts. -/
theorem made_of_parse {source : String} {e : Expr} (parsed : parse source = .ok e) :
    e.Everywhere Made NodeTest.Made := by
  cases cut : Token.tokenize source with
  | error cause =>
    rw [parse, cut] at parsed
    cases parsed
  | ok tokens => exact everywhere_of_parse keeps_made cut (eachVariable_made (Token.sound_of_tokensAfter cut)) parsed

end Expr

end XPathAnnotator
