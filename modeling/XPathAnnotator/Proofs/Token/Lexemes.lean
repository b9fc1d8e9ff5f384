/-
**What tokens are made of.**

The lexeme of a token has the shape of its kind: a literal does not hold both quotes, a numeral has no sign, a name
is made of names, and a symbol is one of a few. A qualified star is a name only after the sign of a variable.

* `Sound`, `SoundAfter` — what is known of a token, and of a row of tokens;
* `Cuts`, `cuts_of_tokensAfter` — induction over the lexemes of a text;
* `sound_of_tokensAfter` — **all tokens of a text are made of what their kinds say**.
-/

import Mathlib
import XPathAnnotator.Proofs.Token.Shapes

namespace XPathAnnotator.Token

open XPathAnnotator.Text XPathAnnotator.Name

/-- The symbols and the names of operators. -/
def symbolTexts : List String :=
  ["..", "::", "//", "!=", "<=", ">=", "(", ")", "[", "]", ".", "@", ",", "/", "|", "+", "-", "=", "<", ">", "*", "$",
    "and", "or", "mod", "div"]

/-- What is known of a token by its kind, and by the token before it. -/
def Sound (previous : Option Kind) (token : Token) : Prop :=
  match token.kind with
  | .literal => '"' ∉ token.text.toList ∨ '\'' ∉ token.text.toList
  | .number => '-' ∉ token.text.toList
  | .name => ∃ name : QName, name.text = token.text ∧
      (name.Proper ∨ previous = some (.symbol "$") ∧ name.Starred)
  | .anyNameIn => ∃ qualifier, isNCName qualifier = true ∧ token.text = qualifier ++ ":*"
  | .functionName => ∃ name : QName, name.text = token.text ∧ name.Proper ∧ token.text ∉ nodeTypes
  | .symbol text => text ∈ symbolTexts
  | _ => True

/-- The same of all tokens of a row. -/
def SoundAfter : Option Kind → List Token → Prop
  | _, [] => True
  | previous, token :: tokens => token.Sound previous ∧ SoundAfter (some token.kind) tokens

/-! ### Literals and numerals -/

/-- A literal goes on up to the next quote of its kind. -/
theorem take_takeWhile_add_one {c : Char} {rest : List Char} (closed : c ∈ rest) :
    rest.take ((rest.takeWhile (· != c)).length + 1) = rest.takeWhile (· != c) ++ [c] := by
  induction rest with
  | nil => exact absurd closed List.not_mem_nil
  | cons d rest ih =>
    by_cases same : d = c
    · subst same
      simp
    · have inRest : c ∈ rest := (List.mem_cons.mp closed).resolve_left fun same' => same same'.symm
      have other : (d != c) = true := bne_iff_ne.mpr same
      rw [List.takeWhile_cons, if_pos other, List.length_cons, List.take_succ_cons, ih inRest, List.cons_append]

theorem not_mem_literal {c : Char} {rest : List Char} (closed : c ∈ rest) :
    c ∉ ((c :: rest.take ((rest.takeWhile (· != c)).length + 1)).drop 1).dropLast := by
  rw [take_takeWhile_add_one closed, List.drop_one, List.tail_cons, List.dropLast_concat]
  exact fun member => absurd (List.mem_takeWhile_imp member) (by simp)

theorem isDigit_minus : isDigit '-' = false := by decide

theorem minus_not_mem_takeWhile (cs : List Char) : '-' ∉ cs.takeWhile isDigit :=
  fun member => absurd (List.mem_takeWhile_imp member) (by simp [isDigit_minus])

theorem minus_not_mem_numeral (cs : List Char) : '-' ∉ cs.take (numberLength cs) := by
  unfold numberLength
  dsimp only
  split
  · rename_i rest begins
    have dropped : cs.drop (cs.takeWhile isDigit).length = '.' :: rest := (drop_length_takeWhile _ _).trans begins
    rw [take_add_one_eq dropped, take_length_takeWhile, take_length_takeWhile]
    intro member
    rcases List.mem_append.mp member with inWhole | inFraction
    · exact minus_not_mem_takeWhile cs inWhole
    · rcases List.mem_cons.mp inFraction with point | inFraction
      · exact absurd point (by decide)
      · exact minus_not_mem_takeWhile rest inFraction
  · rw [take_length_takeWhile]
    exact minus_not_mem_takeWhile cs

/-! ### Names and symbols -/

/-- What a name means is what it is made of. -/
theorem sound_classifyName {previous : Option Kind} {name : QName} (parts : name.Proper ∨ name.Starred)
    (rest : List Char) : Sound previous ⟨classifyName previous name.text rest, name.text⟩ := by
  unfold classifyName
  dsimp only
  split
  · rename_i sign
    refine ⟨name, rfl, parts.imp_right fun starred => ⟨?_, starred⟩⟩
    simpa using sign
  split
  · rename_i star
    rcases parts with proper | ⟨qualifier, isName, rfl⟩
    · exact absurd star (by simp [proper.endsWith_star])
    · exact ⟨qualifier, isName, String.append_assoc ..⟩
  rename_i noStar
  have proper : name.Proper := by
    rcases parts with proper | ⟨qualifier, _, rfl⟩
    · exact proper
    · have written : QName.text ⟨some qualifier, "*"⟩ = qualifier ++ ":*" := String.append_assoc ..
      rw [written] at noStar
      exact absurd (QName.endsWith_star qualifier) noStar
  split
  · rename_i operator
    have listed : name.text ∈ operatorNames := List.contains_iff_mem.mp (Bool.and_eq_true_iff.mp operator).2
    have names : operatorNames ⊆ symbolTexts := by decide
    exact names listed
  split
  · trivial
  split
  · split
    · rename_i noType
      exact ⟨name, rfl, proper, by simpa using noType⟩
    · split
      · trivial
      · trivial
  · exact ⟨name, rfl, .inl proper⟩

theorem sound_symbol {previous : Option Kind} {symbol : String} (listed : symbol ∈ symbolTexts) :
    Sound previous ⟨if symbol != "*" then .symbol symbol else if endsOperand previous then .multiply else .anyName,
      symbol⟩ := by
  split
  · exact listed
  · split
    · trivial
    · trivial

theorem ofList_mem_symbolTexts {cs : List Char} (listed : cs ∈ longSymbols ∨ ∃ c ∈ shortSymbols, cs = [c]) :
    String.ofList cs ∈ symbolTexts := by
  have long : ∀ cs ∈ longSymbols, String.ofList cs ∈ symbolTexts := by decide
  have short : ∀ c ∈ shortSymbols, String.ofList [c] ∈ symbolTexts := by simp [shortSymbols, symbolTexts]
  rcases listed with inLong | ⟨c, inShort, rfl⟩
  · exact long cs inLong
  · exact short c inShort

/-! ### Tokens -/

theorem numberLength_pos {c : Char} (digit : isDigit c = true) (rest : List Char) : 0 < numberLength (c :: rest) := by
  unfold numberLength
  dsimp only
  rw [List.takeWhile_cons, if_pos digit, List.length_cons]
  split <;> omega

theorem qualifiedLength_pos {c : Char} (start : isNameStart c = true) (rest : List Char) :
    0 < qualifiedLength (c :: rest) := by
  have first : 0 < nameLength (c :: rest) := by
    rw [nameLength, if_pos start]
    omega
  unfold qualifiedLength
  dsimp only
  split
  · omega
  · split <;> omega
  · exact first

/-- **A lexeme that is a token** is made of what its kind says. -/
theorem sound_tokenOf? {previous : Option Kind} {c : Char} {rest : List Char} {shape : Shape} {count : Nat}
    {token : Token} (lexeme : lexemeAt? c rest = .ok (shape, count))
    (means : tokenOf? previous shape (c :: rest.take count) (rest.drop count) = some token) :
    token.Sound previous := by
  cases begins_of_lexemeAt? lexeme with
  | blank => cases means
  | literal quote closed =>
    obtain rfl := Option.some.inj means
    have absent := not_mem_literal closed
    rw [← @String.toList_ofList (((c :: _).drop 1).dropLast)] at absent
    rcases quote with rfl | rfl
    · exact .inl absent
    · exact .inr absent
  | digits digit =>
    obtain rfl := Option.some.inj means
    show '-' ∉ (String.ofList _).toList
    rw [String.toList_ofList, ← List.take_cons (numberLength_pos digit rest)]
    exact minus_not_mem_numeral _
  | fraction point =>
    obtain rfl := Option.some.inj means
    show '-' ∉ (String.ofList _).toList
    rw [String.toList_ofList, take_length_takeWhile, point, List.mem_cons, not_or]
    exact ⟨by decide, minus_not_mem_takeWhile rest⟩
  | long long =>
    obtain rfl := Option.some.inj means
    exact sound_symbol (ofList_mem_symbolTexts (.inl long))
  | short short =>
    obtain rfl := Option.some.inj means
    exact sound_symbol (ofList_mem_symbolTexts (.inr ⟨c, short, rfl⟩))
  | name start =>
    obtain rfl := Option.some.inj means
    obtain ⟨name, parts, written⟩ := exists_name rest start
    have named : String.ofList (c :: rest.take (qualifiedLength (c :: rest) - 1)) = name.text := by
      rw [← List.take_cons (qualifiedLength_pos start rest), ← written, String.ofList_toList]
    rw [named]
    exact sound_classifyName parts _

/-! ### Rows of tokens -/

/-- A row of characters is cut into tokens: runs of blanks are passed over, and each lexeme is a token. -/
inductive Cuts : Option Kind → List Char → List Token → Prop
  | done (previous : Option Kind) : Cuts previous [] []
  | blanks {previous : Option Kind} {gap rest : List Char} {tokens : List Token}
    (blank : ∀ c ∈ gap, isBlank c = true) (later : Cuts previous rest tokens) : Cuts previous (gap ++ rest) tokens
  | lexeme {previous : Option Kind} {c : Char} {rest : List Char} {shape : Shape} {count : Nat} {token : Token}
    {tokens : List Token} (lexeme : lexemeAt? c rest = .ok (shape, count))
    (means : tokenOf? previous shape (c :: rest.take count) (rest.drop count) = some token)
    (later : Cuts (some token.kind) (rest.drop count) tokens) : Cuts previous (c :: rest) (token :: tokens)

theorem blanks_of_tokenOf?_eq_none {previous : Option Kind} {c : Char} {rest : List Char} {shape : Shape} {count : Nat}
    (lexeme : lexemeAt? c rest = .ok (shape, count))
    (blank : tokenOf? previous shape (c :: rest.take count) (rest.drop count) = none) :
    ∀ d ∈ c :: rest.take count, isBlank d = true := by
  cases begins_of_lexemeAt? lexeme with
  | blank first =>
    rw [take_length_takeWhile]
    exact List.forall_mem_cons.mpr ⟨first, fun d member => List.mem_takeWhile_imp member⟩
  | _ => exact absurd blank (Option.some_ne_none _)

/-- What is cut into tokens is told lexeme by lexeme. -/
theorem cuts_of_tokensAfter {previous : Option Kind} {cs : List Char} {tokens : List Token}
    (cut : tokensAfter previous cs = .ok tokens) : Cuts previous cs tokens := by
  induction previous, cs using tokensAfter.induct generalizing tokens with
  | case1 previous =>
    rw [tokensAfter] at cut
    obtain rfl := Except.ok.inj cut
    exact .done previous
  | case2 previous c rest e failed =>
    rw [tokensAfter, failed] at cut
    exact absurd cut (by simp)
  | case3 previous c rest shape count lexeme blank ih =>
    rw [tokensAfter, lexeme] at cut
    dsimp only at cut
    rw [blank] at cut
    have cuts := Cuts.blanks (blanks_of_tokenOf?_eq_none lexeme blank) (ih cut)
    rwa [List.cons_append, List.take_append_drop] at cuts
  | case4 previous c rest shape count lexeme token means e failed ih =>
    rw [tokensAfter, lexeme] at cut
    dsimp only at cut
    rw [means] at cut
    dsimp only at cut
    rw [failed] at cut
    exact absurd cut (by simp)
  | case5 previous c rest shape count lexeme token means others more ih =>
    rw [tokensAfter, lexeme] at cut
    dsimp only at cut
    rw [means] at cut
    dsimp only at cut
    rw [more] at cut
    obtain rfl := Except.ok.inj cut
    exact .lexeme lexeme means (ih more)

/-- **All tokens of a text** are made of what their kinds say. -/
theorem sound_of_tokensAfter {previous : Option Kind} {cs : List Char} {tokens : List Token}
    (cut : tokensAfter previous cs = .ok tokens) : SoundAfter previous tokens := by
  have cuts := cuts_of_tokensAfter cut
  clear cut
  induction cuts with
  | done previous => trivial
  | blanks _ _ ih => exact ih
  | lexeme lexeme means _ ih => exact ⟨sound_tokenOf? lexeme means, ih⟩

end XPathAnnotator.Token
