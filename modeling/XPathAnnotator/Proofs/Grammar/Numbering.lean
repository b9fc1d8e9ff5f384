/-
**Symbols by their numbers.**

A grammar is `Unreserved` if it uses none of the names that the table generator keeps for itself, and `Unmarked`
if it may use the name of the placeholder. Then its symbols are distinct, and their numbers tell them apart:

* `code_inj` — symbols with one number are one symbol;
* `Numbered.Proper` — what the generator relies on: nonterminals come before terminals, the implicit
  symbol and the end mark are in no production, and the placeholder is no terminal;
* `Unmarked.proper` — the numbered form of a grammar is proper if its placeholder is no terminal;
* `ofGrammar_proper` — that of an unreserved grammar is.
-/

import Mathlib
import XPathAnnotator.Grammar.Numbered
import XPathAnnotator.Proofs.Grammar.Saturation

namespace XPathAnnotator.Grammar

/-- The names that the table generator keeps for itself. -/
def reservedNames : List String := [acceptSymbol, endSymbol, Numbered.placeholderName]

/-- A grammar that uses no reserved name as a symbol. -/
structure Unreserved (g : Grammar) : Prop where
  start : g.start ∉ reservedNames
  left : ∀ p ∈ g.rules, p.left ∉ reservedNames
  right : ∀ p ∈ g.rules, ∀ s ∈ p.right, s ∉ reservedNames

/-- The names that are symbols of every grammar. -/
def markNames : List String := [acceptSymbol, endSymbol]

/-- A grammar that uses neither the implicit symbol nor the end mark in its rules. -/
structure Unmarked (g : Grammar) : Prop where
  start : g.start ∉ markNames
  left : ∀ p ∈ g.rules, p.left ∉ markNames
  right : ∀ p ∈ g.rules, ∀ s ∈ p.right, s ∉ markNames

theorem mem_reservedNames_of_mark {s : String} (mark : s ∈ markNames) : s ∈ reservedNames := by
  simp only [markNames, reservedNames, List.mem_cons, List.not_mem_nil, or_false] at mark ⊢
  tauto

theorem Unreserved.unmarked {g : Grammar} (plain : g.Unreserved) : g.Unmarked :=
  ⟨fun mark => plain.start (mem_reservedNames_of_mark mark),
    fun p member mark => plain.left p member (mem_reservedNames_of_mark mark),
    fun p member s inRight mark => plain.right p member s inRight (mem_reservedNames_of_mark mark)⟩

/-! ### Distinct symbols -/

theorem mem_distinctAfter {seen names : List String} {s : String} :
    s ∈ distinctAfter seen names ↔ s ∈ names ∧ s ∉ seen := by
  induction names generalizing seen with
  | nil => simp [distinctAfter]
  | cons name names ih =>
    unfold distinctAfter
    split
    · rename_i known
      have inSeen : name ∈ seen := by simpa using known
      rw [ih]
      constructor
      · rintro ⟨member, fresh⟩
        exact ⟨List.mem_cons_of_mem _ member, fresh⟩
      · rintro ⟨member, fresh⟩
        refine ⟨(List.mem_cons.mp member).resolve_left fun same => fresh (same ▸ inSeen), fresh⟩
    · rename_i unknown
      have notSeen : name ∉ seen := by simpa using unknown
      rw [List.mem_cons, ih, List.mem_cons, List.mem_cons]
      by_cases same : s = name
      · subst same
        simp [notSeen]
      · simp [same]

theorem nodup_distinctAfter (seen names : List String) : (distinctAfter seen names).Nodup := by
  induction names generalizing seen with
  | nil => exact List.nodup_nil
  | cons name names ih =>
    unfold distinctAfter
    split
    · exact ih seen
    · refine List.nodup_cons.mpr ⟨fun member => ?_, ih _⟩
      exact (mem_distinctAfter.mp member).2 List.mem_cons_self

section Symbols

variable {g : Grammar}

theorem mem_productions {p : Production} :
    p ∈ g.productions ↔ p = g.acceptProduction ∨ p ∈ g.rules := List.mem_cons

theorem mem_nonterminals {s : String} :
    s ∈ g.nonterminals ↔ ∃ p ∈ g.productions, p.left = s := by
  simp [nonterminals, mem_distinctAfter]

theorem left_mem_nonterminals {p : Production} (member : p ∈ g.productions) : p.left ∈ g.nonterminals :=
  mem_nonterminals.mpr ⟨p, member, rfl⟩

theorem mem_terminals {s : String} :
    s ∈ g.terminals ↔ (∃ p ∈ g.productions, s ∈ p.right ∧ s ∉ g.nonterminals) ∨ s = endSymbol := by
  simp only [terminals, List.mem_append, mem_distinctAfter, List.mem_flatMap, List.mem_singleton]
  constructor
  · rintro (⟨⟨p, member, inRight⟩, notLeft⟩ | same)
    · exact Or.inl ⟨p, member, inRight, notLeft⟩
    · exact Or.inr same
  · rintro (⟨p, member, inRight, notLeft⟩ | same)
    · exact Or.inl ⟨⟨p, member, inRight⟩, notLeft⟩
    · exact Or.inr same

theorem mem_symbols {s : String} : s ∈ g.symbols ↔ s ∈ g.nonterminals ∨ s ∈ g.terminals :=
  List.mem_append

theorem right_mem_symbols {p : Production} (member : p ∈ g.productions) {s : String}
    (inRight : s ∈ p.right) : s ∈ g.symbols := by
  rw [mem_symbols, mem_terminals]
  by_cases isLeft : s ∈ g.nonterminals
  · exact Or.inl isLeft
  · exact Or.inr (Or.inl ⟨p, member, inRight, isLeft⟩)

theorem end_mem_terminals : endSymbol ∈ g.terminals := mem_terminals.mpr (Or.inr rfl)

/-! ### Symbols of an unmarked grammar -/

theorem Unmarked.right_not_mark (unmarked : g.Unmarked) {p : Production} (member : p ∈ g.productions) {s : String}
    (inRight : s ∈ p.right) : s ∉ markNames := by
  rcases mem_productions.mp member with rfl | rule
  · obtain rfl : s = g.start := by simpa [acceptProduction] using inRight
    exact unmarked.start
  · exact unmarked.right p rule s inRight

theorem Unmarked.end_not_nonterminal (unmarked : g.Unmarked) : endSymbol ∉ g.nonterminals := by
  intro member
  obtain ⟨p, inside, same⟩ := mem_nonterminals.mp member
  rcases mem_productions.mp inside with rfl | rule
  · exact absurd (show acceptSymbol = endSymbol from same) (by decide)
  · exact unmarked.left p rule (by rw [same]; decide)

theorem Unmarked.accept_left (unmarked : g.Unmarked) {k : Nat} {p : Production}
    (found : g.productions[k]? = some p) (accepts : p.left = acceptSymbol) : k = 0 := by
  cases k with
  | zero => rfl
  | succ k =>
    have rule : p ∈ g.rules := List.mem_of_getElem? (by simpa [productions] using found)
    exact absurd (by rw [accepts]; decide) (unmarked.left p rule)

theorem Unmarked.not_nonterminal_of_mem_terminals (unmarked : g.Unmarked) {s : String}
    (member : s ∈ g.terminals) : s ∉ g.nonterminals := by
  rcases mem_terminals.mp member with ⟨_, _, _, notLeft⟩ | rfl
  · exact notLeft
  · exact unmarked.end_not_nonterminal

theorem Unmarked.nodup_terminals (unmarked : g.Unmarked) : g.terminals.Nodup := by
  refine List.nodup_append.mpr ⟨nodup_distinctAfter _ _, List.nodup_singleton _, ?_⟩
  intro s member t isEnd
  rw [List.mem_singleton.mp isEnd]
  rintro rfl
  obtain ⟨p, inside, inRight⟩ := List.mem_flatMap.mp (mem_distinctAfter.mp member).1
  exact unmarked.right_not_mark inside inRight (by decide)

theorem Unmarked.nodup_symbols (unmarked : g.Unmarked) : g.symbols.Nodup := by
  refine List.nodup_append.mpr ⟨nodup_distinctAfter _ _, unmarked.nodup_terminals, ?_⟩
  rintro s isLeft t isTerminal rfl
  exact unmarked.not_nonterminal_of_mem_terminals isTerminal isLeft

theorem Unreserved.placeholder_not_terminal (plain : g.Unreserved) : Numbered.placeholderName ∉ g.terminals := by
  rw [mem_terminals]
  rintro (⟨p, inside, inRight, _⟩ | same)
  · rcases mem_productions.mp inside with rfl | rule
    · exact plain.start (by rw [← List.mem_singleton.mp inRight]; decide)
    · exact plain.right p rule _ inRight (by decide)
  · exact absurd same (by decide)

end Symbols

/-! ### Codes -/

/-- The number of a symbol: its first position among the symbols. -/
def code (g : Grammar) (s : String) : Nat := g.symbols.idxOf s

/-- A production with its symbols replaced by their numbers. -/
def numbered (g : Grammar) (p : Production) : NumberedProduction := ⟨g.code p.left, p.right.map g.code⟩

section Codes

variable {g : Grammar}

theorem code_lt_iff {s : String} : g.code s < g.symbols.length ↔ s ∈ g.symbols :=
  List.idxOf_lt_length_iff

theorem code_inj {s t : String} (member : s ∈ g.symbols) (same : g.code s = g.code t) : s = t :=
  (List.idxOf_inj member).mp same

theorem symbols_getElem? {s : String} (member : s ∈ g.symbols) :
    g.symbols[g.code s]? = some s := by
  rw [List.getElem?_eq_getElem (code_lt_iff.mpr member)]
  exact congrArg some (List.getElem_idxOf _)

/-- Every number below that of symbols is the number of a symbol. -/
theorem Unmarked.exists_symbol (unmarked : g.Unmarked) {x : Nat} (below : x < g.symbols.length) :
    ∃ s ∈ g.symbols, g.code s = x :=
  ⟨g.symbols[x], List.getElem_mem below, unmarked.nodup_symbols.idxOf_getElem x below⟩

theorem code_lt_nonterminals_iff {s : String} :
    g.code s < g.nonterminals.length ↔ s ∈ g.nonterminals := by
  unfold code symbols
  rw [List.idxOf_append]
  split
  · rename_i member
    simp [List.idxOf_lt_length_iff, member]
  · rename_i absent
    simp [absent]

theorem code_accept : g.code acceptSymbol = 0 := by
  unfold code symbols nonterminals productions
  simp [distinctAfter, acceptProduction]

theorem nonterminals_idxOf {s : String} (member : s ∈ g.nonterminals) :
    g.nonterminals.idxOf s = g.code s := by
  unfold code symbols
  rw [List.idxOf_append, if_pos member]

/-- The set of the numbers of some symbols. -/
theorem mem_foldl_insert {names : List String} {start : SymbolSet} {x : Nat} :
    x ∈ names.foldl (fun set s => set.insert (g.code s)) start ↔
      x ∈ start ∨ ∃ s ∈ names, g.code s = x := by
  induction names generalizing start with
  | nil => simp
  | cons name names ih =>
    rw [List.foldl_cons, ih, SymbolSet.mem_insert, List.exists_mem_cons_iff, or_assoc]
    simp only [eq_comm]

end Codes

/-! ### Proper numbered grammars -/

namespace Numbered

/-- What the table generator relies on. Nonterminals have the numbers below those of the terminals, the
symbol 0 of the implicit production and the end mark are in no production, and the placeholder is no terminal:
a nonterminal, or the first number that belongs to no symbol. -/
structure Proper (g : Numbered) : Prop where
  left_lt : ∀ {k : Nat} {p : NumberedProduction}, g.productions[k]? = some p → p.left < g.nonterminalCount
  right_lt : ∀ {k : Nat} {p : NumberedProduction}, g.productions[k]? = some p → ∀ x ∈ p.right, x < g.symbolCount
  right_ne_nil : ∀ {k : Nat} {p : NumberedProduction}, g.productions[k]? = some p → p.right ≠ []
  right_ne_zero : ∀ {k : Nat} {p : NumberedProduction}, g.productions[k]? = some p → ∀ x ∈ p.right, x ≠ 0
  right_ne_end : ∀ {k : Nat} {p : NumberedProduction}, g.productions[k]? = some p → ∀ x ∈ p.right, x ≠ g.endMark
  mem_terminal : ∀ {x : Nat}, x ∈ g.terminal ↔ g.nonterminalCount ≤ x ∧ x < g.symbolCount
  nonterminalCount_le : g.nonterminalCount ≤ g.symbolCount
  end_mem : g.endMark ∈ g.terminal
  implicit : ∃ s, g.productions[0]? = some ⟨0, [s]⟩
  eq_zero_of_left : ∀ {k : Nat} {p : NumberedProduction}, g.productions[k]? = some p → p.left = 0 → k = 0
  placeholder_le : g.placeholder ≤ g.symbolCount
  placeholder_not_mem : g.placeholder ∉ g.terminal

end Numbered

theorem ofGrammar_productions (g : Grammar) (k : Nat) :
    (Numbered.ofGrammar g).productions[k]? = g.productions[k]?.map g.numbered := by
  simp only [Numbered.ofGrammar, List.getElem?_toArray, List.getElem?_map]
  rfl

theorem ofGrammar_nonterminalCount (g : Grammar) :
    (Numbered.ofGrammar g).nonterminalCount = g.nonterminals.length := rfl

theorem ofGrammar_symbolCount (g : Grammar) :
    (Numbered.ofGrammar g).symbolCount = g.symbols.length := rfl

theorem ofGrammar_endMark (g : Grammar) : (Numbered.ofGrammar g).endMark = g.code endSymbol := rfl

theorem mem_ofGrammar_terminal {g : Grammar} {x : Nat} :
    x ∈ (Numbered.ofGrammar g).terminal ↔ ∃ s ∈ g.terminals, g.code s = x := by
  have fold : x ∈ g.terminals.foldl (fun (set : SymbolSet) s => set.insert (g.code s)) .empty ↔
      x ∈ SymbolSet.empty ∨ ∃ s ∈ g.terminals, g.code s = x := mem_foldl_insert
  refine fold.trans ?_
  simp

/-- A symbol is a terminal exactly when its number is one of a terminal. -/
theorem code_mem_terminal_iff {g : Grammar} {s : String} (member : s ∈ g.symbols) :
    g.code s ∈ (Numbered.ofGrammar g).terminal ↔ s ∈ g.terminals := by
  rw [mem_ofGrammar_terminal]
  constructor
  · rintro ⟨t, isTerminal, same⟩
    exact code_inj member same.symm ▸ isTerminal
  · exact fun isTerminal => ⟨s, isTerminal, rfl⟩

/-- **The numbered form of a grammar is proper** if it uses no mark, and no terminal is the placeholder. -/
theorem Unmarked.proper {g : Grammar} (unmarked : g.Unmarked) (free : Numbered.placeholderName ∉ g.terminals) :
    (Numbered.ofGrammar g).Proper := by
  have inside : ∀ {k : Nat} {p : NumberedProduction}, (Numbered.ofGrammar g).productions[k]? = some p →
      ∃ rule ∈ g.productions, g.productions[k]? = some rule ∧ p = g.numbered rule := by
    intro k p found
    rw [ofGrammar_productions] at found
    obtain ⟨rule, at_k, rfl⟩ := Option.map_eq_some_iff.mp found
    exact ⟨rule, List.mem_of_getElem? at_k, at_k, rfl⟩
  have rightCode : ∀ {k : Nat} {p : NumberedProduction},
      (Numbered.ofGrammar g).productions[k]? = some p → ∀ x ∈ p.right,
      ∃ s ∈ g.symbols, s ∉ markNames ∧ x = g.code s := by
    intro k p found x member
    obtain ⟨rule, ruleMem, _, rfl⟩ := inside found
    obtain ⟨s, inRight, rfl⟩ := List.mem_map.mp member
    exact ⟨s, right_mem_symbols ruleMem inRight, unmarked.right_not_mark ruleMem inRight, rfl⟩
  refine
    { left_lt := ?_, right_lt := ?_, right_ne_nil := ?_, right_ne_zero := ?_, right_ne_end := ?_
      mem_terminal := ?_, nonterminalCount_le := ?_, end_mem := ?_, implicit := ?_
      eq_zero_of_left := ?_, placeholder_le := ?_, placeholder_not_mem := ?_ }
  · intro k p found
    obtain ⟨rule, ruleMem, _, rfl⟩ := inside found
    exact code_lt_nonterminals_iff.mpr (left_mem_nonterminals ruleMem)
  · intro k p found x member
    obtain ⟨s, isSymbol, _, rfl⟩ := rightCode found x member
    exact code_lt_iff.mpr isSymbol
  · intro k p found
    obtain ⟨rule, _, _, rfl⟩ := inside found
    simpa [numbered] using rule.right_ne_nil
  · intro k p found x member zero
    obtain ⟨s, isSymbol, free, rfl⟩ := rightCode found x member
    have same : s = acceptSymbol := code_inj isSymbol (zero.trans code_accept.symm)
    exact free (by rw [same]; decide)
  · intro k p found x member isEnd
    obtain ⟨s, isSymbol, free, rfl⟩ := rightCode found x member
    have same : s = endSymbol := code_inj isSymbol isEnd
    exact free (by rw [same]; decide)
  · intro x
    rw [mem_ofGrammar_terminal, ofGrammar_nonterminalCount, ofGrammar_symbolCount]
    constructor
    · rintro ⟨s, isTerminal, rfl⟩
      refine ⟨Nat.le_of_not_lt fun below => ?_, code_lt_iff.mpr (mem_symbols.mpr (Or.inr isTerminal))⟩
      exact unmarked.not_nonterminal_of_mem_terminals isTerminal (code_lt_nonterminals_iff.mp below)
    · rintro ⟨above, below⟩
      obtain ⟨s, isSymbol, codeOf⟩ := unmarked.exists_symbol below
      refine ⟨s, (mem_symbols.mp isSymbol).resolve_left fun isLeft => ?_, codeOf⟩
      have := code_lt_nonterminals_iff.mpr isLeft
      omega
  · rw [ofGrammar_nonterminalCount, ofGrammar_symbolCount, symbols, List.length_append]
    exact Nat.le_add_right _ _
  · exact mem_ofGrammar_terminal.mpr ⟨endSymbol, end_mem_terminals, rfl⟩
  · refine ⟨g.code g.start, ?_⟩
    rw [ofGrammar_productions]
    show some (g.numbered g.acceptProduction) = _
    rw [numbered, show g.acceptProduction.left = acceptSymbol from rfl, code_accept]
    rfl
  · intro k p found zero
    obtain ⟨rule, ruleMem, at_k, rfl⟩ := inside found
    refine unmarked.accept_left at_k (code_inj ?_ (zero.trans code_accept.symm))
    exact mem_symbols.mpr (Or.inl (left_mem_nonterminals ruleMem))
  · exact List.idxOf_le_length
  · rw [mem_ofGrammar_terminal]
    rintro ⟨s, isTerminal, same⟩
    have isPlaceholder : s = Numbered.placeholderName := code_inj (mem_symbols.mpr (Or.inr isTerminal)) same
    exact free (isPlaceholder ▸ isTerminal)

/-- The numbered form of an unreserved grammar is proper. -/
theorem ofGrammar_proper {g : Grammar} (plain : g.Unreserved) : (Numbered.ofGrammar g).Proper :=
  plain.unmarked.proper plain.placeholder_not_terminal

end XPathAnnotator.Grammar
