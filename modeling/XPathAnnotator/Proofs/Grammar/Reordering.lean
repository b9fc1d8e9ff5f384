/-
**The order of productions.**

With its productions in another order a grammar has the same items in similar states, and these call for the same
actions, so that a cell differs only in the order in which its actions are entered. What prevails in a cell does
not depend on that order. Whether two productions are found to compete may: an action that reads the terminal stands
between them or not.

* `Reordered.calls` — similar states call for the same actions;
* `refused_iff` — where no such three actions meet, a grammar is refused for two productions that compete;
* `table_reorder` — **the order of productions matters neither to refusal there nor to acceptance**;
* `refused_only_in_one_order` — three actions that meet, for which the order matters.
-/

import Mathlib
import XPathAnnotator.Proofs.Grammar.Lockstep
import XPathAnnotator.Proofs.Grammar.Matching
import XPathAnnotator.Proofs.Grammar.Settling
import XPathAnnotator.Proofs.Grammar.Completeness

namespace XPathAnnotator.Grammar

open Automaton (Explored)

/-! ### Places in lists -/

/-- Places one further down. -/
def shiftedPlaces (e : Equiv.Perm Nat) : Equiv.Perm Nat where
  toFun
    | 0 => 0
    | i + 1 => e i + 1
  invFun
    | 0 => 0
    | i + 1 => e.symm i + 1
  left_inv i := by
    cases i with
    | zero => rfl
    | succ i => simp
  right_inv i := by
    cases i with
    | zero => rfl
    | succ i => simp

/-- Lists with the same elements in another order have them at places that a permutation exchanges. -/
theorem exists_places {γ : Type} {first second : List γ} (perm : first.Perm second) :
    ∃ e : Equiv.Perm Nat, (∀ i, second[e i]? = first[i]?) ∧ ∀ i, first.length ≤ i → e i = i := by
  induction perm with
  | nil => exact ⟨Equiv.refl _, fun _ => rfl, fun _ _ => rfl⟩
  | cons x _ ih =>
    obtain ⟨e, places, beyond⟩ := ih
    refine ⟨shiftedPlaces e, fun i => ?_, fun i outside => ?_⟩
    · cases i with
      | zero => rfl
      | succ i => exact places i
    · cases i with
      | zero => rfl
      | succ i => exact congrArg Nat.succ (beyond i (Nat.le_of_succ_le_succ outside))
  | swap x y l =>
    refine ⟨Equiv.swap 0 1, fun i => ?_, fun i outside => ?_⟩
    · match i with
      | 0 => simp
      | 1 => simp
      | i + 2 => rw [Equiv.swap_apply_of_ne_of_ne (by omega) (by omega)]; rfl
    · simp only [List.length_cons] at outside
      exact Equiv.swap_apply_of_ne_of_ne (by omega) (by omega)
  | trans one _ ihOne ihOther =>
    obtain ⟨e, placesOne, beyondOne⟩ := ihOne
    obtain ⟨f, placesOther, beyondOther⟩ := ihOther
    refine ⟨e.trans f, fun i => (placesOther (e i)).trans (placesOne i), fun i outside => ?_⟩
    rw [Equiv.trans_apply, beyondOne i outside]
    exact beyondOther i (one.length_eq ▸ outside)

/-! ### Grammars in another order -/

variable {g h : Grammar} {σ τ : Equiv.Perm Nat}

theorem exists_code_of_lt (plain : g.Unreserved) {x : Nat} (below : x < g.nonterminals.length) :
    ∃ s, g.code s = x := by
  have inside : x < g.symbols.length := by
    rw [symbols, List.length_append]
    omega
  obtain ⟨s, _, codeOf⟩ := plain.unmarked.exists_symbol inside
  exact ⟨s, codeOf⟩

/-- A grammar is another one with its productions in another order: `σ` tells the places of the productions and `τ`
the numbers of the symbols. -/
structure Reordered (g h : Grammar) (σ τ : Equiv.Perm Nat) : Prop where
  plain : g.Unreserved
  plainOther : h.Unreserved
  productions : ∀ p, h.productions[σ p]? = g.productions[p]?
  code : ∀ s, τ (g.code s) = h.code s
  nonterminals : ∀ s, s ∈ h.nonterminals ↔ s ∈ g.nonterminals
  terminals : ∀ s, s ∈ h.terminals ↔ s ∈ g.terminals
  implicit : σ 0 = 0

namespace Reordered

theorem symm (reordered : Reordered g h σ τ) : Reordered h g σ.symm τ.symm := by
  refine ⟨reordered.plainOther, reordered.plain, fun p => ?_, fun s => ?_, fun s => (reordered.nonterminals s).symm,
    fun s => (reordered.terminals s).symm, ?_⟩
  · rw [← reordered.productions, Equiv.apply_symm_apply]
  · rw [← reordered.code, Equiv.symm_apply_apply]
  · rw [Equiv.symm_apply_eq, reordered.implicit]

theorem numbered (reordered : Reordered g h σ τ) (p : Production) : h.numbered p = (g.numbered p).renumber τ := by
  unfold Grammar.numbered NumberedProduction.renumber
  rw [List.map_map, reordered.code]
  exact congrArg _ (List.map_congr_left fun s _ => (reordered.code s).symm)

/-- The numbered forms match. -/
theorem matched (reordered : Reordered g h σ τ) : g.numbers.Matches h.numbers σ τ := by
  refine ⟨fun k => ?_, fun x => ?_, fun x => ?_, reordered.code endSymbol,
    reordered.code Numbered.placeholderName, reordered.implicit⟩
  · rw [ofGrammar_productions, ofGrammar_productions, reordered.productions, Option.map_map]
    exact congrArg (Option.map · _) (funext reordered.numbered)
  · rw [ofGrammar_nonterminalCount, ofGrammar_nonterminalCount]
    constructor
    · intro below
      obtain ⟨s, codeOf⟩ := exists_code_of_lt reordered.plainOther below
      rw [← codeOf, code_lt_nonterminals_iff, reordered.nonterminals] at below
      rw [← reordered.code] at codeOf
      rw [← τ.injective codeOf]
      exact code_lt_nonterminals_iff.mpr below
    · intro below
      obtain ⟨s, rfl⟩ := exists_code_of_lt reordered.plain below
      rw [reordered.code, code_lt_nonterminals_iff, reordered.nonterminals]
      exact code_lt_nonterminals_iff.mp below
  · simp only [mem_ofGrammar_terminal, reordered.terminals, ← reordered.code, τ.injective.eq_iff]

theorem paired (reordered : Reordered g h σ τ) : Paired g.numbers h.numbers g.automaton h.automaton σ τ :=
  ⟨reordered.matched, ofGrammar_proper reordered.plain, explored_automaton reordered.plain,
    ofGrammar_proper reordered.plainOther, explored_automaton reordered.plainOther⟩

end Reordered

/-- With its rules in another order a grammar is in another order. -/
theorem exists_reordered (plain : g.Unreserved) {rules : List Production} (perm : g.rules.Perm rules) :
    ∃ σ τ, Reordered g ⟨g.start, rules⟩ σ τ := by
  let h : Grammar := ⟨g.start, rules⟩
  have plainOther : h.Unreserved :=
    ⟨plain.start, fun p member => plain.left p (perm.mem_iff.mpr member),
      fun p member => plain.right p (perm.mem_iff.mpr member)⟩
  have inProductions : ∀ p, p ∈ h.productions ↔ p ∈ g.productions := by
    intro p
    rw [mem_productions, mem_productions]
    exact or_congr Iff.rfl perm.mem_iff.symm
  have nonterminals : ∀ s, s ∈ h.nonterminals ↔ s ∈ g.nonterminals := by
    intro s
    simp only [mem_nonterminals, inProductions]
  have terminals : ∀ s, s ∈ h.terminals ↔ s ∈ g.terminals := by
    intro s
    simp only [mem_terminals, inProductions, nonterminals]
  have symbols : g.symbols.Perm h.symbols := by
    refine (List.perm_ext_iff_of_nodup plain.unmarked.nodup_symbols plainOther.unmarked.nodup_symbols).mpr fun s => ?_
    simp only [mem_symbols, nonterminals, terminals]
  obtain ⟨e, places, _⟩ := exists_places perm
  obtain ⟨τ, codes, beyond⟩ := exists_places symbols
  refine ⟨shiftedPlaces e, τ, plain, plainOther, fun p => ?_, fun s => ?_, nonterminals, terminals, rfl⟩
  · cases p with
    | zero => rfl
    | succ p => exact places p
  · by_cases inSymbols : s ∈ g.symbols
    · have found := codes (g.code s)
      rw [symbols_getElem? inSymbols] at found
      obtain ⟨inside, atPlace⟩ := List.getElem?_eq_some_iff.mp found
      rw [← plainOther.unmarked.nodup_symbols.idxOf_getElem _ inside, atPlace]
      rfl
    · have outside : g.code s = g.symbols.length := List.idxOf_eq_length inSymbols
      have outsideOther : h.code s = h.symbols.length :=
        List.idxOf_eq_length fun member => inSymbols (symbols.mem_iff.mpr member)
      rw [outside, beyond _ (Nat.le_refl _), symbols.length_eq, ← outsideOther]

/-! ### What similar states call for -/

/-- Actions that match: they read and come to similar states, apply the same production, or accept. -/
inductive ActionMatches (g h : Grammar) (σ : Equiv.Perm Nat) : Action → Action → Prop
  | shift {j j' : Nat} : Similar σ g.automaton h.automaton j j' → ActionMatches g h σ (.shift j) (.shift j')
  | reduce (p : Nat) : ActionMatches g h σ (.reduce p) (.reduce (σ p))
  | accept : ActionMatches g h σ .accept .accept

theorem ActionMatches.reads_iff {act act' : Action} (matched : ActionMatches g h σ act act') :
    act'.Reads ↔ act.Reads := by
  cases matched <;> rfl

theorem ActionMatches.symm {act act' : Action} (matched : ActionMatches g h σ act act') :
    ActionMatches h g σ.symm act' act := by
  cases matched with
  | shift similar => exact .shift similar.symm
  | reduce p =>
    have back := ActionMatches.reduce (g := h) (h := g) (σ := σ.symm) (σ p)
    rw [Equiv.symm_apply_apply] at back
    exact back
  | accept => exact .accept

namespace Reordered

/-- **Similar states call for the same actions.** -/
theorem calls (reordered : Reordered g h σ τ) {k k' : Nat} (similar : Similar σ g.automaton h.automaton k k')
    {s : String} {act : Action} (calls : g.Calls k s act) :
    ∃ act', h.Calls k' s act' ∧ ActionMatches g h σ act act' := by
  have paired := reordered.paired
  cases calls with
  | @shift item lookaheads _ j member next isTerminal target =>
    obtain ⟨more, inClosure⟩ := similar.exists_mem_closure paired ⟨lookaheads, member⟩
    obtain ⟨j', target', reached⟩ := similar.target paired target
    have next' := paired.matched.next next
    rw [reordered.code] at next' target'
    exact ⟨_, .shift inClosure next' ((reordered.terminals s).mpr isTerminal) target', .shift reached⟩
  | @accept item lookaheads member ends implicit =>
    obtain ⟨more, inClosure⟩ := similar.exists_mem_closure paired ⟨lookaheads, member⟩
    refine ⟨_, .accept inClosure ?_ ?_, .accept⟩
    · rw [paired.matched.nextSymbol?, ends]
      rfl
    · rw [Item.renumber, implicit]
      exact reordered.implicit
  | @reduce item lookaheads _ member ends explicit isTerminal expected =>
    obtain ⟨more, inClosure, expected'⟩ := similar.exists_lookahead paired ⟨lookaheads, member, expected⟩
    rw [reordered.code] at expected'
    refine ⟨_, .reduce inClosure ?_ ?_ ((reordered.terminals s).mpr isTerminal) expected', .reduce item.production⟩
    · rw [paired.matched.nextSymbol?, ends]
      rfl
    · intro implicit
      refine explicit (σ.injective ?_)
      rw [reordered.implicit]
      exact implicit

/-- What similar states call for, from the second one. -/
theorem calls_back (reordered : Reordered g h σ τ) {k k' : Nat} (similar : Similar σ g.automaton h.automaton k k')
    {s : String} {act' : Action} (calls : h.Calls k' s act') :
    ∃ act, g.Calls k s act ∧ ActionMatches g h σ act act' := by
  obtain ⟨act, called, matched⟩ := reordered.symm.calls similar.symm calls
  refine ⟨act, called, ?_⟩
  have back := matched.symm
  rw [Equiv.symm_symm] at back
  exact back

end Reordered

/-! ### Refusal -/

/-- A state and a terminal for which a grammar calls both for reading and for applying two productions. -/
def Torn (g : Grammar) : Prop :=
  ∃ k kernel s j p q, g.automaton.kernels[k]? = some kernel ∧ g.Calls k s (.shift j) ∧ g.Calls k s (.reduce p) ∧
    g.Calls k s (.reduce q) ∧ p ≠ q

/-- A state and a terminal for which a grammar calls for two actions that do not read. -/
def Competing (g : Grammar) : Prop :=
  ∃ k kernel s one other, g.automaton.kernels[k]? = some kernel ∧ g.Calls k s one ∧ g.Calls k s other ∧
    one ≠ other ∧ ¬ one.Reads ∧ ¬ other.Reads

section Refusal

/-- Reading leads to one state. -/
theorem Calls.shift_inj {k : Nat} {s : String} {j j' : Nat} (one : g.Calls k s (.shift j))
    (other : g.Calls k s (.shift j')) : j = j' := by
  cases one with
  | shift _ _ _ target =>
    cases other with
    | shift _ _ _ target' => exact Option.some.inj (target.symm.trans target')

/-- Where the table accepts, nothing is read. -/
theorem Calls.not_shift_of_accept (plain : g.Unreserved) {k : Nat} {s : String} {j : Nat}
    (accepts : g.Calls k s .accept) : ¬ g.Calls k s (.shift j) := by
  intro reads
  cases accepts with
  | accept =>
    cases reads with
    | shift _ next _ _ =>
      obtain ⟨p, found, atDot⟩ := Numbered.nextSymbol?_eq_some.mp next
      exact (ofGrammar_proper plain).right_ne_end found _ (List.mem_of_getElem? atDot) rfl

/-- Actions that clash and are called for do not read. -/
theorem Calls.not_reads_of_clash (plain : g.Unreserved) {k : Nat} {s : String} {one other : Action}
    (calls : g.Calls k s one) (callsOther : g.Calls k s other) (clash : one.Clash other) : ¬ one.Reads := by
  intro reads
  cases one with
  | shift j =>
    cases other with
    | shift j' => exact clash.1 (congrArg Action.shift (calls.shift_inj callsOther))
    | reduce p => exact clash.2.1 ⟨trivial, p, rfl⟩
    | accept => exact callsOther.not_shift_of_accept plain calls
  | reduce p => exact reads
  | accept => exact reads

theorem Action.Clash.symm {one other : Action} (clash : one.Clash other) : other.Clash one :=
  ⟨clash.1.symm, clash.2.2, clash.2.1⟩

/-- Where two actions compete, nothing is read: if the state also read the terminal, the two would apply productions. -/
theorem not_reads_of_competing (plain : g.Unreserved) (whole : ¬ g.Torn) {k : Nat} {kernel : List Item} {s : String}
    (atState : g.automaton.kernels[k]? = some kernel) {one other act : Action} (callsOne : g.Calls k s one)
    (callsOther : g.Calls k s other) (different : one ≠ other) (quiet : ¬ one.Reads) (quietOther : ¬ other.Reads)
    (calls : g.Calls k s act) : ¬ act.Reads := by
  intro reads
  cases act with
  | shift j =>
    cases one with
    | shift => exact quiet trivial
    | accept => exact callsOne.not_shift_of_accept plain calls
    | reduce p =>
      cases other with
      | shift => exact quietOther trivial
      | accept => exact callsOther.not_shift_of_accept plain calls
      | reduce q =>
        exact whole ⟨k, kernel, s, j, p, q, atState, calls, callsOne, callsOther,
          fun same => different (congrArg Action.reduce same)⟩
  | reduce => exact reads
  | accept => exact reads

/-- **Where no cell is torn, a grammar is refused for two actions that compete.** -/
theorem refused_iff (plain : g.Unreserved) (present : g.start ∈ g.nonterminals) (whole : ¬ g.Torn) :
    (∃ e, Table.of g = .error e) ↔ g.Competing := by
  rcases Table.of_cases present with ⟨t, built, _⟩ | ⟨failed, k, inside, column, refused⟩
  · refine iff_of_false (fun failed => ?_) ?_
    · obtain ⟨e, failed⟩ := failed
      exact absurd (built.symm.trans failed) (by simp)
    · rintro ⟨k, kernel, s, one, other, atState, callsOne, callsOther, different, quiet, quietOther⟩
      have made := Table.made_of built
      have silent : ∀ act, g.Calls k s act → ¬ act.Reads := fun act calls =>
        not_reads_of_competing plain whole atState callsOne callsOther different quiet quietOther calls
      have first := (made.action?_iff plain atState).mpr ⟨callsOne, .inr silent⟩
      have second := (made.action?_iff plain atState).mpr ⟨callsOther, .inr silent⟩
      exact different (Option.some.inj (first.symm.trans second))
  · refine iff_of_true failed ?_
    obtain ⟨one, inOne, other, inOther, clash⟩ := Table.exists_clash_of_settle refused
    rw [Option.toList_none, List.nil_append] at inOne inOther
    obtain ⟨s, found⟩ := Table.exists_terminal_of_mem_cellCalls inOne
    have callsOne := (Table.mem_cellCalls plain found).mp inOne
    have callsOther := (Table.mem_cellCalls plain found).mp inOther
    exact ⟨k, _, s, one, other, Array.getElem?_eq_getElem inside, callsOne, callsOther, clash.1,
      callsOne.not_reads_of_clash plain callsOther clash,
      callsOther.not_reads_of_clash plain callsOne clash.symm⟩

end Refusal

/-! ### Two orders -/

namespace Reordered

/-- Actions that compete do so in every order. -/
theorem competing (reordered : Reordered g h σ τ) (competing : g.Competing) : h.Competing := by
  obtain ⟨k, kernel, s, one, other, atState, callsOne, callsOther, different, quiet, quietOther⟩ := competing
  obtain ⟨k', similar⟩ := reordered.paired.exists_similar (Array.getElem?_eq_some_iff.mp atState).1
  obtain ⟨one', callsOne', matchedOne⟩ := reordered.calls similar callsOne
  obtain ⟨other', callsOther', matchedOther⟩ := reordered.calls similar callsOther
  obtain ⟨_, kernel', _, atOther, _⟩ := similar
  refine ⟨k', kernel', s, one', other', atOther, callsOne', callsOther', ?_, ?_, ?_⟩
  · rintro rfl
    cases matchedOne with
    | shift => exact quiet trivial
    | reduce p =>
      generalize applied : Action.reduce (σ p) = act at matchedOther
      cases matchedOther with
      | shift => exact absurd applied (by simp)
      | reduce q => exact different (congrArg Action.reduce (σ.injective (Action.reduce.inj applied)))
      | accept => exact absurd applied (by simp)
    | accept =>
      cases matchedOther with
      | accept => exact different rfl
  · rw [matchedOne.reads_iff]
    exact quiet
  · rw [matchedOther.reads_iff]
    exact quietOther

/-- A torn cell is torn in every order. -/
theorem torn (reordered : Reordered g h σ τ) (torn : g.Torn) : h.Torn := by
  obtain ⟨k, kernel, s, j, p, q, atState, reads, first, second, different⟩ := torn
  obtain ⟨k', similar⟩ := reordered.paired.exists_similar (Array.getElem?_eq_some_iff.mp atState).1
  obtain ⟨_, reads', ⟨⟩⟩ := reordered.calls similar reads
  obtain ⟨_, first', ⟨⟩⟩ := reordered.calls similar first
  obtain ⟨_, second', ⟨⟩⟩ := reordered.calls similar second
  obtain ⟨_, kernel', _, atOther, _⟩ := similar
  exact ⟨k', kernel', s, _, _, _, atOther, reads', first', second', fun same => different (σ.injective same)⟩

variable {t u : Table}

/-- What a table does in a state, the other one does in a similar state. -/
theorem acts (reordered : Reordered g h σ τ) (made : Table.Made g t) (madeOther : Table.Made h u) {k k' : Nat}
    (similar : Similar σ g.automaton h.automaton k k') {s : String} {act : Action}
    (acts : t.action? k s = some act) : ∃ act', u.action? k' s = some act' ∧ ActionMatches g h σ act act' := by
  obtain ⟨kernel, kernel', atState, atOther, _⟩ := id similar
  obtain ⟨calls, prevails⟩ := (made.action?_iff reordered.plain atState).mp acts
  obtain ⟨act', calls', matched⟩ := reordered.calls similar calls
  refine ⟨act', (madeOther.action?_iff reordered.plainOther atOther).mpr ⟨calls', ?_⟩, matched⟩
  rw [matched.reads_iff]
  refine prevails.imp_right fun silent other callsOther => ?_
  obtain ⟨_, callsBack, matchedBack⟩ := reordered.calls_back similar callsOther
  rw [matchedBack.reads_iff]
  exact silent _ callsBack

/-- **The tables of both orders act alike in similar states.** -/
theorem lockstep (reordered : Reordered g h σ τ) (made : Table.Made g t) (madeOther : Table.Made h u) :
    Lockstep t u id (fun _ => True) (Similar σ g.automaton h.automaton) := by
  refine ⟨reordered.paired.start, fun {k k' s} similar _ => ?_⟩
  show ActsAlike t u _ (t.action? k s) (u.action? k' s)
  cases acts : t.action? k s with
  | none =>
    cases actsOther : u.action? k' s with
    | none => exact .none
    | some act' =>
      obtain ⟨act, acts', _⟩ := reordered.symm.acts madeOther made similar.symm actsOther
      exact absurd (acts.symm.trans acts') (by simp)
  | some act =>
    obtain ⟨act', actsOther, matched⟩ := reordered.acts made madeOther similar acts
    rw [actsOther]
    cases matched with
    | shift reached => exact .shift reached
    | accept => exact .accept
    | reduce p =>
      obtain ⟨production, found⟩ := Table.exists_production_of_calls (made.calls_of_action? reordered.plain acts).2
      have foundOther : h.productions[σ p]? = some production := by rw [reordered.productions, found]
      have isLeft := left_mem_nonterminals (List.mem_of_getElem? found)
      refine .reduce (made.getElem?_productions found) (madeOther.getElem?_productions foundOther) rfl
        fun l l' below => ?_
      obtain ⟨_, _, atState, atOther, _⟩ := id below
      rw [made.goto?_eq atState isLeft, madeOther.goto?_eq atOther ((reordered.nonterminals _).mpr isLeft),
        ← reordered.code]
      exact below.rel_target reordered.paired _

end Reordered

/-- **The order of productions.** For every grammar without reserved names and every permutation of its rules: if no
state could both read a terminal and apply two productions before it, then the table is refused for one order exactly
if it is for the other; and when both tables are built, their parsers accept the same rows of tokens, without a bound
on the steps and within it, whatever values they make. -/
theorem table_reorder (plain : g.Unreserved) {rules : List Production} (perm : g.rules.Perm rules) :
    (¬ g.Torn → ((∃ e, Table.of g = .error e) ↔ ∃ e, Table.of ⟨g.start, rules⟩ = .error e)) ∧
    ∀ t u, Table.of g = .ok t → Table.of ⟨g.start, rules⟩ = .ok u →
      ∀ {α ε β δ : Type} (semantics : Semantics α ε) (semantics' : Semantics β δ), semantics.Total →
        semantics'.Total → ∀ tokens,
          (t.Accepts semantics tokens ↔ u.Accepts semantics' tokens) ∧
          ((∃ value, t.parse semantics tokens = .ok value) ↔ ∃ value, u.parse semantics' tokens = .ok value) := by
  obtain ⟨σ, τ, reordered⟩ := exists_reordered plain perm
  refine ⟨fun whole => ?_, fun t u built builtOther α ε β δ semantics semantics' total total' tokens => ?_⟩
  · by_cases present : g.start ∈ g.nonterminals
    · have presentOther : g.start ∈ Grammar.nonterminals ⟨g.start, rules⟩ := (reordered.nonterminals _).mpr present
      have wholeOther : ¬ Torn ⟨g.start, rules⟩ := fun torn => whole (reordered.symm.torn torn)
      rw [refused_iff plain present whole, refused_iff reordered.plainOther presentOther wholeOther]
      exact ⟨reordered.competing, reordered.symm.competing⟩
    · have absentOther : g.start ∉ Grammar.nonterminals ⟨g.start, rules⟩ :=
        fun member => present ((reordered.nonterminals _).mp member)
      exact iff_of_true (Table.exists_error_of_absent present) (Table.exists_error_of_absent absentOther)
  · have made := Table.made_of built
    have madeOther := Table.made_of builtOther
    have lockstep := reordered.lockstep made madeOther
    have sizes : t.nonterminals.length = u.nonterminals.length := by
      rw [made.nonterminals_eq, madeOther.nonterminals_eq]
      refine List.Perm.length_eq
        ((List.perm_ext_iff_of_nodup (nodup_distinctAfter _ _) (nodup_distinctAfter _ _)).mpr ?_)
      exact fun s => (reordered.nonterminals s).symm
    have same : tokens.map (·.rename id) = tokens := List.map_id tokens
    have known : ∀ token ∈ tokens, (fun _ : String => True) token.kind := fun _ _ => trivial
    refine ⟨?_, ?_⟩
    · rw [lockstep.accepts_iff total total' known, same]
    · rw [lockstep.parse_iff sizes total total' known, same]

/-- Where no conflict is recorded, no cell is torn. -/
theorem not_torn_of_unambiguous (plain : g.Unreserved) {t : Table} (made : Table.Made g t)
    (unambiguous : t.conflicts = []) : ¬ g.Torn := by
  rintro ⟨k, kernel, s, j, p, q, atState, reads, applies, _⟩
  have first := made.action?_of_calls plain unambiguous atState reads
  have second := made.action?_of_calls plain unambiguous atState applies
  exact absurd (first.symm.trans second) (by simp)

/-- A table exists if the grammar is not refused. -/
theorem exists_table_of_not_refused (accepted : ¬ ∃ e, Table.of g = .error e) : ∃ t, Table.of g = .ok t := by
  cases made : Table.of g with
  | ok t => exact ⟨t, rfl⟩
  | error e => exact absurd ⟨e, made⟩ accepted

theorem table_reorder_sum : ∃ u, Table.of ⟨"Sum", sumGrammar.rules.reverse⟩ = .ok u ∧
    ∃ tree, u.parse treeSemantics (sumTree.yield ++ [.end]) = .ok tree := by
  obtain ⟨t, built, unambiguous⟩ := exists_table_sumGrammar
  have whole := not_torn_of_unambiguous unreserved_sumGrammar (Table.made_of built) unambiguous
  obtain ⟨refused, same⟩ := table_reorder unreserved_sumGrammar (List.reverse_perm sumGrammar.rules).symm
  have accepted : ¬ ∃ e, Table.of ⟨"Sum", sumGrammar.rules.reverse⟩ = .error e := by
    intro failed
    obtain ⟨e, failed⟩ := (refused whole).mpr failed
    exact absurd (built.symm.trans failed) (by simp)
  obtain ⟨u, builtOther⟩ := exists_table_of_not_refused accepted
  have parsed := (same t u built builtOther _ _ total_treeSemantics total_treeSemantics (sumTree.yield ++ [.end])).2
  refine ⟨u, builtOther, parsed.mp ⟨sumTree, ?_⟩⟩
  rw [parse_sumTree built unambiguous, fold_treeSemantics]
  rfl

/-- Rules for which a state could read `y` or apply either of two productions, the one that reads first. -/
def tornGrammar : Grammar :=
  ⟨"S", [⟨"S", ["n", "y"], List.cons_ne_nil _ _⟩, ⟨"A", ["n"], List.cons_ne_nil _ _⟩,
    ⟨"B", ["n"], List.cons_ne_nil _ _⟩, ⟨"S", ["A", "y"], List.cons_ne_nil _ _⟩,
    ⟨"S", ["B", "y"], List.cons_ne_nil _ _⟩]⟩

/-- The same rules, with the two that are applied first. -/
def tornLast : Grammar :=
  ⟨"S", [⟨"A", ["n"], List.cons_ne_nil _ _⟩, ⟨"B", ["n"], List.cons_ne_nil _ _⟩,
    ⟨"S", ["n", "y"], List.cons_ne_nil _ _⟩, ⟨"S", ["A", "y"], List.cons_ne_nil _ _⟩,
    ⟨"S", ["B", "y"], List.cons_ne_nil _ _⟩]⟩

theorem exists_table_tornGrammar : ∃ t, Table.of tornGrammar = .ok t := by
  have source : tornGrammar.tableSource =
      { productions := tornGrammar.productions.toArray
        symbols := #["$accept", "S", "A", "B", "n", "y", "EOF"]
        terminals := ["n", "y", "EOF"]
        sorted := [("EOF", 6), ("n", 4), ("y", 5)]
        numbered := ⟨4, 7, #[⟨0, [1]⟩, ⟨1, [4, 5]⟩, ⟨2, [4]⟩, ⟨3, [4]⟩, ⟨1, [2, 5]⟩, ⟨1, [3, 5]⟩], ⟨112⟩, 6, 7⟩
        automaton :=
          ⟨#[[⟨0, 0⟩], [⟨0, 1⟩], [⟨4, 1⟩], [⟨5, 1⟩], [⟨1, 1⟩, ⟨2, 1⟩, ⟨3, 1⟩], [⟨4, 2⟩], [⟨5, 2⟩], [⟨1, 2⟩]],
            #[[(1, 1), (2, 2), (3, 3), (4, 4)], [], [(5, 5)], [(5, 6)], [(5, 7)], [], [], []]⟩
        first := #[⟨16⟩, ⟨16⟩, ⟨16⟩, ⟨16⟩, ⟨16⟩, ⟨32⟩, ⟨64⟩] } :=
    tableSource_eq rfl (by decide +kernel) (by decide +kernel) (by cbv) (by decide +kernel) (by decide +kernel)
      (by decide +kernel)
  have lookaheads : Grammar.lookaheads tornGrammar.tableSource.numbered tornGrammar.tableSource.automaton =
      #[[(⟨0, 0⟩, ⟨64⟩)], [(⟨0, 1⟩, ⟨64⟩)], [(⟨4, 1⟩, ⟨64⟩)], [(⟨5, 1⟩, ⟨64⟩)],
        [(⟨1, 1⟩, ⟨64⟩), (⟨2, 1⟩, ⟨32⟩), (⟨3, 1⟩, ⟨32⟩)], [(⟨4, 2⟩, ⟨64⟩)], [(⟨5, 2⟩, ⟨64⟩)],
        [(⟨1, 2⟩, ⟨64⟩)]] := by
    rw [source]
    decide +kernel
  have rows : ∃ rows conflicts, Table.rowsOf tornGrammar.tableSource 0 #[] []
      (Grammar.lookaheads tornGrammar.tableSource.numbered tornGrammar.tableSource.automaton).toList =
        .ok (rows, conflicts) := by
    rw [lookaheads, source]
    exact ⟨_, _, rfl⟩
  obtain ⟨rows, conflicts, made⟩ := rows
  obtain ⟨t, built, _⟩ := Table.exists_table_of_rows (by decide) made
  exact ⟨t, built⟩

theorem exists_error_tornLast : ∃ e, Table.of tornLast = .error e := by
  have source : tornLast.tableSource =
      { productions := tornLast.productions.toArray
        symbols := #["$accept", "A", "B", "S", "n", "y", "EOF"]
        terminals := ["n", "y", "EOF"]
        sorted := [("EOF", 6), ("n", 4), ("y", 5)]
        numbered := ⟨4, 7, #[⟨0, [3]⟩, ⟨1, [4]⟩, ⟨2, [4]⟩, ⟨3, [4, 5]⟩, ⟨3, [1, 5]⟩, ⟨3, [2, 5]⟩], ⟨112⟩, 6, 7⟩
        automaton :=
          ⟨#[[⟨0, 0⟩], [⟨4, 1⟩], [⟨5, 1⟩], [⟨0, 1⟩], [⟨1, 1⟩, ⟨2, 1⟩, ⟨3, 1⟩], [⟨4, 2⟩], [⟨5, 2⟩], [⟨3, 2⟩]],
            #[[(1, 1), (2, 2), (3, 3), (4, 4)], [(5, 5)], [(5, 6)], [], [(5, 7)], [], [], []]⟩
        first := #[⟨16⟩, ⟨16⟩, ⟨16⟩, ⟨16⟩, ⟨16⟩, ⟨32⟩, ⟨64⟩] } :=
    tableSource_eq rfl (by decide +kernel) (by decide +kernel) (by cbv) (by decide +kernel) (by decide +kernel)
      (by decide +kernel)
  have lookaheads : Grammar.lookaheads tornLast.tableSource.numbered tornLast.tableSource.automaton =
      #[[(⟨0, 0⟩, ⟨64⟩)], [(⟨4, 1⟩, ⟨64⟩)], [(⟨5, 1⟩, ⟨64⟩)], [(⟨0, 1⟩, ⟨64⟩)],
        [(⟨1, 1⟩, ⟨32⟩), (⟨2, 1⟩, ⟨32⟩), (⟨3, 1⟩, ⟨64⟩)], [(⟨4, 2⟩, ⟨64⟩)], [(⟨5, 2⟩, ⟨64⟩)],
        [(⟨3, 2⟩, ⟨64⟩)]] := by
    rw [source]
    decide +kernel
  have rows : ∃ e, Table.rowsOf tornLast.tableSource 0 #[] []
      (Grammar.lookaheads tornLast.tableSource.numbered tornLast.tableSource.automaton).toList = .error e := by
    rw [lookaheads, source]
    exact ⟨_, rfl⟩
  obtain ⟨e, failed⟩ := rows
  exact Table.exists_error_of_rows failed

/-- **Two orders of the same rules, of which one is refused**: between the two productions stands the action that
reads, or it does not. -/
theorem refused_only_in_one_order : tornGrammar.Unreserved ∧ tornGrammar.rules.Perm tornLast.rules ∧
    (∃ t, Table.of tornGrammar = .ok t) ∧ ∃ e, Table.of ⟨tornGrammar.start, tornLast.rules⟩ = .error e := by
  refine ⟨⟨by decide, by decide, by decide⟩, ?_, exists_table_tornGrammar, exists_error_tornLast⟩
  exact (List.Perm.swap _ _ _).trans (.cons _ (.swap _ _ _))

end XPathAnnotator.Grammar
