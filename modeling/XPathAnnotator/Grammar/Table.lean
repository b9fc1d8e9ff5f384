/-
**Parsing tables.**

A table says for each state and terminal what to do: read the terminal, apply a production backwards,
accept, or nothing, which is an error. Where a state could both read and apply, it reads, and the choice is
recorded as a `Conflict`; where it could apply two productions the grammar is refused. `Table.of` is the
LALR(1) table of a grammar.
-/

import XPathAnnotator.Grammar.Lookahead

namespace XPathAnnotator.Grammar

open XPathAnnotator.Text

/-- What a parser does in a state before a terminal. -/
inductive Action where
  | shift (state : Nat)
  | reduce (production : Nat)
  | accept
deriving DecidableEq

/-- The number that an action carries; acceptance carries that of the implicit production. -/
def Action.number : Action → Nat
  | shift state => state
  | reduce p => p
  | accept => 0

/-- A choice that was resolved in favour of reading the terminal. -/
structure Conflict where
  state : Nat
  terminal : String
  production : Production

/-- The wording of a conflict. -/
def Conflict.message (c : Conflict) : String :=
  s!"shift-reduce conflict in state {c.state} on " ++ quoted c.terminal ++ ": shift preferred to " ++
    c.production.text

/-- A parsing table, with the data that it was made from. -/
structure Table where
  grammar : Grammar
  productions : Array Production
  nonterminals : List String
  terminals : List String
  numbered : Numbered
  automaton : Automaton
  lookaheads : Array (List (Item × SymbolSet))
  action : Array (Array (Option Action))
  goto : Array (Array (Option Nat))
  conflicts : List Conflict

namespace Table

/-- A row of actions under construction, with the conflicts met so far. -/
structure RowState where
  row : Array (Option Action)
  conflicts : List Conflict

/-- The column of a terminal: its last position among the terminals. -/
def columnIn (terminals : List String) (terminal : String) : Option Nat :=
  match terminals.reverse.idxOf? terminal with
  | none => none
  | some k => some (terminals.length - 1 - k)

/-- Entering an action into a cell that is not empty. -/
def resolve (productions : Array Production) (state : Nat) (terminal : String) (column : Nat)
    (current action : Action) (s : RowState) : Except GrammarError RowState :=
  match current, action with
  | .shift _, .reduce p =>
    match productions[p]? with
    | none => .error (.missingProduction p)
    | some production => .ok ⟨s.row, s.conflicts ++ [⟨state, terminal, production⟩]⟩
  | .reduce p, .shift _ =>
    match productions[p]? with
    | none => .error (.missingProduction p)
    | some production =>
      .ok ⟨s.row.setIfInBounds column (some action), s.conflicts ++ [⟨state, terminal, production⟩]⟩
  | _, _ =>
    match productions[current.number]?, productions[action.number]? with
    | some first, some second => .error (.reduceConflict state terminal first second)
    | none, _ => .error (.missingProduction current.number)
    | _, none => .error (.missingProduction action.number)

/-- Enters an action into a row. -/
def setAction (productions : Array Production) (terminals : List String) (state : Nat)
    (terminal : String) (action : Action) (s : RowState) : Except GrammarError RowState :=
  match columnIn terminals terminal with
  | none => .ok s
  | some column =>
    match s.row.getD column none with
    | none => .ok ⟨s.row.setIfInBounds column (some action), s.conflicts⟩
    | some current =>
      if current = action then .ok s
      else resolve productions state terminal column current action s

/-- What the rows of a table are computed from. -/
structure Source where
  productions : Array Production
  symbols : Array String
  terminals : List String
  sorted : List (String × Nat)
  numbered : Numbered
  automaton : Automaton
  first : Array SymbolSet

/-- The actions that an item of a state calls for, with their terminals. -/
def actionsOf (source : Source) (state : Nat) (item : Item) (lookaheads : SymbolSet) :
    List (String × Action) :=
  match source.numbered.nextSymbol? item with
  | some symbol =>
    if source.numbered.terminal.contains symbol then
      match source.automaton.target? state symbol, source.symbols[symbol]? with
      | some next, some name => [(name, .shift next)]
      | _, _ => []
    else []
  | none =>
    if item.production = 0 then [(endSymbol, .accept)]
    else (source.sorted.filter fun (_, code) => lookaheads.contains code).map
      fun (name, _) => (name, .reduce item.production)

/-- The row of a state, entered in the order of its items. -/
def rowOf (source : Source) (state : Nat) (kernel : List (Item × SymbolSet))
    (conflicts : List Conflict) : Except GrammarError RowState :=
  ((source.numbered.closure source.first kernel).flatMap fun (item, lookaheads) =>
    actionsOf source state item lookaheads).foldlM
      (fun s (terminal, action) =>
        setAction source.productions source.terminals state terminal action s)
      ⟨Array.replicate source.terminals.length none, conflicts⟩

/-- The rows of the states from a number on, after those already made. -/
def rowsOf (source : Source) (state : Nat) (rows : Array (Array (Option Action)))
    (conflicts : List Conflict) :
    List (List (Item × SymbolSet)) → Except GrammarError (Array (Array (Option Action)) × List Conflict)
  | [] => .ok (rows, conflicts)
  | kernel :: kernels =>
    match rowOf source state kernel conflicts with
    | .error e => .error e
    | .ok s => rowsOf source (state + 1) (rows.push s.row) s.conflicts kernels

/-- The distinct terminals in the order of their names, with their numbers. -/
def sortedTerminals (g : Grammar) : List (String × Nat) :=
  let names := (Grammar.distinctAfter [] g.terminals).mergeSort fun s t => !(t < s)
  names.map fun name => (name, g.symbols.idxOf name)

/-- The table of a grammar. -/
def of (g : Grammar) : Except GrammarError Table :=
  if !g.nonterminals.contains g.start then .error (.missingStart g.start)
  else
    let n := Numbered.ofGrammar g
    let a := Automaton.of n
    let kernels := Grammar.lookaheads n a
    let source : Source :=
      { productions := g.productions.toArray
        symbols := g.symbols.toArray
        terminals := g.terminals
        sorted := sortedTerminals g
        numbered := n
        automaton := a
        first := n.first }
    match rowsOf source 0 #[] [] kernels.toList with
    | .error e => .error e
    | .ok (rows, conflicts) =>
      .ok
        { grammar := g
          productions := g.productions.toArray
          nonterminals := g.nonterminals
          terminals := g.terminals
          numbered := n
          automaton := a
          lookaheads := kernels
          action := rows
          goto := ((List.range a.kernels.size).map fun state =>
            ((List.range n.nonterminalCount).map fun symbol => a.target? state symbol).toArray).toArray
          conflicts := conflicts }

/-- The number of states. -/
def states (t : Table) : Nat := t.automaton.kernels.size

/-- What to do in a state before a terminal. -/
def action? (t : Table) (state : Nat) (terminal : String) : Option Action :=
  match columnIn t.terminals terminal, t.action[state]? with
  | some column, some row => row.getD column none
  | _, _ => none

/-- The state after a nonterminal was recognised. -/
def goto? (t : Table) (state : Nat) (nonterminal : String) : Option Nat :=
  match t.nonterminals.idxOf? nonterminal, t.goto[state]? with
  | some column, some row => row.getD column none
  | _, _ => none

/-- The terminals that a state has an action for. -/
def expected (t : Table) (state : Nat) : List String :=
  match t.action[state]? with
  | none => []
  | some row =>
    (t.terminals.zip row.toList).filterMap fun (terminal, action) =>
      if action.isSome then some terminal else none

/-- The first terminals of each nonterminal, in the order of their names. -/
def firstSets (t : Table) : List (String × List String) :=
  let sorted := sortedTerminals t.grammar
  let sets := t.numbered.first
  t.nonterminals.map fun name =>
    let set := sets.getD (t.grammar.symbols.idxOf name) .empty
    (name, (sorted.filter fun (_, code) => set.contains code).map (·.1))

/-- A table as shown in messages. -/
def shown (t : Table) : String :=
  s!"ParsingTable(states={t.states}, conflicts={t.conflicts.length})"

end Table

end XPathAnnotator.Grammar
