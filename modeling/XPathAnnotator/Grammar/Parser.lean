/-
**Table-driven parsing.**

A parser keeps a stack of states with the values of the symbols recognised so far. Before each token the
table says whether to read it, to replace the values of a production's right side by the value of its left
side, or to accept. `Table.parse` runs until the table accepts or has no action, which blames the token
at hand.
-/

import XPathAnnotator.Grammar.Table

namespace XPathAnnotator.Grammar

open XPathAnnotator.Text

/-- A token: its terminal and the text it was read from. -/
structure Token where
  kind : String
  text : String
deriving DecidableEq

/-- The token that ends every input. -/
def Token.end : Token := ⟨endSymbol, ""⟩

/-- The ways in which parsing fails: the table has no action for a token, the value of a production is
refused, the tokens end without an end mark, or a bound on the number of steps is reached. -/
inductive ParseFailure (ε : Type) where
  | unexpected (token : Token)
  | refused (cause : ε)
  | exhausted
  | endless

/-- The wording of the blame of a token. -/
def Token.blame (token : Token) : String :=
  if token.kind == endSymbol then "XPath parse error: unexpected end of expression"
  else "XPath parse error: unexpected " ++ quoted (if token.text.isEmpty then token.kind else token.text)

/-- How values are made: from a token that is read, and from the values of a production's right side. -/
structure Semantics (α ε : Type) where
  leaf : Token → α
  node : Nat → List α → Except ε α

/-- A parser at work: the states and values recognised so far, the latest first, and the tokens left. -/
structure Configuration (α : Type) where
  stack : List (Nat × α)
  tokens : List Token

/-- The state of a parser. -/
def Configuration.state {α : Type} (c : Configuration α) : Nat :=
  match c.stack with
  | [] => 0
  | (state, _) :: _ => state

/-- The outcome of one step. -/
inductive StepResult (α ε : Type) where
  | next (configuration : Configuration α)
  | accepted (value : α)
  | failed (cause : ParseFailure ε)

namespace Table

variable {α ε : Type}

/-- Replaces the values of the right side of a production by the value of its left side. -/
def reduce (t : Table) (semantics : Semantics α ε) (token : Token) (c : Configuration α) (p : Nat) :
    StepResult α ε :=
  match t.productions[p]? with
  | none => .failed (.unexpected token)
  | some production =>
    let count := production.right.length
    let rest := c.stack.drop count
    match semantics.node p ((c.stack.take count).map (·.2)).reverse with
    | .error cause => .failed (.refused cause)
    | .ok value =>
      match t.goto? (Configuration.state ⟨rest, c.tokens⟩) production.left with
      | none => .failed (.unexpected token)
      | some state => .next ⟨(state, value) :: rest, c.tokens⟩

/-- One step of a parser. -/
def step (t : Table) (semantics : Semantics α ε) (c : Configuration α) : StepResult α ε :=
  match c.tokens with
  | [] => .failed .exhausted
  | token :: tokens =>
    match t.action? c.state token.kind with
    | none => .failed (.unexpected token)
    | some (.shift state) => .next ⟨(state, semantics.leaf token) :: c.stack, tokens⟩
    | some (.reduce p) => t.reduce semantics token c p
    | some .accept =>
      match c.stack with
      | [] => .failed .exhausted
      | (_, value) :: _ => .accepted value

/-- Steps until the parser accepts or fails. -/
def run (t : Table) (semantics : Semantics α ε) (c : Configuration α) :
    Nat → Except (ParseFailure ε) α
  | 0 => .error .endless
  | fuel + 1 =>
    match t.step semantics c with
    | .next next => t.run semantics next fuel
    | .accepted value => .ok value
    | .failed cause => .error cause

/-- A bound on the number of steps for a number of tokens: between two tokens each nonterminal is
recognised a bounded number of times. -/
def stepBound (t : Table) (count : Nat) : Nat :=
  (2 * count + 2) * (t.nonterminals.length + 1)

/-- The value of a row of tokens, which must end with the end mark. -/
def parse (t : Table) (semantics : Semantics α ε) (tokens : List Token) :
    Except (ParseFailure ε) α :=
  t.run semantics ⟨[], tokens⟩ (t.stepBound tokens.length)

end Table

end XPathAnnotator.Grammar
