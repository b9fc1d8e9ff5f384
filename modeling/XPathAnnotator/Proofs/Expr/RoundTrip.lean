/-
**Printing and parsing.**

The written form of an expression is parsed as this expression, if the expression is made as the parser makes it
and can be read back: no filter expression is around a path or a unary minus, no operand of a union is a unary
minus, no target of processing instructions holds a double quote, and no operator that looks like a name comes after
a slash that ends its left operand.

* `parse_print_of_printable` — from the tokens and their readings;
* `parse_print` — **what is parsed is read back from its written form**;
* `parse_print_minusRoot` — where the slash of the root comes after a minus sign, another expression is read.
-/

import Mathlib
import XPathAnnotator.Proofs.Expr.Making
import XPathAnnotator.Proofs.Expr.Writing

namespace XPathAnnotator.Expr

open Grammar XPathAnnotator.Name

theorem parse_of_reads {source : String} {tokens : List Token} {e : Expr} (cut : Token.tokenize source = .ok tokens)
    (reads : Reads "Expr" tokens (.expr e)) : parse source = .ok e := by
  rw [parse, cut]
  exact ofTokens_of_reads reads

theorem parse_print_of_printable {e : Expr} (printable : e.Printable EndsAtRoot) : parse e.print = .ok e :=
  parse_of_reads (tokenize_print printable) (reads_tokens e printable)

/-- **What is parsed is read back from its written form**: the text of a parsed expression that is legible in all
its parts is parsed as this expression again. -/
theorem parse_print {source : String} {e : Expr} (parsed : parse source = .ok e)
    (legible : e.Everywhere (Legible EndsAtRoot) NodeTest.Legible) : parse e.print = .ok e :=
  parse_print_of_printable ((made_of_parse parsed).and legible)

/-! ### Abbreviations -/

/-- A step without its axis is one to children. -/
theorem reads_childStep {test : NodeTest} (made : test.Made) {es : List Expr}
    (all : ∀ e ∈ es, Reads "Expr" e.tokens (.expr e)) :
    Reads "Step" (test.tokens ++ predicateTokens es) (.step (.mk .child test es)) := by
  cases es with
  | nil =>
    rw [predicateTokens, List.append_nil]
    exact @Reads.of_rule 40 _ rfl _ _ _ (reads_test made).last rfl
  | cons e es =>
    have predicates := reads_predicates (List.cons_ne_nil e es) all
    exact @Reads.of_rule 41 _ rfl _ _ _ (.cons (reads_test made) predicates.last) rfl

/-- A path that begins with `//` and a step. -/
theorem reads_anywhere {tokens : List Token} {step : Step} (reads : Reads "Step" tokens (.step step)) :
    Reads "PathExpr" (Token.symbol "//" :: tokens) (.expr (.path true [.descendants, step])) := by
  have steps : Reads "RelativeLocationPath" tokens (.path false [step]) := @Reads.of_rule 35 _ rfl _ _ _ reads.last rfl
  have path : Reads "AbsoluteLocationPath" (Token.symbol "//" :: tokens) (.path true [.descendants, step]) :=
    @Reads.of_rule 34 _ rfl _ _ _
      (.cons (@reads_token (Token.symbol "//") (by rw [grammar_eq]; decide)) steps.last) rfl
  exact reads_location (@Reads.keep _ _ _ path 31 _ rfl rfl)

/-- An expression between parentheses. -/
theorem reads_parenthesized {tokens : List Token} {e : Expr} (reads : Reads "Expr" tokens (.expr e)) :
    Reads "FilterExpr" (Token.symbol "(" :: (tokens ++ [Token.symbol ")"])) (.expr e) :=
  Reads.primary (@reads_between _ _ _ _ _ _ 56 reads (by decide) (by decide) rfl rfl)

/-! ### Examples -/

theorem made_name {name : String} (isName : Token.isNCName name = true) : NodeTest.Made (.name ⟨none, name⟩) :=
  ⟨fun _ none => absurd none (by simp), isName⟩

theorem made_anyNode : NodeTest.anyNode.Made := trivial

/-- The number two. -/
def two : Expr := .number (Number.ofText "2")

example : two.print = "2" := by decide

theorem readsBack_two : Number.ReadsBack (Number.ofText "2") := ⟨_, rfl, fun _ => by decide⟩

theorem printable_two : two.Printable EndsAtRoot :=
  ⟨Number.unsigned_ofText (by decide), readsBack_two⟩

theorem reads_two : Reads "Expr" two.tokens (.expr two) :=
  reads_tokens two (printable_two : two.Printable EndsAtRoot)

/-- The second child of every node. -/
def secondChildren : Expr := .path true [.descendants, .mk .child .anyNode [two]]

theorem parse_secondChildren : parse "//node()[2]" = .ok secondChildren := by
  have step := reads_childStep made_anyNode (List.forall_mem_singleton.mpr reads_two)
  exact parse_of_reads (by decide +kernel) ((reads_anywhere step).rise (i := 1) (j := 10) (by decide) (Nat.le_refl 10))

theorem legible_secondChildren : secondChildren.Everywhere (Legible EndsAtRoot) NodeTest.Legible := by
  simp [secondChildren, Everywhere, Step.AllEverywhere, Step.Everywhere, AllEverywhere, Step.descendants, two, Legible,
    NodeTest.Legible, readsBack_two]

theorem parse_print_secondChildren : parse "//node()[2]" = .ok secondChildren ∧
    secondChildren.print = "/descendant-or-self::node()/child::node()[2]" ∧
    parse secondChildren.print = .ok secondChildren :=
  ⟨parse_secondChildren, by decide, parse_print parse_secondChildren legible_secondChildren⟩

/-- The path of the root alone after a minus sign. -/
def minusRoot : Expr := .negate (.path true [])

/-- A step to the children of a name. -/
def childNamed (name : String) : Step := .mk .child (.name ⟨none, name⟩) []

/-- The path to the children of the root of a name. -/
def rootChild (name : String) : Expr := .path true [childNamed name]

/-- **After a minus sign the slash of the root takes in the operator**: the written form of a division whose left
operand is minus the root is read as a path. -/
theorem parse_print_minusRoot : parse "(-/) div /child::x" = .ok (.binary .div minusRoot (rootChild "x")) ∧
    (Expr.binary .div minusRoot (rootChild "x")).Everywhere (Legible IsRoot) NodeTest.Legible ∧
    parse (Expr.binary .div minusRoot (rootChild "x")).print =
      .ok (.negate (.path true [childNamed "div", childNamed "x"])) := by
  have isX : Token.isNCName "x" = true := by decide
  have printable : (rootChild "x").Printable EndsAtRoot :=
    ⟨⟨.inl rfl, trivial⟩, ⟨⟨made_name isX, trivial⟩, trivial⟩, trivial⟩
  have right : Reads (level 1) (rootChild "x").tokens (.expr (rootChild "x")) :=
    reads_level (rootChild "x") printable
  refine ⟨?_, ?_, ?_⟩
  · have minus : minusRoot.Printable EndsAtRoot := ⟨⟨trivial, trivial⟩, ⟨.inl rfl, trivial⟩, trivial⟩
    have root : Reads "Expr" minusRoot.tokens (.expr minusRoot) := reads_tokens minusRoot minus
    have left : Reads (level 0) _ _ := reads_parenthesized root
    have whole := reads_operation .div (left.rise (j := 4) (by decide) (by decide))
      (right.rise (j := 3) (by decide) (by decide))
    exact parse_of_reads (by decide +kernel) (whole.rise (j := 10) (by decide) (Nat.le_refl 10))
  · simp [Everywhere, Step.AllEverywhere, Step.Everywhere, AllEverywhere, childNamed, minusRoot, rootChild, Legible,
      NodeTest.Legible, IsRoot]
  · have isDiv : Token.isNCName "div" = true := by decide
    have first : Reads "RelativeLocationPath" [⟨.name, "div"⟩] (.path false [childNamed "div"]) :=
      @Reads.of_rule 35 _ rfl _ _ _ (reads_childStep (made_name isDiv) (List.forall_mem_nil _)).last rfl
    have steps : Reads "RelativeLocationPath" (⟨.name, "div"⟩ :: (rootChild "x").tokens)
        (.path false [childNamed "div", childNamed "x"]) :=
      @Reads.of_rule 36 _ rfl _ _ _ (.cons first (.symbol "/" (by decide)
        (reads_step .child (made_name isX) (List.forall_mem_nil _)).last)) rfl
    have path : Reads "AbsoluteLocationPath" (Token.symbol "/" :: ⟨.name, "div"⟩ :: (rootChild "x").tokens)
        (.path true [childNamed "div", childNamed "x"]) :=
      @Reads.of_rule 33 _ rfl _ _ _ (.symbol "/" (by decide) steps.last) rfl
    have operand : Reads (level 3) _ _ :=
      (reads_location (@Reads.keep _ _ _ path 31 _ rfl rfl)).rise (i := 1) (j := 3) (by decide) (by decide)
    have negated : Reads (level 3) (Token.symbol "-" :: Token.symbol "/" :: ⟨.name, "div"⟩ :: (rootChild "x").tokens)
        (.expr (.negate (.path true [childNamed "div", childNamed "x"]))) :=
      @Reads.of_rule 22 _ rfl _ _ _ (.symbol "-" (by decide) operand.last) rfl
    have whole := reads_parenthesized (negated.rise (j := 10) (by decide) (Nat.le_refl 10))
    exact parse_of_reads (by decide +kernel) (whole.rise (i := 0) (j := 10) (by decide) (Nat.le_refl 10))

end XPathAnnotator.Expr
