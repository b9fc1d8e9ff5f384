/-
**Expressions as they are mostly written.**

In an expression that somebody writes, steps mostly go to children and attributes by their names, and arguments are
literals, paths of such steps and calls. A step to a child is written without its axis there, and one to an attribute
with a sign. Now and then a step goes to the parent, and is written with its axis.

* `Step.Brief`, `Expr.Brief` — such steps and expressions;
* `Step.brief`, `Expr.brief` — how they are written;
* `Expr.Brief.reads` — what is written so is read as the expression.
-/

import Mathlib
import XPathAnnotator.Proofs.Expr.RoundTrip

namespace XPathAnnotator

/-- A step to a child, an attribute or a parent by a name without qualifier, or to a text. -/
inductive Step.Brief : Step → Prop
  | toChild {name : String} (isName : Token.isNCName name = true) : Brief (.mk .child (.name ⟨none, name⟩) [])
  | toAttribute {name : String} (isName : Token.isNCName name = true) : Brief (.mk .attribute (.name ⟨none, name⟩) [])
  | toParent {name : String} (isName : Token.isNCName name = true) : Brief (.mk .parent (.name ⟨none, name⟩) [])
  | toText : Brief (.mk .child .text [])

/-- A literal, a path of brief steps, or a call with arguments of this kind. -/
inductive Expr.Brief : Expr → Prop
  | text (value : String) : Brief (.text value)
  | path {steps : List Step} (nonempty : steps ≠ []) (all : ∀ step ∈ steps, step.Brief) : Brief (.path false steps)
  | call {name : String} {es : List Expr} (isName : Token.isNCName name = true) (nonempty : es ≠ [])
    (all : ∀ e ∈ es, Brief e) : Brief (.call ⟨none, name⟩ es)

/-- The tokens of a brief step. -/
def Step.brief : Step → List Token
  | .mk .attribute test _ => Token.symbol "@" :: test.tokens
  | .mk .parent test predicates => (Step.mk .parent test predicates).tokens
  | .mk _ test _ => test.tokens

namespace Expr

mutual

/-- The tokens of a brief expression. -/
def brief : Expr → List Token
  | .path false (step :: steps) => step.brief ++ steps.flatMap fun step => Token.symbol "/" :: step.brief
  | .call function (e :: es) =>
    ⟨.functionName, function.text⟩ :: Token.symbol "(" :: (e.brief ++ furtherBrief es ++ [Token.symbol ")"])
  | e => e.tokens

/-- The tokens of brief expressions with a comma before each. -/
def furtherBrief : List Expr → List Token
  | [] => []
  | e :: es => Token.symbol "," :: (e.brief ++ furtherBrief es)

end

theorem furtherBrief_eq (es : List Expr) : furtherBrief es = es.flatMap fun e => Token.symbol "," :: e.brief := by
  induction es with
  | nil => rfl
  | cons e es ih => rw [furtherBrief, ih, List.flatMap_cons, List.cons_append]

theorem reads_sign : Reads "AxisSpecifier" [Token.symbol "@"] (.axis .attribute) :=
  @Reads.of_rule 45 _ rfl _ _ _ (@reads_token (Token.symbol "@") (by rw [grammar_eq]; decide)).last rfl

/-- A brief step is read. -/
theorem reads_brief_step {step : Step} (isBrief : step.Brief) : Reads "Step" step.brief (.step step) := by
  cases isBrief with
  | toChild isName => exact @Reads.of_rule 40 _ rfl _ _ _ (reads_test (made_name isName)).last rfl
  | toAttribute isName =>
    exact @Reads.of_rule 38 _ rfl _ _ _ (.cons reads_sign (reads_test (made_name isName)).last) rfl
  | toParent isName => exact reads_step .parent (made_name isName) (List.forall_mem_nil _)
  | toText => exact @Reads.of_rule 40 _ rfl _ _ _ (@reads_test .text trivial).last rfl

theorem reads_brief_path {step : Step} {steps : List Step} (all : ∀ s ∈ step :: steps, s.Brief) :
    Reads "PathExpr" (Expr.path false (step :: steps)).brief (.expr (.path false (step :: steps))) := by
  have first : Reads "RelativeLocationPath" step.brief (.path false [step]) :=
    @Reads.of_rule 35 _ rfl _ _ _ (reads_brief_step (all step List.mem_cons_self)).last rfl
  have whole : Reads "RelativeLocationPath" (Expr.path false (step :: steps)).brief (.path false (step :: steps)) := by
    rw [brief]
    refine reads_each (.path false) (fun s member tokens seen before => ?_) [step] first
    exact @Reads.of_rule 36 _ rfl _ _ _ (.cons before
      (.symbol "/" (by decide) (reads_brief_step (all s (List.mem_cons_of_mem _ member))).last)) rfl
  exact reads_location (@Reads.keep _ _ _ whole 30 _ rfl rfl)

theorem reads_brief_call {name : String} (isName : Token.isNCName name = true) {e : Expr} {es : List Expr}
    (all : ∀ a ∈ e :: es, Reads "Expr" a.brief (.expr a)) :
    Reads "FunctionCall" (Expr.call ⟨none, name⟩ (e :: es)).brief (.expr (.call ⟨none, name⟩ (e :: es))) := by
  have named : Name.QName.ofText (Name.QName.text ⟨none, name⟩) = ⟨none, name⟩ :=
    Name.QName.ofText_text (.inl (made_name isName))
  have first : Reads "ArgumentList" e.brief (.exprs [e]) :=
    @Reads.of_rule 62 _ rfl _ _ _ (all e List.mem_cons_self).last rfl
  have arguments : Reads "ArgumentList" (e.brief ++ furtherBrief es) (.exprs (e :: es)) := by
    rw [furtherBrief_eq]
    refine reads_each .exprs (fun a member tokens seen before => ?_) [e] first
    exact @Reads.of_rule 63 _ rfl _ _ _ (.cons before
      (.symbol "," (by decide) (all a (List.mem_cons_of_mem _ member)).last)) rfl
  rw [brief]
  refine @Reads.of_rule 61 _ rfl _ _ _ (.token .functionName _ (by decide)
    (.symbol "(" (by decide) (.cons arguments (.symbol ")" (by decide) .nil)))) ?_
  exact congrArg (fun name => Except.ok (Part.expr (.call name (e :: es)))) named

/-- **A brief expression is read** from the way it is mostly written, on the level of paths. -/
theorem Brief.reads {e : Expr} (isBrief : e.Brief) : Reads "PathExpr" e.brief (.expr e) := by
  induction isBrief with
  | text value =>
    have literal : Reads "PrimaryExpr" [⟨.literal, value⟩] (.expr (.text value)) :=
      @Reads.of_rule 57 _ rfl _ _ _ (.token .literal value (by decide) .nil) rfl
    exact (Reads.primary literal).rise (i := 0) (j := 1) (by decide) (by decide)
  | @path steps nonempty all =>
    cases steps with
    | nil => exact absurd rfl nonempty
    | cons step steps => exact reads_brief_path all
  | @call name es isName nonempty _ ih =>
    cases es with
    | nil => exact absurd rfl nonempty
    | cons e es =>
      have each : ∀ a ∈ e :: es, Reads "Expr" a.brief (.expr a) := fun a member =>
        (ih a member).rise (i := 1) (j := 10) (by decide) (Nat.le_refl 10)
      have primary : Reads "PrimaryExpr" (Expr.call ⟨none, name⟩ (e :: es)).brief
          (.expr (.call ⟨none, name⟩ (e :: es))) := @Reads.keep _ _ _ (reads_brief_call isName each) 59 _ rfl rfl
      exact (Reads.primary primary).rise (i := 0) (j := 1) (by decide) (by decide)

/-- A text whose tokens are those of a brief expression is parsed as the expression. -/
theorem Brief.parse {e : Expr} (isBrief : e.Brief) {source : String} (cut : Token.tokenize source = .ok e.brief) :
    Expr.parse source = .ok e :=
  parse_of_reads cut (isBrief.reads.rise (i := 1) (j := 10) (by decide) (Nat.le_refl 10))

end Expr

end XPathAnnotator
