/-
**The shape of parsed expressions.**

Whatever text is read, the answer is an error about this text, of one of three kinds, or an expression in which no
path and no filter expression is empty and none is put around a filter expression without steps. The same is said of
the outline of the expression, where the parts of a path expression can be told apart: an axis is given by its name,
a filter may be missing, and so may a location path.

* `ofTokens_error` — tokens are refused for two reasons: one of them is unexpected, or an axis is unknown;
* `throughout_outline` — from the shape of an expression to that of its outline;
* `shape_of_read` — **every text is read as an expression of this shape, or is reported with one of the errors**.
-/

import Mathlib
import XPathAnnotator.Expr.Outline
import XPathAnnotator.Proofs.Expr.RoundTrip
import XPathAnnotator.Proofs.Grammar.Viability

namespace XPathAnnotator

open XPathAnnotator.Data Grammar

namespace Expr

/-! ### Errors -/

/-- The errors that reading reports: they are about the text, not about the parser. -/
def SyntaxError.Reported : SyntaxError → Prop
  | .lexical _ | .unexpected _ | .unknownAxis _ => True
  | .misshapen | .noTable => False

/-- Nothing is asked of the words, and nothing but its shape is known of an expression. -/
theorem keeps_shaped : Keeps (fun _ _ => True) (fun _ => True) Shaped (fun _ => True) where
  text _ := trivial
  number _ := trivial
  negate := trivial
  binary := trivial
  path shaped := shaped
  filter shaped := shaped
  call _ := trivial
  reference _ := trivial
  variableName _ := trivial
  shaped := id
  nameTest _ := trivial
  anyNameIn _ := trivial
  nameless _ := trivial
  instruction := trivial

theorem worded_of_tree (tree : Tree) : Worded (fun _ _ => True) (fun _ => True) tree := by
  induction tree using Tree.induction with
  | leaf token => exact .leaf trivial
  | node p children ih => exact .node ih

/-- What is read as a symbol is a part of its role. -/
theorem Reads.fits {s : String} {tokens : List Token} {part : Part} (reads : Reads s tokens part) :
    Fits (fun _ _ => True) Shaped (fun _ => True) s part := by
  obtain ⟨tree, derives, _, folds⟩ := reads
  have outcome := outcome_fold keeps_shaped derives (worded_of_tree tree)
  rw [folds] at outcome
  exact outcome

/-- A part that is accepted is an expression of the shape. -/
theorem shaped_of_accepted {t : Table} (decided : Decided grammar t) {tokens : List Token}
    (only : ∀ token ∈ tokens, token.kind.terminal ≠ endSymbol) {part : Part}
    (accepted : t.parse semantics (Token.sentence tokens) = .ok part) :
    ∃ e : Expr, part = .expr e ∧ e.Everywhere Shaped fun _ => True :=
  (reads_of_accepted decided only accepted).fits

/-- **Why tokens are refused**: one of them is unexpected, or an axis is unknown. -/
theorem ofTokens_error {tokens : List Token} (only : ∀ token ∈ tokens, token.kind.terminal ≠ endSymbol)
    {cause : SyntaxError} (failed : ofTokens tokens = .error cause) : cause.Reported := by
  obtain ⟨t, found, decided⟩ := exists_table
  rw [ofTokens_eq found, ofTokensBy] at failed
  have blames {cause : ParseFailure SyntaxError}
      (failed : t.parse semantics (Token.sentence tokens) = .error cause) :=
    parse_error decided (rfl : Grammar.Token.end.kind = endSymbol) failed
  split at failed
  · exact absurd failed (by simp)
  · rename_i part noExpr accepted
    obtain ⟨e, rfl, _⟩ := shaped_of_accepted decided only accepted
    exact absurd rfl (noExpr e)
  · obtain rfl := Except.error.inj failed
    trivial
  · rename_i reason refused
    obtain rfl := Except.error.inj failed
    rcases blames refused with ⟨_, _, other⟩ | ⟨s, tree, _, derives, folds, same⟩
    · exact absurd other (by simp)
    · obtain rfl := ParseFailure.refused.inj same
      have outcome := outcome_fold keeps_shaped derives (worded_of_tree tree)
      rw [folds] at outcome
      obtain ⟨name, rfl⟩ := outcome
      trivial
  · rename_i refused
    rcases blames refused with ⟨_, _, other⟩ | ⟨_, _, _, _, _, other⟩ <;> exact absurd other (by simp)
  · rename_i refused
    rcases blames refused with ⟨_, _, other⟩ | ⟨_, _, _, _, _, other⟩ <;> exact absurd other (by simp)

theorem parse_error_reported {source : String} {cause : SyntaxError} (failed : parse source = .error cause) :
    cause.Reported := by
  unfold parse at failed
  split at failed
  · obtain rfl := Except.error.inj failed
    trivial
  · rename_i tokens cut
    exact ofTokens_error (fun _ member => terminal_ne_endSymbol (Token.sound_of_tokensAfter cut) member) failed

/-! ### Outlines -/

mutual

/-- A property of a setting and of all items in it. -/
def Throughout (P : Setting → Prop) : Setting → Prop
  | .list items => P (.list items) ∧ AllThroughout P items
  | setting => P setting

/-- The same of all settings of a list. -/
def AllThroughout (P : Setting → Prop) : List Setting → Prop
  | [] => True
  | setting :: settings => Throughout P setting ∧ AllThroughout P settings

end

/-- What is known of a part of an outline: the axis of a step has one of the names, a path that does not begin at
the root has a step, and a path expression has a filter or a location path. Without a filter there are no predicates,
and with one there are predicates or a location path, which does not begin at the root; and the filter is no path
expression without a location path. -/
structure PartShaped (part : Setting) : Prop where
  axis {name : String} {test predicates : Setting} :
    part = .list [.text "Step", .text name, test, predicates] → name ∈ Axis.all.map Axis.name
  path {absolute : Bool} {steps : List Setting} :
    part = .list [.text "LocationPath", .truth absolute, .list steps] → absolute = true ∨ steps ≠ []
  filterOrPath {filter path : Setting} {predicates : List Setting} :
    part = .list [.text "PathExpr", filter, .list predicates, path] → filter ≠ .null ∨ path ≠ .null
  noFilter {path : Setting} {predicates : List Setting} :
    part = .list [.text "PathExpr", .null, .list predicates, path] → predicates = []
  filter {filter path : Setting} {predicates : List Setting} :
    part = .list [.text "PathExpr", filter, .list predicates, path] → filter ≠ .null →
      (predicates ≠ [] ∨ path ≠ .null) ∧
      (∀ steps, path ≠ .list [.text "LocationPath", .truth true, .list steps]) ∧
      ∀ inner more, filter ≠ .list [.text "PathExpr", inner, .list more, .null]

theorem outline_ne_null (e : Expr) : e.outline ≠ .null := by
  cases e <;> simp [outline]

theorem partShaped_of_head {kind : String} (other : kind ∉ ["Step", "LocationPath", "PathExpr"]) (items : List Setting) :
    PartShaped (.list (.text kind :: items)) := by
  simp only [List.mem_cons, List.not_mem_nil, or_false, not_or] at other
  constructor <;> simp [other]

theorem partShaped_of_not_list {part : Setting} (other : ∀ items, part ≠ .list items) : PartShaped part :=
  ⟨fun same => absurd same (other _), fun same => absurd same (other _), fun same => absurd same (other _),
    fun same => absurd same (other _), fun same => absurd same (other _)⟩

theorem throughout_of_not_list {part : Setting} (other : ∀ items, part ≠ .list items) :
    Throughout PartShaped part := by
  cases part
  case list items => exact absurd rfl (other items)
  all_goals exact partShaped_of_not_list other

theorem throughout_text (text : String) : Throughout PartShaped (.text text) := throughout_of_not_list (by simp)

/-- A list of lists is no part of a kind. -/
theorem partShaped_of_lists {settings : List Setting} (lists : ∀ s ∈ settings, ∃ items, s = .list items) :
    PartShaped (.list settings) := by
  have noText {text : String} {items : List Setting} : (.list settings : Setting) ≠ .list (.text text :: items) := by
    intro same
    obtain rfl := Datum.list.inj same
    obtain ⟨_, other⟩ := lists (.text text) List.mem_cons_self
    exact absurd other (by simp)
  exact ⟨fun same => absurd same noText, fun same => absurd same noText, fun same => absurd same noText,
    fun same => absurd same noText, fun same => absurd same noText⟩

/-! ### The outlines of paths -/

theorem isBareFilter_of_outline {base : Expr} {inner : Setting} {more : List Setting}
    (same : base.outline = .list [.text "PathExpr", inner, .list more, .null]) : base.IsBareFilter := by
  cases base
  case filter base predicates steps =>
    cases steps with
    | nil => trivial
    | cons step steps => exact absurd same (by simp [outline, outlineOfPath])
  case binary operator _ _ => cases operator <;> exact absurd same (by simp [outline, Operator.kindName])
  all_goals exact absurd same (by simp [outline, outlineOfPath])

theorem throughout_test (test : NodeTest) : Throughout PartShaped test.outline := by
  refine ⟨partShaped_of_head ?_ _, throughout_text _, throughout_text _, trivial⟩
  cases test <;> simp [NodeTest.kindName]

theorem outlineAll_ne_nil {es : List Expr} (nonempty : es ≠ []) : outlineAll es ≠ [] := by
  cases es with
  | nil => exact absurd rfl nonempty
  | cons e es => simp [outlineAll]

theorem outlineAll_steps_ne_nil {steps : List Step} (nonempty : steps ≠ []) : Step.outlineAll steps ≠ [] := by
  cases steps with
  | nil => exact absurd rfl nonempty
  | cons step steps => simp [Step.outlineAll]

theorem exists_outline (e : Expr) : ∃ items, e.outline = .list items := by
  cases e <;> exact ⟨_, rfl⟩

theorem exists_of_mem_outlineAll {es : List Expr} : ∀ s ∈ outlineAll es, ∃ items, s = .list items := by
  induction es with
  | nil => simp [outlineAll]
  | cons e es ih => exact List.forall_mem_cons.mpr ⟨exists_outline e, ih⟩

theorem exists_of_mem_outlineAll_steps {steps : List Step} :
    ∀ s ∈ Step.outlineAll steps, ∃ items, s = .list items := by
  induction steps with
  | nil => simp [Step.outlineAll]
  | cons step steps ih =>
    obtain ⟨axis, test, predicates⟩ := step
    exact List.forall_mem_cons.mpr ⟨⟨_, rfl⟩, ih⟩

/-- The outline of a location path whose steps are known. -/
theorem throughout_outlineOfPath {absolute : Bool} {steps : List Step} (shaped : absolute = true ∨ steps ≠ [])
    (all : AllThroughout PartShaped (Step.outlineAll steps)) :
    Throughout PartShaped (outlineOfPath absolute (Step.outlineAll steps)) := by
  have part : PartShaped (outlineOfPath absolute (Step.outlineAll steps)) := by
    unfold outlineOfPath
    refine ⟨by simp, fun same => ?_, by simp, by simp, by simp⟩
    simp only [Datum.list.injEq, List.cons.injEq, Datum.truth.injEq, and_true, true_and] at same
    obtain ⟨rfl, rfl⟩ := same
    exact shaped.imp_right outlineAll_steps_ne_nil
  exact ⟨part, throughout_text _, throughout_of_not_list (by simp),
    ⟨partShaped_of_lists exists_of_mem_outlineAll_steps, all⟩, trivial⟩

/-- The outline of a filter expression: the path, if there is one, does not begin at the root. -/
theorem partShaped_filter {base : Expr} (noBare : ¬ base.IsBareFilter) {predicates : List Setting} {path : Setting}
    (some : predicates ≠ [] ∨ path ≠ .null)
    (relative : ∀ steps, path ≠ .list [.text "LocationPath", .truth true, .list steps]) :
    PartShaped (.list [.text "PathExpr", base.outline, .list predicates, path]) := by
  refine ⟨by simp, by simp, fun same => ?_, fun same => ?_, fun same _ => ?_⟩
  all_goals
    simp only [Datum.list.injEq, List.cons.injEq, and_true, true_and] at same
    obtain ⟨isBase, rfl, rfl⟩ := same
  · exact .inl (isBase ▸ outline_ne_null base)
  · exact absurd isBase (outline_ne_null base)
  · exact ⟨some, relative, fun inner more bare => noBare (isBareFilter_of_outline (isBase.trans bare))⟩

/-! ### The outline of an expression -/

mutual

/-- **The outline of a shaped expression** is shaped in all its parts. -/
theorem throughout_outline (e : Expr) (everywhere : e.Everywhere Shaped fun _ => True) :
    Throughout PartShaped e.outline := by
  match e with
  | .text value =>
    exact ⟨partShaped_of_head (by decide) _, throughout_text _, throughout_text _, trivial⟩
  | .number value =>
    exact ⟨partShaped_of_head (by decide) _, throughout_text _, throughout_of_not_list (by simp), trivial⟩
  | .negate operand =>
    unfold Everywhere at everywhere
    exact ⟨partShaped_of_head (by decide) _, throughout_text _, throughout_outline operand everywhere.2, trivial⟩
  | .binary operator left right =>
    unfold Everywhere at everywhere
    refine ⟨partShaped_of_head ?_ _, throughout_text _, throughout_outline left everywhere.2.1,
      throughout_outline right everywhere.2.2, trivial⟩
    cases operator <;> simp [Operator.kindName]
  | .path absolute steps =>
    unfold Everywhere at everywhere
    refine ⟨⟨by simp, by simp, fun same => ?_, fun same => ?_, fun same noNull => ?_⟩, throughout_text _,
      throughout_of_not_list (by simp), ⟨partShaped_of_lists (by simp), trivial⟩,
      throughout_outlineOfPath everywhere.1 (allThroughout_steps steps everywhere.2), trivial⟩
    all_goals simp only [Datum.list.injEq, List.cons.injEq, and_true, true_and] at same
    · exact .inr (by rw [← same.2.2]; simp [outlineOfPath])
    · exact same.1.symm
    · exact absurd same.1.symm noNull
  | .filter base predicates steps =>
    unfold Everywhere at everywhere
    obtain ⟨⟨some, noBare⟩, everywhereBase, allPredicates, allSteps⟩ := everywhere
    have inner := throughout_outline base everywhereBase
    have list : Throughout PartShaped (.list (outlineAll predicates)) :=
      ⟨partShaped_of_lists exists_of_mem_outlineAll, allThroughout_outlines predicates allPredicates⟩
    cases steps with
    | nil =>
      have filled := outlineAll_ne_nil (some.resolve_right (by simp))
      exact ⟨partShaped_filter noBare (.inl filled) (by simp), throughout_text _, inner, list,
        throughout_of_not_list (by simp), trivial⟩
    | cons step steps =>
      have path : Throughout PartShaped (outlineOfPath false (Step.outlineAll (step :: steps))) :=
        throughout_outlineOfPath (.inr (List.cons_ne_nil step steps)) (allThroughout_steps _ allSteps)
      exact ⟨partShaped_filter noBare (.inr (by simp [outlineOfPath])) (by simp [outlineOfPath]), throughout_text _,
        inner, list, path, trivial⟩
  | .call function arguments =>
    unfold Everywhere at everywhere
    exact ⟨partShaped_of_head (by decide) _, throughout_text _, throughout_text _,
      ⟨partShaped_of_lists exists_of_mem_outlineAll, allThroughout_outlines arguments everywhere.2⟩, trivial⟩
  | .reference variableName =>
    exact ⟨partShaped_of_head (by decide) _, throughout_text _, throughout_text _, trivial⟩

theorem allThroughout_outlines (es : List Expr) (all : AllEverywhere Shaped (fun _ => True) es) :
    AllThroughout PartShaped (outlineAll es) := by
  match es with
  | [] => trivial
  | e :: es =>
    unfold AllEverywhere at all
    exact ⟨throughout_outline e all.1, allThroughout_outlines es all.2⟩

theorem allThroughout_steps (steps : List Step) (all : Step.AllEverywhere Shaped (fun _ => True) steps) :
    AllThroughout PartShaped (Step.outlineAll steps) := by
  match steps with
  | [] => trivial
  | .mk axis test predicates :: steps =>
    unfold Step.AllEverywhere Step.Everywhere at all
    have part : PartShaped (Step.mk axis test predicates).outline := by
      refine ⟨fun same => ?_, by simp [Step.outline], by simp [Step.outline], by simp [Step.outline],
        by simp [Step.outline]⟩
      simp only [Step.outline, Datum.list.injEq, List.cons.injEq, Datum.text.injEq, and_true, true_and] at same
      rw [← same.1]
      exact List.mem_map_of_mem (by cases axis <;> decide)
    exact ⟨⟨part, throughout_text _, throughout_text _, throughout_test test,
      ⟨partShaped_of_lists exists_of_mem_outlineAll, allThroughout_outlines predicates all.1.2⟩, trivial⟩,
      allThroughout_steps steps all.2⟩

end

/-! ### Every text -/

/-- **The shape of every parsed expression.** Reading a text gives an error of a known kind that is about this text,
or an expression that is shaped in all its parts, and so is its outline. -/
theorem shape_of_read (source : String) :
    match read source with
    | .ok e => e.Everywhere Shaped (fun _ => True) ∧ Throughout PartShaped e.outline
    | .error error => error.expression = source ∧ error.cause.Reported := by
  unfold read
  cases parsed : parse source with
  | ok e =>
    have shaped := (made_of_parse parsed).mono (fun _ => Made.shaped) fun _ _ => trivial
    exact ⟨shaped, throughout_outline e shaped⟩
  | error cause =>
    refine ⟨?_, parse_error_reported parsed⟩
    cases cause <;> rfl

end Expr

end XPathAnnotator
