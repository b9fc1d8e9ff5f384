/-
**What is found for the items of a report.**

An item has the level of the first condition that holds on it. If it is shown, its message and its properties are
evaluated, and the finding is made of them; if it is passed over, nothing else of the matcher is looked at. So the
findings of a report are told by those of its items, one after the other, as long as no expression fails on one of
them.

* `itemAt`, `valueOn_eq` — nodes of a report as items, and the values of expressions on them;
* `holdsOn`, `levelFor` — the conditions that hold on an item, and its level;
* `gives_levelOf`, `exists_gives_findingOf`, `gives_findingOf_ignored` — the level of an item, and what is found for it;
* `exists_gives_findingsOf`, `exists_findings_of_items` — the findings of several items and of a report;
* `fails_findingOf_of_noMessage`, `fails_findingOf_of_message`, `fails_findingsOf` — items for which nothing can be
  found.
-/

import Mathlib
import XPathAnnotator.Proofs.Report.Certainty
import XPathAnnotator.Proofs.Workflow.Notes
import XPathAnnotator.Report.Extract

namespace XPathAnnotator.Report

open XPathAnnotator.Workflow

/-- A node of a report with the functions for matchers. -/
def itemAt (f : Forest) (n : Node) : ReportItem := ⟨f, some n, ReportFunction.table⟩

variable {f : Forest} {n : Node} {m : Matcher} {item : ReportItem}

/-! ### Values -/

theorem node_start (n : Node) : (Focus.start (some n)).node = some n := rfl

theorem valueOn_eq {source : String} {e : Expr} {x : Value} (read : readQuery source = .ok e)
    (value : e.evalIn (ReportItem.environment f ReportFunction.table) (Focus.start (some n)) = .ok x) :
    valueOn (itemAt f n) source = .ok x := by
  rw [valueOn, read]
  change ((itemAt f n).evaluate e).mapError _ = _
  rw [ReportItem.evaluate, itemAt, value]
  rfl

/-! ### Levels -/

/-- Whether a condition holds on an item. One without a value does not. -/
def holdsOn (item : ReportItem) (condition : String) : Bool :=
  match valueOn item condition with
  | .ok x => x.toTruth
  | .error _ => false

/-- The level of the first condition that holds on an item. Without one the item is shown as an error. -/
def levelFor (item : ReportItem) (levels : List (ItemLevel × String)) : ItemLevel :=
  ((levels.find? fun entry => holdsOn item entry.2).map Prod.fst).getD (.shown .error)

/-- The first condition whose value holds gives the level. -/
theorem gives_levelOf_cons {level outcome : ItemLevel} {condition : String} {rest : List (ItemLevel × String)}
    {x : Value} (value : valueOn item condition = .ok x)
    (chosen : (if x.toTruth then pure level else levelOf item rest).Gives outcome) :
    (levelOf item ((level, condition) :: rest)).Gives outcome := by
  rw [levelOf]
  exact (Work.gives_liftM value).bind ((Work.gives_log _ _).bind chosen)

/-- **The level of an item** on which all conditions have values. -/
theorem gives_levelOf {levels : List (ItemLevel × String)}
    (fine : ∀ entry ∈ levels, ∃ x, valueOn item entry.2 = .ok x) :
    (levelOf item levels).Gives (levelFor item levels) := by
  induction levels with
  | nil => exact Work.gives_pure _
  | cons entry levels ih =>
    obtain ⟨level, condition⟩ := entry
    obtain ⟨⟨x, value⟩, later⟩ := List.forall_mem_cons.mp fine
    have tried : holdsOn item condition = x.toTruth := by
      change valueOn item condition = .ok x at value
      rw [holdsOn, value]
    refine gives_levelOf_cons value ?_
    rw [levelFor, List.find?_cons, tried]
    cases x.toTruth with
    | true => exact Work.gives_pure _
    | false => exact ih later

/-! ### Findings of an item -/

theorem exists_propertyOf {p : Property}
    (fine : ∀ source, m.expressionOf p = some source → source ≠ "" → ∃ x, valueOn item source = .ok x) :
    ∃ given, propertyOf item m p = .ok given := by
  unfold propertyOf
  split
  · exact ⟨none, rfl⟩
  · exact ⟨none, rfl⟩
  next source nonempty given =>
    obtain ⟨x, value⟩ := fine source given nonempty
    rw [value]
    cases p.isNumber with
    | true => exact ⟨_, rfl⟩
    | false => exact ⟨_, rfl⟩

theorem exists_mapM {ε α β : Type} {each : α → Except ε β} (items : List α) (fine : ∀ a, ∃ b, each a = .ok b) :
    ∃ bs, items.mapM each = .ok bs := by
  induction items with
  | nil => exact ⟨[], rfl⟩
  | cons a items ih =>
    obtain ⟨b, first⟩ := fine a
    obtain ⟨bs, rest⟩ := ih
    refine ⟨b :: bs, ?_⟩
    rw [List.mapM_cons, first, rest]
    rfl

/-- **What is found for an item that is shown**, if its message and its properties have values. -/
theorem exists_gives_findingOf {severity : Severity} (level : (levelOf item m.levels).Gives (.shown severity))
    {source : String} (given : m.message = some source) {x : Value} (message : valueOn item source = .ok x)
    (properties : ∀ p source, m.expressionOf p = some source → source ≠ "" → ∃ x, valueOn item source = .ok x) :
    ∃ a, (findingOf item m).Gives (some a) ∧ a.severity = severity ∧ a.message = x.toText item.forest := by
  obtain ⟨found, each⟩ := exists_mapM Property.all fun p => exists_propertyOf (properties p)
  refine ⟨⟨severity, x.toText item.forest, found.filterMap id⟩, ?_, rfl, rfl⟩
  rw [findingOf]
  refine level.bind ?_
  rw [given]
  exact (Work.gives_liftM message).bind ((Work.gives_liftM each).bind (Work.gives_pure _))

/-- Nothing is found for an item that is passed over. -/
theorem gives_findingOf_ignored (level : (levelOf item m.levels).Gives .ignored) : (findingOf item m).Gives none := by
  rw [findingOf]
  exact level.bind ((Work.gives_log _ _).bind (Work.gives_pure _))

/-- Nothing can be found for an item that is shown by a matcher without a message. -/
theorem fails_findingOf_of_noMessage {severity : Severity} (level : (levelOf item m.levels).Gives (.shown severity))
    (missing : m.message = none) : (findingOf item m).Fails .noMessage := by
  rw [findingOf]
  refine level.bind_fails ?_
  rw [missing]
  exact Work.fails_throw _

/-- Neither can it if the message has no value. -/
theorem fails_findingOf_of_message {severity : Severity} (level : (levelOf item m.levels).Gives (.shown severity))
    {source : String} (given : m.message = some source) {e : ReportError} (broken : valueOn item source = .error e) :
    (findingOf item m).Fails e := by
  rw [findingOf]
  refine level.bind_fails ?_
  rw [given]
  exact (Work.fails_liftM broken).bind

/-! ### Findings of several items -/

/-- **What is found for items**: one finding for each of them that is shown. -/
theorem exists_gives_findingsOf {shows : Node → Bool} {R : Node → Finding → Prop} {nodes : List Node}
    (shown : ∀ n ∈ nodes, shows n = true → ∃ a, (findingOf (itemAt f n) m).Gives (some a) ∧ R n a)
    (ignored : ∀ n ∈ nodes, shows n = false → (findingOf (itemAt f n) m).Gives none) :
    ∃ found, (findingsOf f m nodes).Gives found ∧
      List.Forall₂ (fun n a => (findingOf (itemAt f n) m).Gives (some a) ∧ R n a) (nodes.filter shows) found := by
  induction nodes with
  | nil => exact ⟨[], Work.gives_pure [], .nil⟩
  | cons n nodes ih =>
    obtain ⟨shownHere, shownLater⟩ := List.forall_mem_cons.mp shown
    obtain ⟨ignoredHere, ignoredLater⟩ := List.forall_mem_cons.mp ignored
    obtain ⟨found, rest, each⟩ := ih shownLater ignoredLater
    rw [findingsOf]
    cases here : shows n with
    | false =>
      have none := ignoredHere here
      refine ⟨found, (Work.gives_log _ _).bind (none.bind (rest.bind (Work.gives_pure _))), ?_⟩
      rw [List.filter_cons_of_neg (Bool.not_eq_true _ ▸ here)]
      exact each
    | true =>
      obtain ⟨a, some, holds⟩ := shownHere here
      refine ⟨a :: found, (Work.gives_log _ _).bind (some.bind (rest.bind (Work.gives_pure _))), ?_⟩
      rw [List.filter_cons_of_pos here]
      exact .cons ⟨some, holds⟩ each

/-- If nothing can be found for the items that are shown, nothing is found at all as soon as there is one. -/
theorem fails_findingsOf {shows : Node → Bool} {e : ReportError} {nodes : List Node}
    (shown : ∀ n ∈ nodes, shows n = true → (findingOf (itemAt f n) m).Fails e)
    (ignored : ∀ n ∈ nodes, shows n = false → (findingOf (itemAt f n) m).Gives none)
    (some : ∃ n ∈ nodes, shows n = true) : (findingsOf f m nodes).Fails e := by
  induction nodes with
  | nil =>
    obtain ⟨n, met, -⟩ := some
    exact absurd met List.not_mem_nil
  | cons n nodes ih =>
    obtain ⟨shownHere, shownLater⟩ := List.forall_mem_cons.mp shown
    obtain ⟨ignoredHere, ignoredLater⟩ := List.forall_mem_cons.mp ignored
    rw [findingsOf]
    refine (Work.gives_log _ _).bind_fails ?_
    cases here : shows n with
    | true => exact (shownHere here).bind
    | false =>
      have later : ∃ n ∈ nodes, shows n = true := by
        obtain ⟨k, met, shownK⟩ := some
        rcases List.mem_cons.mp met with rfl | inRest
        · exact absurd (here.symm.trans shownK) Bool.false_ne_true
        · exact ⟨k, inRest, shownK⟩
      exact (ignoredHere here).bind_fails (ih shownLater ignoredLater later).bind

/-! ### Findings of a report -/

section Reports

variable {path : String} {r r' : Runner} {root : Node} {set : NodeSet}

/-- A report whose items are looked at. -/
theorem findings_of_items (accepted : treeOf path r = (.ok (f, root), r'))
    (items : valueOn (itemAt f root) m.item = .ok (.nodes set)) :
    ∃ s, findings path m r = findingsOf f m (set.toList f) s := by
  rw [findings, Work.bind_ok accepted]
  obtain ⟨s, first⟩ := Work.gives_liftM items r'
  exact ⟨_, (Work.bind_ok first).trans (Work.bind_ok rfl)⟩

/-- **What is found in a report**: one finding for each of its items that is shown. -/
theorem exists_findings_of_items (accepted : treeOf path r = (.ok (f, root), r'))
    (items : valueOn (itemAt f root) m.item = .ok (.nodes set)) {shows : Node → Bool} {R : Node → Finding → Prop}
    (shown : ∀ n ∈ set.toList f, shows n = true → ∃ a, (findingOf (itemAt f n) m).Gives (some a) ∧ R n a)
    (ignored : ∀ n ∈ set.toList f, shows n = false → (findingOf (itemAt f n) m).Gives none) :
    ∃ found r'', findings path m r = (.ok found, r'') ∧
      List.Forall₂ (fun n a => (findingOf (itemAt f n) m).Gives (some a) ∧ R n a) ((set.toList f).filter shows)
        found := by
  obtain ⟨s, same⟩ := findings_of_items accepted items
  obtain ⟨found, gives, each⟩ := exists_gives_findingsOf shown ignored
  obtain ⟨r'', result⟩ := gives s
  exact ⟨found, r'', same.trans result, each⟩

end Reports

end XPathAnnotator.Report
