/-
**The comparison matrix.**

The rules of section 3.4 of XPath 1.0 say by the types of two values what a comparison asks for. A node-set stands
for the string values of its nodes, beside a truth value for the one truth value that it converts to. What the two
sides stand for is compared as truth values, numbers or texts, whichever type comes first on one of the sides, and
for order always as numbers. The comparison holds if it holds for some pair.

* `Stands`, `Meets` — what a value stands for, and the rule for two values that are no node-sets;
* `compare_iff` — a comparison holds by these rules;
* `meets_converse` — both sides are treated alike;
* `compare_matrix` — the rules, their symmetry, and what they see of a node-set.
-/

import Mathlib
import XPathAnnotator.Proofs.Eval.DocumentOrder
import XPathAnnotator.Value.Compare

namespace XPathAnnotator

namespace Comparison

/-- A comparison as a relation between two things of one type with an equality and an order. -/
def Relates {α : Type} [BEq α] [LT α] [LE α] : Comparison → α → α → Prop
  | equal, x, y => (x == y) = true
  | notEqual, x, y => (x != y) = true
  | less, x, y => x < y
  | greater, x, y => x > y
  | lessOrEqual, x, y => x ≤ y
  | greaterOrEqual, x, y => x ≥ y

variable {c : Comparison}

@[simp]
theorem isEquality_converse : c.converse.isEquality = c.isEquality := by
  cases c <;> rfl

/-- Where equality has no direction, a comparison and its converse say the same. -/
theorem relates_converse {α : Type} [BEq α] [LT α] [LE α] (comm : ∀ x y : α, (x == y) = (y == x)) (x y : α) :
    c.Relates x y ↔ c.converse.Relates y x := by
  cases c with
  | equal =>
    show (x == y) = true ↔ (y == x) = true
    rw [comm]
  | notEqual =>
    show (!(x == y)) = true ↔ (!(y == x)) = true
    rw [comm]
  | _ => exact Iff.rfl

theorem numbers_iff (x y : Float) : c.numbers x y = true ↔ c.Relates x y := by
  cases c with
  | equal | notEqual => exact Iff.rfl
  | less | greater | lessOrEqual | greaterOrEqual => exact decide_eq_true_iff

theorem texts_of_equality (equality : c.isEquality = true) (s t : String) :
    c.texts s t = true ↔ c.Relates s t := by
  cases c with
  | equal | notEqual => exact Iff.rfl
  | less | greater | lessOrEqual | greaterOrEqual => exact absurd equality Bool.false_ne_true

theorem truths_of_equality (equality : c.isEquality = true) (p q : Bool) :
    c.truths p q = true ↔ c.Relates p q := by
  cases c with
  | equal | notEqual => exact Iff.rfl
  | less | greater | lessOrEqual | greaterOrEqual => exact absurd equality Bool.false_ne_true

end Comparison

theorem Number.beq_comm (x y : Float) : (x == y) = (y == x) := by
  rw [Bool.eq_iff_iff, Float.beq_iff_ne_nan_and_eq, Float.beq_iff_ne_nan_and_eq]
  tauto

namespace Value

/-- Whether a value is a truth value. -/
def isTruth : Value → Bool
  | truth _ => true
  | _ => false

/-- Whether a value is a number. -/
def isNumber : Value → Bool
  | number _ => true
  | _ => false

/-- What a value stands for in a comparison with another one: a node-set for its truth value beside a truth value,
and otherwise for the string value of any of its nodes; any other value for itself. -/
inductive Stands (f : Forest) : Value → Value → Value → Prop
  | truthOfSet (s : NodeSet) (q : Bool) : Stands f (nodes s) (truth q) (truth (nodes s).toTruth)
  | member {s : NodeSet} {other : Value} (noTruth : other.isTruth = false) {n : Node} (member : s.contains n = true) :
    Stands f (nodes s) other (text (f.stringValue n))
  | self {value : Value} (other : Value) (plain : value.nodes? = none) : Stands f value other value

/-- Two values that are no node-sets meet a comparison: one of equality as truth values if one of them is one, else
as numbers if one of them is one, else as texts; one of order as numbers. -/
def Meets (f : Forest) (c : Comparison) (x y : Value) : Prop :=
  if c.isEquality then
    if x.isTruth || y.isTruth then c.Relates x.toTruth y.toTruth
    else if x.isNumber || y.isNumber then c.Relates (x.toNumber f) (y.toNumber f)
    else c.Relates (x.toText f) (y.toText f)
  else c.Relates (x.toNumber f) (y.toNumber f)

variable {f : Forest} {c : Comparison} {x y left right : Value}

theorem eq_nodes {v : Value} {s : NodeSet} (found : v.nodes? = some s) : v = nodes s := by
  cases v with
  | nodes t => exact congrArg nodes (Option.some.inj found)
  | text | number | truth => exact absurd found.symm (Option.some_ne_none s)

/-! ### Values that are no node-sets -/

theorem meets_of_equality (equality : c.isEquality = true) : Meets f c x y ↔
    if x.isTruth || y.isTruth then c.Relates x.toTruth y.toTruth
    else if x.isNumber || y.isNumber then c.Relates (x.toNumber f) (y.toNumber f)
    else c.Relates (x.toText f) (y.toText f) := by
  unfold Meets
  rw [if_pos equality]

theorem meets_of_order (order : c.isEquality = false) :
    Meets f c x y ↔ c.Relates (x.toNumber f) (y.toNumber f) := by
  unfold Meets
  rw [if_neg (Bool.eq_false_iff.mp order)]

/-- **Both sides are treated alike.** -/
theorem meets_converse : Meets f c x y ↔ Meets f c.converse y x := by
  by_cases equality : c.isEquality = true
  · rw [meets_of_equality equality, meets_of_equality (c.isEquality_converse.trans equality), Bool.or_comm y.isTruth,
      Bool.or_comm y.isNumber]
    split
    · exact Comparison.relates_converse (fun _ _ => Bool.beq_comm) _ _
    · split
      · exact Comparison.relates_converse Number.beq_comm _ _
      · exact Comparison.relates_converse (fun _ _ => BEq.comm) _ _
  · rw [Bool.not_eq_true] at equality
    rw [meets_of_order equality, meets_of_order (c.isEquality_converse.trans equality)]
    exact Comparison.relates_converse Number.beq_comm _ _

/-- Truth values are equal as truth values and ordered as numbers. -/
theorem truths_iff (p q : Bool) : c.truths p q = true ↔ Meets f c (truth p) (truth q) := by
  cases c with
  | equal | notEqual => exact Iff.rfl
  | less | greater | lessOrEqual | greaterOrEqual =>
    rw [meets_of_order rfl, ← Comparison.numbers_iff]
    cases p <;> cases q <;> simp only [toNumber] <;> decide

/-- Texts are compared as such for equality, and by their numbers for order. -/
theorem texts_iff (s t : String) : c.texts s t = true ↔ Meets f c (text s) (text t) := by
  cases c with
  | equal | notEqual => exact Iff.rfl
  | less | greater | lessOrEqual | greaterOrEqual =>
    rw [meets_of_order rfl, ← Comparison.numbers_iff]
    exact Iff.rfl

/-- Beside a number any value but a truth value is a number. -/
theorem meets_number {v : Value} (noTruth : v.isTruth = false) (b : Float) :
    Meets f c v (number b) ↔ c.numbers (v.toNumber f) b = true := by
  have whole : (v.isTruth || (number b).isTruth) = false := by
    rw [noTruth]
    rfl
  rw [Comparison.numbers_iff]
  by_cases equality : c.isEquality = true
  · have numeric : (v.isNumber || (number b).isNumber) = true := Bool.or_true _
    rw [meets_of_equality equality, whole, if_neg Bool.false_ne_true, if_pos numeric]
    exact Iff.rfl
  · rw [Bool.not_eq_true] at equality
    exact meets_of_order equality

theorem compareSimple_iff (plainLeft : left.nodes? = none) (plainRight : right.nodes? = none) :
    left.compareSimple f c right = true ↔ Meets f c left right := by
  by_cases equality : c.isEquality = true
  · have truths := Comparison.truths_of_equality equality
    rw [meets_of_equality equality]
    unfold compareSimple
    rw [if_neg (by simp [equality])]
    cases left with
    | nodes s => exact absurd plainLeft (Option.some_ne_none s)
    | truth p => exact truths _ _
    | number a =>
      cases right with
      | nodes t => exact absurd plainRight (Option.some_ne_none t)
      | truth q => exact truths _ _
      | number b | text t => exact Comparison.numbers_iff _ _
    | text s =>
      cases right with
      | nodes t => exact absurd plainRight (Option.some_ne_none t)
      | truth q => exact truths _ _
      | number b => exact Comparison.numbers_iff _ _
      | text t => exact Comparison.texts_of_equality equality _ _
  · rw [Bool.not_eq_true] at equality
    unfold compareSimple
    rw [meets_of_order equality, if_pos (by simp [equality]), Comparison.numbers_iff]

/-! ### What values stand for -/

theorem stands_plain (plain : left.nodes? = none) : Stands f left right x ↔ x = left := by
  constructor
  · intro stands
    cases stands with
    | truthOfSet s q | member noTruth member => exact absurd plain (Option.some_ne_none _)
    | self other plain => rfl
  · rintro rfl
    exact .self right plain

theorem stands_truth {s : NodeSet} {q : Bool} :
    Stands f (nodes s) (truth q) x ↔ x = truth (nodes s).toTruth := by
  constructor
  · intro stands
    cases stands with
    | truthOfSet s q => rfl
    | member noTruth member => exact absurd noTruth.symm Bool.false_ne_true
    | self other plain => exact absurd plain (Option.some_ne_none _)
  · rintro rfl
    exact .truthOfSet s q

theorem stands_member {s : NodeSet} (noTruth : right.isTruth = false) :
    Stands f (nodes s) right x ↔ ∃ u ∈ s.stringValues f, x = text u := by
  unfold NodeSet.stringValues
  constructor
  · intro stands
    cases stands with
    | truthOfSet s q => exact absurd noTruth.symm Bool.false_ne_true
    | member noTruth member => exact ⟨_, List.mem_map_of_mem ((NodeSet.contains_iff s _).mp member), rfl⟩
    | self other plain => exact absurd plain (Option.some_ne_none _)
  · rintro ⟨u, listed, rfl⟩
    obtain ⟨n, member, rfl⟩ := List.mem_map.mp listed
    exact .member noTruth ((NodeSet.contains_iff s n).mpr member)

/-- What holds for something that a node-set stands for holds for one of its string values. -/
theorem exists_stands_member {s : NodeSet} (noTruth : right.isTruth = false) {P : Value → Prop} :
    (∃ x, Stands f (nodes s) right x ∧ P x) ↔ ∃ u ∈ s.stringValues f, P (text u) := by
  constructor
  · rintro ⟨x, stands, holds⟩
    obtain ⟨u, listed, rfl⟩ := (stands_member noTruth).mp stands
    exact ⟨u, listed, holds⟩
  · rintro ⟨u, listed, holds⟩
    exact ⟨text u, (stands_member noTruth).mpr ⟨u, listed, rfl⟩, holds⟩

theorem exists_stands_plain (plain : left.nodes? = none) {P : Value → Prop} :
    (∃ x, Stands f left right x ∧ P x) ↔ P left := by
  constructor
  · rintro ⟨x, stands, holds⟩
    obtain rfl := (stands_plain plain).mp stands
    exact holds
  · exact fun holds => ⟨left, .self right plain, holds⟩

/-! ### The matrix -/

theorem compareNodes_iff {s : NodeSet} (plain : right.nodes? = none) :
    compareNodes f c s right = true ↔ ∃ x, Stands f (nodes s) right x ∧ Meets f c x right := by
  cases right with
  | nodes t => exact absurd plain (Option.some_ne_none t)
  | truth q =>
    simp only [stands_truth, exists_eq_left]
    exact truths_iff _ _
  | number b =>
    rw [compareNodes, List.any_eq_true]
    refine Iff.trans ?_ (exists_stands_member rfl).symm
    exact exists_congr fun u => and_congr_right fun _ => (meets_number (v := text u) rfl b).symm
  | text t =>
    show ((s.stringValues f).any fun u => c.texts u t) = true ↔ _
    rw [List.any_eq_true]
    refine Iff.trans ?_ (exists_stands_member rfl).symm
    exact exists_congr fun u => and_congr_right fun _ => texts_iff u t

theorem compare_nodes {s t : NodeSet} : (nodes s).compare f c (nodes t) = true ↔
    ∃ x, Stands f (nodes s) (nodes t) x ∧ ∃ y, Stands f (nodes t) (nodes s) y ∧ Meets f c x y := by
  rw [compare, List.any_eq_true]
  refine Iff.trans ?_ (exists_stands_member rfl).symm
  refine exists_congr fun u => and_congr_right fun _ => ?_
  rw [List.any_eq_true]
  refine Iff.trans ?_ (exists_stands_member rfl).symm
  exact exists_congr fun v => and_congr_right fun _ => texts_iff u v

theorem compare_left {s : NodeSet} (plain : right.nodes? = none) :
    (nodes s).compare f c right = compareNodes f c s right := by
  cases right with
  | nodes t => exact absurd plain (Option.some_ne_none t)
  | text | number | truth => rfl

theorem compare_right {t : NodeSet} (plain : left.nodes? = none) :
    left.compare f c (nodes t) = compareNodes f c.converse t left := by
  cases left with
  | nodes s => exact absurd plain (Option.some_ne_none s)
  | text | number | truth => rfl

theorem compare_plain (plainLeft : left.nodes? = none) (plainRight : right.nodes? = none) :
    left.compare f c right = left.compareSimple f c right := by
  cases left with
  | nodes s => exact absurd plainLeft (Option.some_ne_none s)
  | text | number | truth =>
    cases right with
    | nodes t => exact absurd plainRight (Option.some_ne_none t)
    | text | number | truth => rfl

/-- **A comparison holds** if it holds for some pair of what its sides stand for. -/
theorem compare_iff : left.compare f c right = true ↔
    ∃ x, Stands f left right x ∧ ∃ y, Stands f right left y ∧ Meets f c x y := by
  cases setLeft : left.nodes? with
  | some s =>
    obtain rfl := eq_nodes setLeft
    cases setRight : right.nodes? with
    | some t =>
      obtain rfl := eq_nodes setRight
      exact compare_nodes
    | none =>
      rw [compare_left setRight, compareNodes_iff setRight]
      exact exists_congr fun x => and_congr_right fun _ => (exists_stands_plain setRight).symm
  | none =>
    rw [exists_stands_plain setLeft]
    cases setRight : right.nodes? with
    | some t =>
      obtain rfl := eq_nodes setRight
      rw [compare_right setLeft, compareNodes_iff setLeft]
      exact exists_congr fun y => and_congr_right fun _ => meets_converse.symm
    | none => rw [exists_stands_plain setRight, compare_plain setLeft setRight, compareSimple_iff setLeft setRight]

/-- **Comparing the other way round** is comparing by the converse. -/
theorem compare_converse : left.compare f c right = right.compare f c.converse left := by
  rw [Bool.eq_iff_iff, compare_iff, compare_iff]
  constructor
  · rintro ⟨x, standsX, y, standsY, meets⟩
    exact ⟨y, standsY, x, standsX, meets_converse.mp meets⟩
  · rintro ⟨y, standsY, x, standsX, meets⟩
    exact ⟨x, standsX, y, standsY, meets_converse.mpr meets⟩

section Members

variable {s t : NodeSet} (same : ∀ u, u ∈ s.stringValues f ↔ u ∈ t.stringValues f)

include same

theorem toTruth_congr : (nodes s).toTruth = (nodes t).toTruth := by
  have empty : ∀ {r : NodeSet}, (nodes r).toTruth = true ↔ ∃ u, u ∈ r.stringValues f := by
    intro r
    rw [← List.length_pos_iff_exists_mem, NodeSet.stringValues, List.length_map, toTruth, bne_iff_ne]
    exact Nat.pos_iff_ne_zero.symm
  rw [Bool.eq_iff_iff, empty, empty]
  exact exists_congr same

/-- A node-set stands for what its string values tell. -/
theorem stands_congr : Stands f (nodes s) right x ↔ Stands f (nodes t) right x := by
  cases truthRight : right.isTruth with
  | false =>
    rw [stands_member truthRight, stands_member truthRight]
    exact exists_congr fun u => and_congr_left fun _ => same u
  | true =>
    cases right with
    | truth q => rw [stands_truth, stands_truth, toTruth_congr same]
    | nodes | text | number => exact absurd truthRight Bool.false_ne_true

omit same in
theorem stands_beside_congr : Stands f left (nodes s) x ↔ Stands f left (nodes t) x := by
  cases setLeft : left.nodes? with
  | some r =>
    obtain rfl := eq_nodes setLeft
    rw [stands_member rfl, stands_member rfl]
  | none => rw [stands_plain setLeft, stands_plain setLeft]

/-- **Node-sets with the same string values** compare alike. -/
theorem compare_congr : (nodes s).compare f c right = (nodes t).compare f c right := by
  rw [Bool.eq_iff_iff, compare_iff, compare_iff]
  refine exists_congr fun x => and_congr (stands_congr same) ?_
  exact exists_congr fun y => and_congr_left fun _ => stands_beside_congr

end Members

/-- **The comparison matrix.** A comparison of two values holds if it holds for a pair of what the two stand for,
it is the converse comparison of the sides exchanged, and of a node-set it sees the string values alone. -/
theorem compare_matrix (f : Forest) (c : Comparison) (left right : Value) :
    (left.compare f c right = true ↔
      ∃ x, Stands f left right x ∧ ∃ y, Stands f right left y ∧ Meets f c x y) ∧
    left.compare f c right = right.compare f c.converse left ∧
    ∀ s t : NodeSet, (∀ u, u ∈ s.stringValues f ↔ u ∈ t.stringValues f) →
      (nodes s).compare f c right = (nodes t).compare f c right ∧
      left.compare f c (nodes s) = left.compare f c (nodes t) := by
  refine ⟨compare_iff, compare_converse, fun s t same => ⟨compare_congr same, ?_⟩⟩
  rw [compare_converse, compare_congr same, ← compare_converse]

/-- The document of the note and its root element have one string value, so no number tells them apart. -/
theorem compare_matrix_note :
    (∀ u, u ∈ (NodeSet.ofList [.item 0]).stringValues noteForest ↔
      u ∈ (NodeSet.ofList [.item 1]).stringValues noteForest) ∧
    (nodes (.ofList [.item 0])).compare noteForest .less (number 1) =
      (nodes (.ofList [.item 1])).compare noteForest .less (number 1) := by
  have one : (NodeSet.ofList [.item 0]).stringValues noteForest =
      (NodeSet.ofList [.item 1]).stringValues noteForest := by decide +kernel
  have same := fun u : String => iff_of_eq (congrArg (u ∈ ·) one)
  exact ⟨same, ((compare_matrix noteForest .less (number 1) (number 1)).2.2 _ _ same).1⟩

end Value

end XPathAnnotator
