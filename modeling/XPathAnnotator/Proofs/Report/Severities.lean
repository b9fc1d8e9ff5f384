/-
**The gravest findings first.**

Findings are sorted by how severe they are, and those of one severity keep their order. So the sorted list is told by
its parts: all errors, then all warnings, then all notices.

* `Finding.gravestFirst` — the findings severity by severity;
* `bySeverity_eq` — the sorted list is this one;
* `rank_le_of_take_drop` — none of the findings that a limit leaves out is graver than one that it keeps;
* `Tally.ofList_eq`, `Tally.total_ofList` — what a tally counts.
-/

import Mathlib
import XPathAnnotator.Run.Annotate

namespace XPathAnnotator

namespace Report

namespace Finding

/-- Findings severity by severity, the gravest first. -/
def gravestFirst (findings : List Finding) : List Finding :=
  Severity.all.flatMap fun s => findings.filter fun a => a.severity = s

/-- Whether findings stand in the order of their severities. -/
def Ranked (findings : List Finding) : Prop := findings.Pairwise fun a b => a.severity.rank ≤ b.severity.rank

theorem rank_trans (a b c : Finding) (first : decide (a.severity.rank ≤ b.severity.rank) = true)
    (second : decide (b.severity.rank ≤ c.severity.rank) = true) :
    decide (a.severity.rank ≤ c.severity.rank) = true :=
  decide_eq_true ((of_decide_eq_true first).trans (of_decide_eq_true second))

theorem rank_total (a b : Finding) :
    (decide (a.severity.rank ≤ b.severity.rank) || decide (b.severity.rank ≤ a.severity.rank)) = true := by
  rw [Bool.or_eq_true, decide_eq_true_eq, decide_eq_true_eq]
  exact le_total _ _

theorem ranked_bySeverity (findings : List Finding) : Ranked (bySeverity findings) :=
  (List.pairwise_mergeSort rank_trans rank_total findings).imp of_decide_eq_true

/-- Sorting keeps the order of the findings of one severity. -/
theorem filter_bySeverity (findings : List Finding) (s : Severity) :
    ((bySeverity findings).filter fun a => a.severity = s) = findings.filter fun a => a.severity = s := by
  have flat : (findings.filter fun a => a.severity = s).Pairwise
      fun a b => decide (a.severity.rank ≤ b.severity.rank) = true := by
    refine List.pairwise_of_forall_mem_list fun a metA b metB => ?_
    rw [of_decide_eq_true (List.mem_filter.mp metA).2, of_decide_eq_true (List.mem_filter.mp metB).2]
    exact decide_eq_true (le_refl _)
  have kept : (findings.filter fun a => a.severity = s).Sublist (bySeverity findings) :=
    List.sublist_mergeSort rank_trans rank_total flat List.filter_sublist
  have inside := kept.filter fun a => a.severity = s
  rw [List.filter_filter] at inside
  simp only [Bool.and_self] at inside
  have perm : (bySeverity findings).Perm findings := List.mergeSort_perm findings _
  exact (inside.eq_of_length (perm.filter _).length_eq.symm).symm

/-- Ranked findings are told by the findings of each severity. -/
theorem Ranked.eq_gravestFirst {findings : List Finding} (ranked : Ranked findings) :
    findings = gravestFirst findings := by
  induction findings with
  | nil => rfl
  | cons a findings ih =>
    obtain ⟨least, ranked⟩ := List.pairwise_cons.mp ranked
    have rest := ih ranked
    have absent : ∀ s : Severity, s.rank < a.severity.rank → (findings.filter fun b => b.severity = s) = [] := by
      intro s less
      refine List.filter_eq_nil_iff.mpr fun b met same => ?_
      have le := least b met
      rw [of_decide_eq_true same] at le
      exact absurd less (Nat.not_lt_of_le le)
    -- the graver parts of the rest are empty, so the first finding may stand before them
    simp only [gravestFirst, Severity.all, List.flatMap_cons, List.flatMap_nil, List.append_nil, List.filter_cons]
      at rest ⊢
    rw [congrArg (a :: ·) rest]
    cases severity : a.severity with
    | error => rfl
    | warning =>
      rw [severity] at absent
      rw [absent .error (by decide)]
      rfl
    | notice =>
      rw [severity] at absent
      rw [absent .error (by decide), absent .warning (by decide)]
      rfl

/-- **Sorting puts the gravest findings first** and keeps the order of those of one severity. -/
theorem bySeverity_eq (findings : List Finding) : bySeverity findings = gravestFirst findings := by
  refine (ranked_bySeverity findings).eq_gravestFirst.trans ?_
  unfold gravestFirst
  simp only [filter_bySeverity]

/-- None of the findings that a limit leaves out is graver than one that it keeps. -/
theorem rank_le_of_take_drop (findings : List Finding) (limit : Nat) {a b : Finding}
    (kept : a ∈ (gravestFirst findings).take limit) (left : b ∈ (gravestFirst findings).drop limit) :
    a.severity.rank ≤ b.severity.rank := by
  have ranked : Ranked (gravestFirst findings) := bySeverity_eq findings ▸ ranked_bySeverity findings
  rw [Ranked, ← List.take_append_drop limit (gravestFirst findings)] at ranked
  exact (List.pairwise_append.mp ranked).2.2 a kept b left

theorem length_gravestFirst (findings : List Finding) : (gravestFirst findings).length = findings.length := by
  rw [← bySeverity_eq]
  exact (List.mergeSort_perm findings _).length_eq

end Finding

end Report

/-! ### Tallies -/

namespace Tally

open XPathAnnotator.Report

theorem foldl_count (t : Tally) (findings : List Finding) :
    findings.foldl (fun t a => t.count a.severity) t =
      ⟨t.errors + findings.countP (·.severity = .error), t.warnings + findings.countP (·.severity = .warning),
        t.notices + findings.countP (·.severity = .notice)⟩ := by
  induction findings generalizing t with
  | nil => rfl
  | cons a findings ih =>
    rw [List.foldl_cons, ih]
    cases severity : a.severity <;> simp [count, severity, Nat.add_assoc, Nat.add_comm 1]

/-- A tally counts the findings of each severity. -/
theorem ofList_eq (findings : List Finding) : ofList findings =
    ⟨findings.countP (·.severity = .error), findings.countP (·.severity = .warning),
      findings.countP (·.severity = .notice)⟩ := by
  rw [ofList, foldl_count]
  simp

/-- All in all it counts each of them. -/
theorem total_ofList (findings : List Finding) : (ofList findings).total = findings.length := by
  rw [ofList_eq, total]
  induction findings with
  | nil => rfl
  | cons a findings ih =>
    rw [List.length_cons, ← ih]
    cases severity : a.severity <;> simp [severity] <;> omega

end Tally

end XPathAnnotator
