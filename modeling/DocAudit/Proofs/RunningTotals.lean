/-
The counters of a run, at every moment of it.

Outcomes are counted one after the other, from nothing. Four counters go
up together, and what holds between them holds of all four at once
(`Consistent`): no more files have findings than were processed, nor than
there are findings, and one of the two is zero exactly if the other is.
One more outcome keeps this (`Consistent.count`), so every run has it.

The percentage is a quotient rounded down. It is told by two bounds
(`percent_eq_iff`), and all else about it follows from these: between
consistent counters it lies from 0 to 100, and it is 100 only if nothing
is lost in rounding, that is, if no file is without findings.

# The order of counting

Two outcomes may change places (`count_comm`), whatever has been counted
before them. So the order in which outcomes arrive, from one recorder or
from several, leaves no trace in the totals, nor in what is made of them.
-/
import DocAudit.Proofs.Tallying

namespace DocAudit.Totals

variable {t : Totals}

-- ========================================================= consistency

/-- What holds between the counters of a run. -/
structure Consistent (t : Totals) : Prop where
  flagged_nonneg : 0 ≤ t.flagged
  flagged_le_processed : t.flagged ≤ t.processed
  flagged_le_findings : t.flagged ≤ t.findings
  /-- A file has findings exactly if there are any. -/
  flagged_eq_zero_iff : t.flagged = 0 ↔ t.findings = 0

theorem Consistent.countFile (h : t.Consistent) (n : Nat) : (t.countFile n).Consistent := by
  obtain ⟨hnonneg, hprocessed, hfindings, hzero⟩ := h
  by_cases hn : n = 0
  · -- a file without findings is one more of those processed only
    have hflagged : (t.countFile n).flagged = t.flagged := if_pos hn
    have hsame : (t.countFile n).findings = t.findings := by
      show t.findings + (n : Int) = t.findings
      omega
    have hmore : (t.countFile n).processed = t.processed + 1 := rfl
    constructor
    case flagged_nonneg => omega
    case flagged_le_processed => omega
    case flagged_le_findings => omega
    case flagged_eq_zero_iff => rw [hflagged, hsame, hzero]
  · have hflagged : (t.countFile n).flagged = t.flagged + 1 := if_neg hn
    have hfound : (t.countFile n).findings = t.findings + n := rfl
    have hmore : (t.countFile n).processed = t.processed + 1 := rfl
    constructor <;> omega

theorem Consistent.countUnreadable (h : t.Consistent) : t.countUnreadable.Consistent :=
  ⟨h.flagged_nonneg, h.flagged_le_processed, h.flagged_le_findings, h.flagged_eq_zero_iff⟩

/-- One outcome more keeps the counters consistent. -/
theorem Consistent.count (h : t.Consistent) (o : Outcome) : (t.count o).Consistent := by
  cases o with
  | scanned report => exact h.countFile report.diagnostics.length
  | unreadable u => exact h.countUnreadable

theorem Consistent.foldl_count (h : t.Consistent) (outcomes : List Outcome) :
    (outcomes.foldl Totals.count t).Consistent := by
  induction outcomes generalizing t with
  | nil => exact h
  | cons o rest ih => exact ih (h.count o)

-- ========================================================== percentage

/-- The percentage, told by what it does not exceed and what exceeds it. -/
theorem percent_eq_iff (hprocessed : 0 < t.processed) (k : Int) :
    t.percent = k
      ↔ k * t.processed ≤ 100 * t.flagged ∧ 100 * t.flagged < (k + 1) * t.processed := by
  unfold percent
  rw [if_neg (by omega), Int.fdiv_eq_ediv_of_nonneg _ (by omega),
    Int.ediv_eq_iff_of_pos hprocessed, Int.add_mul, Int.one_mul]

theorem percent_of_none (hprocessed : t.processed = 0) : t.percent = 0 :=
  if_pos hprocessed

namespace Consistent

theorem percent_bounds (h : t.Consistent) : 0 ≤ t.percent ∧ t.percent ≤ 100 := by
  have hnonneg := h.flagged_nonneg
  have hle := h.flagged_le_processed
  by_cases hnone : t.processed = 0
  · rw [percent_of_none hnone]
    decide
  · have hpos : 0 < t.processed := by omega
    obtain ⟨hlow, hhigh⟩ := (percent_eq_iff hpos t.percent).1 rfl
    constructor
    · -- a negative percentage would leave a negative number of files above it
      by_contra hneg
      have hzero : (t.percent + 1) * t.processed ≤ 0 :=
        Int.mul_nonpos_of_nonpos_of_nonneg (by omega) (by omega)
      omega
    · by_contra hover
      have hmore : 101 * t.processed ≤ t.percent * t.processed :=
        Int.mul_le_mul_of_nonneg_right (by omega) (by omega)
      omega

/-- All of it is every file, and at least one. -/
theorem percent_eq_hundred_iff (h : t.Consistent) :
    t.percent = 100 ↔ 0 < t.processed ∧ t.flagged = t.processed := by
  have hnonneg := h.flagged_nonneg
  have hle := h.flagged_le_processed
  by_cases hnone : t.processed = 0
  · rw [percent_of_none hnone]
    omega
  · have hpos : 0 < t.processed := by omega
    rw [percent_eq_iff hpos]
    omega

end Consistent

-- =============================================================== order

/-- Two outcomes may be counted in either order. -/
theorem count_comm (t : Totals) (o o' : Outcome) :
    (t.count o).count o' = (t.count o').count o := by
  cases o with
  | scanned report =>
      cases o' with
      | scanned report' =>
          simp only [count, countFile, mk.injEq, true_and, and_true]
          refine ⟨?_, by omega⟩
          split <;> split <;> omega
      | unreadable u => rfl
  | unreadable u =>
      cases o' with
      | scanned report => rfl
      | unreadable u' => rfl

theorem foldl_count_perm {outcomes others : List Outcome} (h : outcomes.Perm others)
    (t : Totals) : outcomes.foldl count t = others.foldl count t :=
  h.foldl_eq' (fun o _ o' _ t => count_comm t o o') t

-- ============================================================ the run

/-- The totals once outcomes have been counted in turn, from nothing. -/
def after (outcomes : List Outcome) : Totals :=
  outcomes.foldl count {}

theorem after_eq_ofOutcomes (outcomes : List Outcome) : after outcomes = ofOutcomes outcomes := by
  rw [after, Totals.foldl_count]
  simp

theorem consistent_after (outcomes : List Outcome) : (after outcomes).Consistent :=
  Consistent.foldl_count (t := {}) ⟨by decide, by decide, by decide, by decide⟩ outcomes

/-- There is a file with findings exactly if there is a finding. -/
theorem flagged_pos_iff (outcomes : List Outcome) :
    0 < (ofOutcomes outcomes).flagged ↔ 0 < (ofOutcomes outcomes).findings := by
  obtain ⟨hnonneg, -, hle, hzero⟩ := consistent_after outcomes
  rw [after_eq_ofOutcomes] at hnonneg hle hzero
  omega

/-- No file is left out exactly if every report has findings. -/
theorem flagged_eq_processed_iff (outcomes : List Outcome) :
    (after outcomes).flagged = (after outcomes).processed
      ↔ ∀ report, .scanned report ∈ outcomes → report.hasFindings = true := by
  rw [after_eq_ofOutcomes]
  show ((_ : Nat) : Int) = ((_ : Nat) : Int) ↔ _
  rw [Int.ofNat_inj, List.countP_eq_length]
  constructor
  · intro hall report hreport
    exact hall report (Outcome.mem_reports.2 hreport)
  · intro hall report hreport
    exact hall report (Outcome.mem_reports.1 hreport)

/-- After any outcomes, the counters are those of the outcomes and are
consistent, and the percentage is the share of files with findings,
rounded down: 100 only if there are files and all of them have findings.
And in whatever order the outcomes are counted, the totals, the percentage
and the line that ends the run are the same. -/
theorem consistent_in_any_order (outcomes : List Outcome) :
    after outcomes = ofOutcomes outcomes
    ∧ (after outcomes).Consistent
    ∧ (0 ≤ (after outcomes).percent ∧ (after outcomes).percent ≤ 100)
    ∧ ((after outcomes).percent = 100
        ↔ 0 < (after outcomes).processed
          ∧ ∀ report, .scanned report ∈ outcomes → report.hasFindings = true)
    ∧ (0 < (after outcomes).processed → ∀ k : Int,
        (k * (after outcomes).processed ≤ 100 * (after outcomes).flagged
          ∧ 100 * (after outcomes).flagged < (k + 1) * (after outcomes).processed)
        ↔ k = (after outcomes).percent)
    ∧ ∀ others, outcomes.Perm others →
        after others = after outcomes
        ∧ (after others).percent = (after outcomes).percent
        ∧ (after others).summary = (after outcomes).summary := by
  have hconsistent := consistent_after outcomes
  refine ⟨after_eq_ofOutcomes outcomes, hconsistent, hconsistent.percent_bounds, ?_, ?_, ?_⟩
  · rw [hconsistent.percent_eq_hundred_iff, flagged_eq_processed_iff]
  · intro hprocessed k
    rw [← percent_eq_iff hprocessed, eq_comm]
  · intro others hperm
    have hsame : after others = after outcomes := (foldl_count_perm hperm {}).symm
    rw [hsame]
    exact ⟨rfl, rfl, rfl⟩

/-- A file with two findings, one without, and one that cannot be read. -/
def mixedOutcomes : List Outcome :=
  [.scanned ⟨⟨.here, ["A.java"]⟩, [⟨⟨.here, ["A.java"]⟩, 1, missingComment⟩,
      ⟨⟨.here, ["A.java"]⟩, 4, missingComment⟩], .outside⟩,
   .scanned ⟨⟨.here, ["B.java"]⟩, [], .documented⟩,
   .unreadable ⟨⟨.here, ["C.java"]⟩, ⟨.coded 13 "Permission denied", "C.java"⟩⟩]

/-- One file in three has findings, and the line says so also if they are
counted in the reverse order. -/
theorem mixedOutcomes_in_any_order :
    0 < (after (mixedOutcomes ++ mixedOutcomes.tail)).processed
      ∧ (after (mixedOutcomes ++ mixedOutcomes.tail)).percent = 33
      ∧ (mixedOutcomes ++ mixedOutcomes.tail).Perm (mixedOutcomes ++ mixedOutcomes.tail).reverse
      ∧ (after (mixedOutcomes ++ mixedOutcomes.tail).reverse).summary
        = .ok "Complete. Fail: 1/3 (33%)" := by
  obtain ⟨-, -, -, -, hunique, hperm⟩ :=
    consistent_in_any_order (mixedOutcomes ++ mixedOutcomes.tail)
  have hprocessed : 0 < (after (mixedOutcomes ++ mixedOutcomes.tail)).processed := by decide
  have hreverse := (List.reverse_perm (mixedOutcomes ++ mixedOutcomes.tail)).symm
  refine ⟨hprocessed, ?_, hreverse, ?_⟩
  · exact ((hunique hprocessed 33).1 (by decide)).symm
  · exact (hperm _ hreverse).2.2.trans (by decide)

end DocAudit.Totals
