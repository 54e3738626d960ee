/-
Sets of code points written as lists of inclusive ranges. Every table
of the library (letters with case, blanks, unprintable characters) is
such a list, so membership is decided in one place.
-/
namespace DocAudit.Text

/-- Does one of the inclusive ranges hold `n`? -/
def inRanges (ranges : List (Nat × Nat)) (n : Nat) : Bool :=
  ranges.any fun r => r.1 ≤ n && n ≤ r.2

theorem inRanges_iff {ranges : List (Nat × Nat)} {n : Nat} :
    inRanges ranges n = true ↔ ∃ r ∈ ranges, r.1 ≤ n ∧ n ≤ r.2 := by
  simp [inRanges]

end DocAudit.Text
