/-
The counters of a run: files processed, files with a finding, findings,
and files that could not be read. The percentage is that of files with a
finding among those processed, rounded down.
-/
import DocAudit.Fault

namespace DocAudit

/-- The counters of a run. -/
structure Totals where
  processed : Int := 0
  flagged : Int := 0
  findings : Int := 0
  unreadable : Int := 0
  deriving DecidableEq, Repr

namespace Totals

/-- Counts a file with so many findings. -/
def countFile (t : Totals) (findings : Nat) : Totals :=
  { t with
    processed := t.processed + 1
    flagged := if findings = 0 then t.flagged else t.flagged + 1
    findings := t.findings + findings }

/-- Counts a file that could not be read. -/
def countUnreadable (t : Totals) : Totals :=
  { t with unreadable := t.unreadable + 1 }

/-- The share of files with a finding, in percent. -/
def percent (t : Totals) : Int :=
  if t.processed = 0 then 0 else Int.fdiv (100 * t.flagged) t.processed

/-- The line that ends a run. -/
def summary (t : Totals) : Except Failure String := do
  let flagged ← writeNumber t.flagged
  let processed ← writeNumber t.processed
  let percent ← writeNumber t.percent
  return "Complete. Fail: " ++ flagged ++ "/" ++ processed ++ " (" ++ percent ++ "%)"

end Totals

end DocAudit
