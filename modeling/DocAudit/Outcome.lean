/-
Scanning files. A file that cannot be read is an outcome of its own and
does not stop the others. With more than one worker the files are handed
to a pool; the outcomes come in the order of the files either way.
-/
import DocAudit.Disk
import DocAudit.FileReport
import DocAudit.Pool
import DocAudit.Text.Lines

namespace DocAudit

/-- A file that could not be read, and why. -/
structure Unreadable where
  path : Path
  fault : Fault
  deriving DecidableEq, Repr

/-- What scanning a file comes to. -/
inductive Outcome where
  | scanned (report : FileReport)
  | unreadable (u : Unreadable)
  deriving DecidableEq, Repr

namespace Disk

/-- The report on a file. -/
def report (d : Disk) (p : Path) : Except Failure FileReport :=
  match d.read p with
  | .ok bytes => .ok (.ofLines p (Text.linesOfBytes bytes))
  | .error failure => .error failure

/-- The outcome of scanning a file. Only a fault of the file itself is an
outcome; any other failure stops the scan. -/
def outcome (d : Disk) (p : Path) : Except Failure Outcome :=
  match d.report p with
  | .ok report => .ok (.scanned report)
  | .error (.fault fault) => .ok (.unreadable ⟨p, fault⟩)
  | .error failure => .error failure

/-- Scans files one after the other. -/
def outcomesInTurn (d : Disk) (paths : List Path) : Except Failure (List Outcome) :=
  (paths.map d.outcome).mapM id

/-- Scans files by a pool that works off a schedule. -/
def outcomesByPool (d : Disk) (paths : List Path) (schedule : List Nat) :
    Except Failure (List Outcome) :=
  (Pool.run d.outcome paths schedule).mapM id

/-- Scans files with so many workers. -/
def outcomes (d : Disk) (workers : Int) (paths : List Path) : Except Failure (List Outcome) :=
  if workers ≤ 1 || paths.length ≤ 1 then d.outcomesInTurn paths
  else d.outcomesByPool paths (List.range paths.length)

/-- The outcomes up to the first file that stops the scan, and why it
does. -/
def outcomesUntil (d : Disk) (workers : Int) (paths : List Path) :
    List Outcome × Option Failure :=
  if workers ≤ 1 || paths.length ≤ 1 then untilFailure (paths.map d.outcome)
  else untilFailure (Pool.run d.outcome paths (List.range paths.length))

theorem outcomes_eq_outcomesUntil (d : Disk) (workers : Int) (paths : List Path) :
    d.outcomes workers paths = completed (d.outcomesUntil workers paths) := by
  unfold outcomes outcomesUntil
  split
  · exact mapM_id_eq_untilFailure _
  · exact mapM_id_eq_untilFailure _

end Disk

end DocAudit
