/-
The report on a terminal: a numbered text for each finding, and a summary
at the end. These are the texts that a console is handed; how it shows
them is its own business.
-/
import DocAudit.FileReport
import DocAudit.Totals

namespace DocAudit.Terminal

/-- The text of a finding. -/
def findingText (index : Int) (d : Diagnostic) : Except Failure String := do
  let number ← writeNumber index
  let line ← writeNumber d.line
  return number ++ ") " ++ d.message ++ ": " ++ d.path.text ++ ": " ++ line

/-- Findings are numbered from one; this is the number given last. -/
structure Numbering where
  count : Nat := 0
  deriving DecidableEq, Repr

/-- The text of a finding, under the next number. -/
def Numbering.text (n : Numbering) (d : Diagnostic) : Numbering × Except Failure String :=
  (⟨n.count + 1⟩, findingText (n.count + 1) d)

end DocAudit.Terminal
