/-
What is said about one file. A reading takes the lines of a file one by
one and makes a finding at each declaration without a comment; the report
of a file is the list of its findings and the situation its last line
leaves.
-/
import DocAudit.Comment
import DocAudit.Path

namespace DocAudit

/-- The message of a finding unless another is given. -/
def missingComment : String := "No comment found"

/-- A finding at a line of a file, lines counted from one. -/
structure Diagnostic where
  path : Path
  line : Int
  message : String := missingComment
  deriving DecidableEq, Repr

/-- The findings of one file. -/
structure FileReport where
  path : Path
  diagnostics : List Diagnostic
  /-- The situation after the last line. -/
  ending : CommentState
  deriving DecidableEq, Repr

/-- Does the file have a finding? -/
def FileReport.hasFindings (r : FileReport) : Bool :=
  !r.diagnostics.isEmpty

-- ============================================================ reading

/-- A file being read. -/
structure Reading where
  path : Path
  state : CommentState
  /-- Lines read so far. -/
  lineNumber : Nat
  /-- A finding has been made. -/
  flagged : Bool
  deriving DecidableEq, Repr

namespace Reading

/-- Before the first line. -/
def start (path : Path) : Reading :=
  ⟨path, .outside, 0, false⟩

/-- Back before the first line of the same file. -/
def restart (r : Reading) : Reading :=
  start r.path

/-- Reads one line. It is judged by the situation before it. -/
def read (r : Reading) (raw : List Char) : Option Diagnostic × Reading :=
  let line := Line.normalForm raw
  let found := r.state.flags line
  let number := r.lineNumber + 1
  (if found then some ⟨r.path, number, missingComment⟩ else none,
   ⟨r.path, r.state.next line, number, r.flagged || found⟩)

/-- Reads lines in turn, gathering findings (last first). -/
def readAll (found : List Diagnostic) (r : Reading) :
    List (List Char) → List Diagnostic × Reading
  | [] => (found, r)
  | raw :: rest =>
      match r.read raw with
      | (some d, r) => readAll (d :: found) r rest
      | (none, r) => readAll found r rest

/-- Findings made before stay behind those made later. -/
theorem readAll_found (found : List Diagnostic) (r : Reading) (lines : List (List Char)) :
    readAll found r lines
      = ((readAll [] r lines).1 ++ found, (readAll [] r lines).2) := by
  induction lines generalizing found r with
  | nil => rfl
  | cons raw rest ih =>
      rw [readAll, readAll]
      split
      · rw [ih, ih [_]]
        simp
      · rw [ih]

/-- Reading goes on where it stopped. -/
theorem readAll_append (found : List Diagnostic) (r : Reading) (xs ys : List (List Char)) :
    readAll found r (xs ++ ys)
      = readAll (readAll found r xs).1 (readAll found r xs).2 ys := by
  induction xs generalizing found r with
  | nil => rfl
  | cons raw rest ih =>
      rw [List.cons_append, readAll, readAll]
      split <;> exact ih _ _

end Reading

/-- The report on the lines of a file. -/
def FileReport.ofLines (path : Path) (lines : List (List Char)) : FileReport :=
  let (found, r) := Reading.readAll [] (Reading.start path) lines
  ⟨path, found.reverse, r.state⟩

end DocAudit
