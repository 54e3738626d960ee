/-
What a run hands over to its two streams. The error stream takes log
records, which are written if the verbosity lets them pass, and texts for
a console. The output stream takes the lines of a report, some for a
console and some to be written as they are.

A console is whatever shows a text; nothing is assumed of it. The one at
the end is for running the program.
-/
import DocAudit.Log

namespace DocAudit

/-- How a console shows a text. -/
structure Console where
  render : String → String

/-- Something handed over to the error stream. -/
inductive Piece where
  | log (record : Log.Record)
  | console (text : String)
  deriving DecidableEq, Repr

/-- A line handed over to the output stream. -/
inductive ReportLine where
  | console (text : String)
  /-- A line that is written as it is. -/
  | plain (text : String)
  deriving DecidableEq, Repr

namespace Console

/-- The line that a console makes of a text. -/
def line (c : Console) (text : String) : String :=
  c.render text ++ "\n"

/-- What is written for a piece. -/
def writePiece (c : Console) (v : Log.Verbosity) : Piece → List String
  | .log record => v.write record
  | .console text => [c.line text]

/-- What is written for a line of a report. -/
def writeLine (c : Console) : ReportLine → String
  | .console text => c.line text
  | .plain text => text ++ "\n"

-- =================================================== without colours

/-- Characters that a terminal would act on: bell, backspace, vertical
tab, form feed, carriage return. -/
def isControl (c : Char) : Bool :=
  [0x07, 0x08, 0x0b, 0x0c, 0x0d].contains c.toNat

/-- The distance between tab stops. -/
def tabStop : Nat := 8

/-- Expands tabs from a column on; `out` is what has been written (last
first). -/
def expandFrom (out : List Char) (column : Nat) : List Char → List Char
  | [] => out.reverse
  | c :: rest =>
      if c = '\n' then expandFrom (c :: out) 0 rest
      else if c = '\t' then
        let width := tabStop - column % tabStop
        expandFrom (List.replicate width ' ' ++ out) (column + width) rest
      else expandFrom (c :: out) (column + 1) rest

/-- A console without colours that never breaks a line: control
characters are left out, and tabs become spaces up to the next stop. It
gives every character one column, so it is right for texts in which no
wide character stands before a tab. -/
def uncoloured : Console where
  render s := String.ofList (expandFrom [] 0 (s.toList.filter fun c => !isControl c))

end Console

end DocAudit
