/-
Cutting a sequence into lines. A line ends at a line feed, at a carriage
return, or at the two in this order, which count as one end. What
follows the last end is a line if it is not empty. Nothing here depends
on what the items are: the same function cuts characters and bytes.
-/
import DocAudit.Text.Utf8

namespace DocAudit.Text

/-- A cut in progress. -/
structure LineCutter (α : Type) where
  /-- Complete lines, last first. -/
  done : List (List α)
  /-- The line under way, last item first. -/
  current : List α
  /-- The item before was a carriage return. -/
  afterReturn : Bool
  deriving DecidableEq, Repr

namespace LineCutter

variable {α : Type} [DecidableEq α]

/-- Before the first item. -/
def start : LineCutter α := ⟨[], [], false⟩

/-- One more item; a line feed right after a carriage return belongs to
the same line end. -/
def push (cr lf : α) (c : LineCutter α) (a : α) : LineCutter α :=
  if a = lf then
    if c.afterReturn then { c with afterReturn := false }
    else ⟨c.current.reverse :: c.done, [], false⟩
  else if a = cr then ⟨c.current.reverse :: c.done, [], true⟩
  else ⟨c.done, a :: c.current, false⟩

/-- The lines, a last line without an end included if it is not
empty. -/
def finish (c : LineCutter α) : List (List α) :=
  if c.current.isEmpty then c.done.reverse else (c.current.reverse :: c.done).reverse

end LineCutter

/-- The lines of a sequence, given its two line-end items. -/
def cutLines {α : Type} [DecidableEq α] (cr lf : α) (items : List α) : List (List α) :=
  (items.foldl (LineCutter.push cr lf) LineCutter.start).finish

/-- The lines of a text. -/
def linesOfText (s : List Char) : List (List Char) :=
  cutLines '\r' '\n' s

/-- The lines of a file's bytes. -/
def linesOfBytes (bytes : List UInt8) : List (List Char) :=
  linesOfText (decodeUtf8 bytes)

end DocAudit.Text
