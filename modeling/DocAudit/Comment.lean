/-
Comments across lines. Reading a file line by line, three situations
matter: a comment has just ended and still documents what comes next, a
block comment is open, or neither. A declaration met in the third
situation has no comment.

Blank lines and annotations leave a comment in force, and any other line
uses it up. A comment is looked for in the situation that remains after
that, so one line can both use up a comment and open the next; a block
opened and closed on one line counts as a comment that has just ended.
-/
import DocAudit.Line

namespace DocAudit

/-- The situation between two lines. -/
inductive CommentState where
  /-- No comment is in force. -/
  | outside
  /-- A comment has ended and documents what comes next. -/
  | documented
  /-- A block comment is open. -/
  | inBlock
  deriving DecidableEq, Repr

namespace CommentState

/-- Does a normal line use up the comment before it? -/
def usesUp (line : List Char) : Bool :=
  !line.isEmpty && !Line.isLineComment line && !Line.opensBlock line && !Line.isAnnotation line

/-- A comment in force ends at a line that uses it up. -/
def afterUse (s : CommentState) (line : List Char) : CommentState :=
  if s = documented && usesUp line then outside else s

/-- Outside a block, a line may open a block or be a comment itself. -/
def afterOpening (s : CommentState) (line : List Char) : CommentState :=
  if s = inBlock then inBlock
  else if Line.opensBlock line then inBlock
  else if Line.isLineComment line || Line.isDeprecation line then documented
  else s

/-- An open block ends at a line that closes it. -/
def afterClosing (s : CommentState) (line : List Char) : CommentState :=
  if s = inBlock && Line.closesBlock line then documented else s

/-- The situation after a normal line. -/
def next (s : CommentState) (line : List Char) : CommentState :=
  ((s.afterUse line).afterOpening line).afterClosing line

/-- Does a normal line, met in this situation, declare a type without a
comment? -/
def flags (s : CommentState) (line : List Char) : Bool :=
  s = outside && Line.declaresType line

end CommentState

end DocAudit
