/-
Texts quoted in messages. A text stands between apostrophes, or between
quotation marks when it holds an apostrophe and no quotation mark. The
mark in use and the backslash are escaped by a backslash, tab, line feed
and carriage return have short escapes, and what is not printable is
written by its code point. Where a text is shown without marks, only its
control characters are written so.
-/
import DocAudit.Text.Printable

namespace DocAudit.Text

/-- Lower-case hexadecimal digits, padded with zeros to a width. -/
def hex (width n : Nat) : List Char :=
  let ds := Nat.toDigits 16 n
  List.replicate (width - ds.length) '0' ++ ds

/-- The mark that encloses a text. -/
def quoteMark (s : List Char) : Char :=
  if s.contains '\x27' && !s.contains '\x22' then '\x22' else '\x27'

/-- One character inside marks. -/
def quoteChar (mark c : Char) : List Char :=
  if c = mark || c = '\\' then ['\\', c]
  else if c = '\t' then ['\\', 't']
  else if c = '\n' then ['\\', 'n']
  else if c = '\r' then ['\\', 'r']
  else if isPrintable c then [c]
  else if c.toNat < 0x100 then '\\' :: 'x' :: hex 2 c.toNat
  else if c.toNat < 0x10000 then '\\' :: 'u' :: hex 4 c.toNat
  else '\\' :: 'U' :: hex 8 c.toNat

/-- A text between marks. -/
def quoteChars (s : List Char) : List Char :=
  let mark := quoteMark s
  mark :: (s.flatMap (quoteChar mark) ++ [mark])

/-- A text as messages show it. -/
def quote (s : String) : String :=
  String.ofList (quoteChars s.toList)

-- ====================================================== without marks

/-- Is it a control character? Those are U+0000 to U+001F and U+007F to
U+009F. -/
def isControl (c : Char) : Bool :=
  c.toNat < 0x20 || (0x7f ≤ c.toNat && c.toNat < 0xa0)

/-- One character without marks: a control character is written by its
code point. -/
def exposeChar (c : Char) : List Char :=
  if isControl c then '\\' :: 'x' :: hex 2 c.toNat else [c]

/-- A text without marks, its control characters laid open. -/
def expose (s : String) : String :=
  String.ofList (s.toList.flatMap exposeChar)

end DocAudit.Text
