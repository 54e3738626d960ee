/-
JSON values and their written form: indented by two spaces, one item a
line, nothing between the brackets of an empty array or object. Strings
are written in printable ASCII; all other characters are escaped, those
above U+FFFF as a pair of surrogates. A value with a number that has too
many digits cannot be written.
-/
import DocAudit.Fault

namespace DocAudit

/-- A JSON value without fractions. Fields keep their order. -/
inductive Json where
  | null
  | bool (b : Bool)
  | int (n : Int)
  | str (s : String)
  | arr (items : List Json)
  | obj (fields : List (String × Json))
  deriving Inhabited, Repr

namespace Json

-- ============================================================ strings

/-- The escape of one unit of sixteen bits. -/
def unitEscape (n : Nat) : List Char :=
  '\\' :: 'u' :: Text.hex 4 n

/-- One character of a string. -/
def writeChar (c : Char) : List Char :=
  if c = '\x22' || c = '\\' then ['\\', c]
  else if c = '\n' then ['\\', 'n']
  else if c = '\r' then ['\\', 'r']
  else if c = '\t' then ['\\', 't']
  else if c = '\x08' then ['\\', 'b']
  else if c = '\x0c' then ['\\', 'f']
  else if 0x20 ≤ c.toNat && c.toNat ≤ 0x7e then [c]
  else if c.toNat < 0x10000 then unitEscape c.toNat
  else
    let n := c.toNat - 0x10000
    unitEscape (0xd800 + n / 0x400) ++ unitEscape (0xdc00 + n % 0x400)

/-- A string between quotation marks. -/
def writeString (s : String) : List Char :=
  '\x22' :: (s.toList.flatMap writeChar ++ ['\x22'])

-- ============================================================= values

/-- A new line at a depth. -/
def newLine (depth : Nat) : List Char :=
  '\n' :: List.replicate (2 * depth) ' '

mutual

/-- A value whose lines start at a depth. -/
def write (depth : Nat) : Json → Except Failure (List Char)
  | null => .ok "null".toList
  | bool true => .ok "true".toList
  | bool false => .ok "false".toList
  | int n => (writeNumber n).map String.toList
  | str s => .ok (writeString s)
  | arr [] => .ok "[]".toList
  | arr (item :: items) => do
      let first ← write (depth + 1) item
      let rest ← writeItems (depth + 1) items
      return '[' :: (newLine (depth + 1) ++ first ++ rest ++ newLine depth ++ [']'])
  | obj [] => .ok "\x7b\x7d".toList
  | obj ((key, value) :: fields) => do
      let first ← write (depth + 1) value
      let rest ← writeFields (depth + 1) fields
      return '\x7b' :: (newLine (depth + 1) ++ writeString key ++ ": ".toList ++ first ++ rest
        ++ newLine depth ++ ['\x7d'])

/-- The further items of an array. -/
def writeItems (depth : Nat) : List Json → Except Failure (List Char)
  | [] => .ok []
  | item :: items => do
      let first ← write depth item
      let rest ← writeItems depth items
      return ',' :: (newLine depth ++ first ++ rest)

/-- The further fields of an object. -/
def writeFields (depth : Nat) : List (String × Json) → Except Failure (List Char)
  | [] => .ok []
  | (key, value) :: fields => do
      let first ← write depth value
      let rest ← writeFields depth fields
      return ',' :: (newLine depth ++ writeString key ++ ": ".toList ++ first ++ rest)

end

/-- The written form of a value. -/
def render (j : Json) : Except Failure String :=
  (write 0 j).map String.ofList

-- ========================================================= inspection

/-- Does a value count as a yes? Nothing, no, zero and whatever is empty
do not. -/
def isTruthy : Json → Bool
  | null => false
  | bool b => b
  | int n => n != 0
  | str s => s != ""
  | arr items => !items.isEmpty
  | obj fields => !fields.isEmpty

end Json

end DocAudit
