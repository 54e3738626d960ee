/-
A tree in writing, one entry a line. An entry is its kind, its path and,
for a file, its content as hexadecimal digits, or for a link its target,
with tabs between them:

    dir  <path>
    file <path> <content>
    link <path> <target>
    pipe <path>

In paths and targets a backslash stands before `t`, `n`, `r` and itself
for a tab, the two line ends and a backslash. Empty lines say nothing.
-/
import DocAudit.FileTree.Build

namespace DocAudit.Manifest

/-- Splits a line at its tabs; `current` is the field under way (last
character first). -/
def fieldsFrom (current : List Char) : List Char → List (List Char)
  | [] => [current.reverse]
  | c :: rest =>
      if c = '\t' then current.reverse :: fieldsFrom [] rest else fieldsFrom (c :: current) rest

/-- Undoes the escapes of a field; a backslash before anything else is no
escape. -/
def unescape? : List Char → Option (List Char)
  | [] => some []
  | '\\' :: 't' :: rest => (unescape? rest).map ('\t' :: ·)
  | '\\' :: 'n' :: rest => (unescape? rest).map ('\n' :: ·)
  | '\\' :: 'r' :: rest => (unescape? rest).map ('\r' :: ·)
  | '\\' :: '\\' :: rest => (unescape? rest).map ('\\' :: ·)
  | c :: rest => if c = '\\' then none else (unescape? rest).map (c :: ·)

/-- The value of a hexadecimal digit. -/
def hexValue? (c : Char) : Option Nat :=
  let n := c.toNat
  if 0x30 ≤ n && n ≤ 0x39 then some (n - 0x30)
  else if 0x61 ≤ n && n ≤ 0x66 then some (n - 0x57)
  else if 0x41 ≤ n && n ≤ 0x46 then some (n - 0x37)
  else none

/-- The bytes of a row of hexadecimal digits; `out` are those read (last
first). -/
def bytesFrom (out : List UInt8) : List Char → Option (List UInt8)
  | [] => some out.reverse
  | high :: low :: rest =>
      match hexValue? high, hexValue? low with
      | some h, some l => bytesFrom (UInt8.ofNat (16 * h + l) :: out) rest
      | _, _ => none
  | [_] => none

/-- The entry of a line: a path and what stands there. -/
def entry? (line : List Char) : Option (String × Node) :=
  match fieldsFrom [] line with
  | [kind, path] => do
      let path ← unescape? path
      if kind = "dir".toList then some (String.ofList path, .directory)
      else if kind = "pipe".toList then some (String.ofList path, .pipe)
      else none
  | [kind, path, more] => do
      let path ← unescape? path
      if kind = "file".toList then
        let content ← bytesFrom [] more
        some (String.ofList path, .file content)
      else if kind = "link".toList then
        let target ← unescape? more
        some (String.ofList path, .link (String.ofList target))
      else none
  | _ => none

/-- Adds the entries of the lines that follow the first `count`. A line
that is no entry is reported by its number. -/
def addLines (t : FileTree) (count : Nat) : List String → Except Nat FileTree
  | [] => .ok t
  | line :: rest =>
      if line = "" then addLines t (count + 1) rest
      else match entry? line.toList with
        | some (path, node) => addLines (t.add path node) (count + 1) rest
        | none => .error (count + 1)

/-- The tree that a manifest describes; its paths start at the top. -/
def read (lines : List String) : Except Nat FileTree :=
  addLines (FileTree.bare []) 0 lines

end DocAudit.Manifest
