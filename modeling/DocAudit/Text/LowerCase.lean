/-
Lower-casing of whole texts. Three rules apply: a capital letter gives
way to its lower-case letter, U+0130 becomes `i` and a combining dot,
and a capital sigma takes its final form at the end of a word. "End of
a word" is read off the neighbours: passing over case-ignorable
characters on either side, a letter with case stands before the sigma
and none stands after it.

The neighbours are those of the text as given, so the rules are applied
left to right with the characters already passed kept at hand, nearest
first.
-/
import DocAudit.Text.LowerCase.Table
import DocAudit.Text.Ranges

namespace DocAudit.Text

-- ====================================================== one character

/-- Passed over by a search for a neighbouring letter. -/
def isCaseIgnorable (c : Char) : Bool :=
  inRanges caseIgnorableRanges c.toNat

/-- A letter with case (among the characters not passed over). -/
def isCased (c : Char) : Bool :=
  inRanges casedRanges c.toNat

/-- The lower-case code point of a code point above ASCII, if the table
has one. -/
def lowerCodePoint? (n : Nat) : Option Nat :=
  lowerRuns.findSome? fun (first, last, step, target) =>
    if first ≤ n && n ≤ last && (n - first) % step == 0 then
      some (target + (n - first))
    else none

/-- The lower-case letter of a character, whatever its neighbours. -/
def lowerLetter (c : Char) : Char :=
  if c.toNat < 0x80 then
    if 0x41 ≤ c.toNat && c.toNat ≤ 0x5a then Char.ofNat (c.toNat + 32) else c
  else
    match lowerCodePoint? c.toNat with
    | some n => Char.ofNat n
    | none => c

-- ============================================================ context

/-- Is the nearest neighbour that is not passed over a letter with
case? -/
def meetsCased (neighbours : List Char) : Bool :=
  match neighbours.find? fun c => !isCaseIgnorable c with
  | some c => isCased c
  | none => false

/-- What one character becomes between the characters `before` it
(nearest first) and `after` it. -/
def lowerAt (before : List Char) (c : Char) (after : List Char) : List Char :=
  if c = '\u0130' then ['i', '\u0307']
  else if c = '\u03a3' then
    [if meetsCased before && !meetsCased after then '\u03c2' else '\u03c3']
  else [lowerLetter c]

-- ========================================================= whole texts

/-- Lower-casing from a point inside a text: `out` is what has been
written (last first), `before` what has been read (last first). -/
def lowerFrom (out before : List Char) : List Char → List Char
  | [] => out.reverse
  | c :: after => lowerFrom ((lowerAt before c after).reverse ++ out) (c :: before) after

/-- The lower-case form of a text. -/
def lowerCase (s : List Char) : List Char :=
  lowerFrom [] [] s

/-- What has been written stays in front. -/
theorem lowerFrom_out (out before s : List Char) :
    lowerFrom out before s = out.reverse ++ lowerFrom [] before s := by
  induction s generalizing out before with
  | nil => simp [lowerFrom]
  | cons c after ih =>
      rw [lowerFrom, ih, lowerFrom, ih (_ ++ [])]
      simp

/-- The text is lower-cased character by character, each in its place. -/
theorem lowerFrom_cons (before : List Char) (c : Char) (after : List Char) :
    lowerFrom [] before (c :: after)
      = lowerAt before c after ++ lowerFrom [] (c :: before) after := by
  rw [lowerFrom, lowerFrom_out]
  simp

end DocAudit.Text
