/-
One line of source text. A line is judged by its normal form, in which
margins are cut off and letters are lower-case. It declares a type if,
with its spaces and modifiers deleted, it begins with `class` or
`interface`; an empty pair of parentheses marks a method and vetoes that.
The other tests below say what a line does to a comment.
-/
import DocAudit.Text.Blank
import DocAudit.Text.LowerCase

namespace DocAudit.Line

open Text

/-- The normal form of a line. -/
def normalForm (raw : List Char) : List Char :=
  lowerCase (trimMargins raw)

-- ========================================================== modifiers

/-- Deletes a word in one pass from left to right. `out` is what has been
kept (last first); `skip` characters still belong to the occurrence last
found. -/
def eraseFrom (word out : List Char) : Nat → List Char → List Char
  | _, [] => out.reverse
  | skip + 1, _ :: rest => eraseFrom word out skip rest
  | 0, c :: rest =>
      if word.isPrefixOf (c :: rest) then eraseFrom word out (word.length - 1) rest
      else eraseFrom word (c :: out) 0 rest

/-- A text without the occurrences of a word. -/
def erase (word s : List Char) : List Char :=
  eraseFrom word [] 0 s

/-- What has been kept stays in front. -/
theorem eraseFrom_out (word out : List Char) (skip : Nat) (s : List Char) :
    eraseFrom word out skip s = out.reverse ++ eraseFrom word [] skip s := by
  induction s generalizing out skip with
  | nil => simp [eraseFrom]
  | cons c rest ih =>
      cases skip with
      | succ skip =>
          rw [eraseFrom, eraseFrom]
          exact ih out skip
      | zero =>
          rw [eraseFrom, eraseFrom]
          split
          · exact ih out _
          · rw [ih (c :: out), ih [c]]
            simp

/-- An occurrence at the front is passed over. -/
theorem eraseFrom_skip (word s t : List Char) :
    eraseFrom word [] s.length (s ++ t) = eraseFrom word [] 0 t := by
  induction s with
  | nil => rfl
  | cons c s ih =>
      rw [List.cons_append, List.length_cons, eraseFrom]
      exact ih

/-- A word at the front of a text goes. -/
theorem erase_append_self {word : List Char} (h : word ≠ []) (t : List Char) :
    erase word (word ++ t) = erase word t := by
  match word, h with
  | c :: cs, _ =>
      have hfront : (c :: cs).isPrefixOf (c :: (cs ++ t)) = true :=
        List.isPrefixOf_iff_prefix.2 ⟨t, rfl⟩
      unfold erase
      rw [List.cons_append, eraseFrom, if_pos hfront]
      exact eraseFrom_skip _ cs t

/-- A character at which the word does not begin stays. -/
theorem erase_cons {word : List Char} {c : Char} {t : List Char}
    (h : word.isPrefixOf (c :: t) = false) : erase word (c :: t) = c :: erase word t := by
  unfold erase
  rw [eraseFrom, h, if_neg (by decide), eraseFrom_out]
  rfl

/-- The modifiers of a type declaration, in the order of their
deletion. -/
def modifiers : List (List Char) :=
  ["static".toList, "abstract".toList, "final".toList, "public".toList, "private".toList,
   "protected".toList]

/-- A line without spaces and modifiers. Deleting one modifier may join
letters into another, which goes only if its turn is still to come. -/
def stripModifiers (s : List Char) : List Char :=
  modifiers.foldl (fun t word => erase word t) (s.filter (· != ' '))

-- ======================================================= declarations

/-- Does `()` occur? -/
def hasEmptyParens : List Char → Bool
  | '(' :: ')' :: _ => true
  | _ :: rest => hasEmptyParens rest
  | [] => false

/-- Does a line without modifiers declare a type? -/
def beginsType (stripped : List Char) : Bool :=
  ("class".toList.isPrefixOf stripped || "interface".toList.isPrefixOf stripped)
    && !hasEmptyParens stripped

/-- Does a normal line declare a type? -/
def declaresType (line : List Char) : Bool :=
  beginsType (stripModifiers line)

-- =========================================================== comments

/-- Begins with a block comment's opening. -/
def opensBlock (line : List Char) : Bool :=
  "/*".toList.isPrefixOf line

/-- Ends with a block comment's closing. -/
def closesBlock (line : List Char) : Bool :=
  "*/".toList.isSuffixOf line

/-- Begins with a line comment. -/
def isLineComment (line : List Char) : Bool :=
  "//".toList.isPrefixOf line

/-- Begins with an annotation. -/
def isAnnotation (line : List Char) : Bool :=
  "@".toList.isPrefixOf line

/-- Begins with the annotation that counts as documentation. -/
def isDeprecation (line : List Char) : Bool :=
  "@deprecated".toList.isPrefixOf line

end DocAudit.Line
