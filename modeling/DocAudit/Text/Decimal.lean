/-
Whole numbers in decimal. A number is read from an optional sign and then
digits of any script, where a single underscore may stand between two
digits. Underscores are not counted, leading zeros are, and a text of
more than 4300 digits is no number. A number is written in no more digits
than that either.
-/
namespace DocAudit.Text

/-- The zeros of the decimal scripts; each is followed by its digits one
to nine (Unicode 14). -/
def digitZeros : List Nat :=
  [0x30, 0x660, 0x6f0, 0x7c0, 0x966, 0x9e6, 0xa66, 0xae6, 0xb66, 0xbe6, 0xc66, 0xce6, 0xd66, 0xde6,
   0xe50, 0xed0, 0xf20, 0x1040, 0x1090, 0x17e0, 0x1810, 0x1946, 0x19d0, 0x1a80, 0x1a90, 0x1b50,
   0x1bb0, 0x1c40, 0x1c50, 0xa620, 0xa8d0, 0xa900, 0xa9d0, 0xa9f0, 0xaa50, 0xabf0, 0xff10, 0x104a0,
   0x10d30, 0x11066, 0x110f0, 0x11136, 0x111d0, 0x112f0, 0x11450, 0x114d0, 0x11650, 0x116c0,
   0x11730, 0x118e0, 0x11950, 0x11c50, 0x11d50, 0x11da0, 0x16a60, 0x16ac0, 0x16b50, 0x1d7ce,
   0x1d7d8, 0x1d7e2, 0x1d7ec, 0x1d7f6, 0x1e140, 0x1e2f0, 0x1e950, 0x1fbf0]

/-- The value of a decimal digit of any script. -/
def digitValue? (c : Char) : Option Nat :=
  digitZeros.findSome? fun z =>
    if z ≤ c.toNat && c.toNat < z + 10 then some (c.toNat - z) else none

/-- The digits that follow a digit, `out` holding those already read
(last first). -/
def digitsFrom (out : List Nat) : List Char → Option (List Nat)
  | [] => some out.reverse
  | '_' :: c :: rest =>
      match digitValue? c with
      | some d => digitsFrom (d :: out) rest
      | none => none
  | c :: rest =>
      match digitValue? c with
      | some d => digitsFrom (d :: out) rest
      | none => none

/-- The digits of an unsigned number, one at least. -/
def digits? : List Char → Option (List Nat)
  | [] => none
  | c :: rest =>
      match digitValue? c with
      | some d => digitsFrom [d] rest
      | none => none

/-- The number that a row of decimal digits denotes. -/
def ofDigits (ds : List Nat) : Nat :=
  ds.foldl (fun n d => 10 * n + d) 0

/-- The longest row of digits that is read or written as a number. -/
def maxDigits : Nat := 4300

/-- An unsigned number. -/
def natural? (s : List Char) : Option Nat :=
  match digits? s with
  | some ds => if ds.length ≤ maxDigits then some (ofDigits ds) else none
  | none => none

/-- A number with an optional sign. -/
def integer? : List Char → Option Int
  | '+' :: rest => (natural? rest).map Int.ofNat
  | '-' :: rest => (natural? rest).map fun n => -Int.ofNat n
  | s => (natural? s).map Int.ofNat

theorem toList_toString_natural (m : Nat) :
    (toString (Int.ofNat m)).toList = Nat.toDigits 10 m := by
  show (Nat.repr m).toList = _
  rw [Nat.repr_eq_ofList_toDigits, String.toList_ofList]

theorem toList_toString_negative (m : Nat) :
    (toString (Int.negSucc m)).toList = '-' :: Nat.toDigits 10 (m + 1) := by
  show ("-" ++ Nat.repr (m + 1)).toList = _
  simp [Nat.repr_eq_ofList_toDigits]

/-- Has a number few enough digits to be written? -/
def isWritable (n : Int) : Bool :=
  (Nat.toDigits 10 n.natAbs).length ≤ maxDigits

/-- The digits of a number, with its sign in front, unless they are too
many. -/
def decimal? (n : Int) : Option String :=
  if isWritable n then some (toString n) else none

end DocAudit.Text
