/-
Reading bytes as UTF-8. The decoder takes one byte at a time and keeps
what it still expects: how many bytes are missing, between which bounds
the next one has to lie, and the value read so far. A byte out of bounds
ends the sequence with a replacement character and is then read afresh,
so a byte below 0x80 always stands for itself, however broken its
surroundings are.
-/
namespace DocAudit.Text

/-- A sequence that is not complete yet. -/
structure Utf8Sequence where
  /-- Bytes still missing, one at least. -/
  missing : Nat
  /-- Least next byte. -/
  low : Nat
  /-- Greatest next byte. -/
  high : Nat
  /-- Bits read so far. -/
  value : Nat
  deriving DecidableEq, Repr

/-- What stands in the place of bytes that are no UTF-8. -/
def replacement : Char := '\ufffd'

/-- A byte at the start of a character: what it writes, and what it
expects. Overlong forms, surrogates and values above U+10FFFF are ruled
out by the bounds on the second byte. -/
def utf8Lead (b : Nat) : List Char × Option Utf8Sequence :=
  if b < 0x80 then ([Char.ofNat b], none)
  else if b < 0xc2 then ([replacement], none)
  else if b < 0xe0 then ([], some ⟨1, 0x80, 0xbf, b - 0xc0⟩)
  else if b = 0xe0 then ([], some ⟨2, 0xa0, 0xbf, 0⟩)
  else if b = 0xed then ([], some ⟨2, 0x80, 0x9f, b - 0xe0⟩)
  else if b < 0xf0 then ([], some ⟨2, 0x80, 0xbf, b - 0xe0⟩)
  else if b = 0xf0 then ([], some ⟨3, 0x90, 0xbf, 0⟩)
  else if b < 0xf4 then ([], some ⟨3, 0x80, 0xbf, b - 0xf0⟩)
  else if b = 0xf4 then ([], some ⟨3, 0x80, 0x8f, b - 0xf0⟩)
  else ([replacement], none)

/-- One byte: what it writes, and what is expected next. -/
def utf8Step (pending : Option Utf8Sequence) (b : Nat) : List Char × Option Utf8Sequence :=
  match pending with
  | none => utf8Lead b
  | some s =>
      if s.low ≤ b && b ≤ s.high then
        let value := 64 * s.value + (b - 0x80)
        if s.missing ≤ 1 then ([Char.ofNat value], none)
        else ([], some ⟨s.missing - 1, 0x80, 0xbf, value⟩)
      else
        let (cs, next) := utf8Lead b
        (replacement :: cs, next)

/-- What the end of the bytes writes. -/
def utf8End : Option Utf8Sequence → List Char
  | none => []
  | some _ => [replacement]

/-- Decoding from inside a byte string; `out` is what has been written
(last first). -/
def utf8From (out : List Char) (pending : Option Utf8Sequence) : List UInt8 → List Char
  | [] => out.reverse ++ utf8End pending
  | b :: rest =>
      let (cs, next) := utf8Step pending b.toNat
      utf8From (cs.reverse ++ out) next rest

/-- Bytes as text. -/
def decodeUtf8 (bytes : List UInt8) : List Char :=
  utf8From [] none bytes

/-- What has been written stays in front. -/
theorem utf8From_out (out : List Char) (pending : Option Utf8Sequence) (bytes : List UInt8) :
    utf8From out pending bytes = out.reverse ++ utf8From [] pending bytes := by
  induction bytes generalizing out pending with
  | nil => simp [utf8From]
  | cons b rest ih =>
      rw [utf8From, utf8From]
      simp only []
      rw [ih, ih (_ ++ [])]
      simp

/-- One byte at a time: what it writes, and then the rest. -/
theorem utf8From_cons (pending : Option Utf8Sequence) (b : UInt8) (rest : List UInt8) :
    utf8From [] pending (b :: rest)
      = (utf8Step pending b.toNat).1 ++ utf8From [] (utf8Step pending b.toNat).2 rest := by
  rw [utf8From]
  simp only []
  rw [utf8From_out]
  simp

/-- Text as bytes. -/
def encodeUtf8 (s : List Char) : List UInt8 :=
  s.flatMap String.utf8EncodeChar

end DocAudit.Text
