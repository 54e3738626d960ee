/-
What the decoder of bytes computes, said without its states.

# The relation

`Decodes bytes text` reads a byte string from left to right: where a
character's encoding begins the bytes, that character is written; where
none does, one replacement character stands for the maximal subpart,
the longest beginning of the bytes that could have become an encoding,
or a single byte if there is none. `decodes_iff` says that the decoder
computes this relation and nothing else.

# From states to encodings

`Passes pending part s` says that the decoder reads `part` without
writing and then waits in `s`, and `Completes pending bytes c` that it
reads `bytes` and writes `c` at the last of them. Encodings are the byte
strings that complete (`completes_encode`, `encode_of_completes`), so
the strings that could become one are those that pass
(`startsCharacter_iff`). Both facts are arithmetic on the table of
leading bytes; all else follows from the steps alone.
-/
import Mathlib.Data.Nat.Find
import DocAudit.Text.Utf8

namespace DocAudit.Text

-- ================================================ the relation

/-- Bytes that some character's encoding continues. -/
def StartsCharacter (part : List UInt8) : Prop :=
  part ≠ [] ∧ ∃ c tail, tail ≠ [] ∧ String.utf8EncodeChar c = part ++ tail

/-- No encoding begins the bytes `part ++ rest`, and `part` is the
longest beginning of them that an encoding continues, or one byte. -/
structure IsMaximalSubpart (part rest : List UInt8) : Prop where
  starts : StartsCharacter part ∨ part.length = 1
  noCharacter : ∀ c, ¬ String.utf8EncodeChar c <+: part ++ rest
  longest : ∀ longer, longer <+: part ++ rest → part.length < longer.length →
    ¬ StartsCharacter longer

/-- The text of a byte string: a character for its encoding, and a
replacement character for every maximal subpart that is none. -/
inductive Decodes : List UInt8 → List Char → Prop
  | done : Decodes [] []
  | char {rest text} (c : Char) :
      Decodes rest text → Decodes (String.utf8EncodeChar c ++ rest) (c :: text)
  | invalid {part rest text} :
      IsMaximalSubpart part rest → Decodes rest text →
      Decodes (part ++ rest) (replacement :: text)

-- ========================================== the table of leading bytes

/-- What a byte expects that leads `x`, the bits of its own, in two
bytes. -/
def leadTwo (x : Nat) : Utf8Sequence := ⟨1, 0x80, 0xbf, x⟩

/-- The same for three bytes; the bounds leave out what two bytes can
hold, and the surrogates. -/
def leadThree (x : Nat) : Utf8Sequence :=
  ⟨2, if x = 0 then 0xa0 else 0x80, if x = 13 then 0x9f else 0xbf, x⟩

/-- The same for four bytes; the bounds leave out what three bytes can
hold, and what no character has. -/
def leadFour (x : Nat) : Utf8Sequence :=
  ⟨3, if x = 0 then 0x90 else 0x80, if x = 4 then 0x8f else 0xbf, x⟩

theorem utf8Lead_two {x : Nat} (hlow : 2 ≤ x) (hhigh : x < 32) :
    utf8Lead (x + 0xc0) = ([], some (leadTwo x)) := by
  rw [utf8Lead, if_neg (by omega), if_neg (by omega), if_pos (by omega), Nat.add_sub_cancel]
  rfl

theorem utf8Lead_three {x : Nat} (hx : x < 16) :
    utf8Lead (x + 0xe0) = ([], some (leadThree x)) := by
  by_cases h₀ : x = 0
  · subst h₀
    rfl
  by_cases h₁₃ : x = 13
  · subst h₁₃
    rfl
  · rw [utf8Lead, if_neg (by omega), if_neg (by omega), if_neg (by omega), if_neg (by omega),
      if_neg (by omega), if_pos (by omega), Nat.add_sub_cancel, leadThree, if_neg h₀, if_neg h₁₃]

theorem utf8Lead_four {x : Nat} (hx : x < 5) :
    utf8Lead (x + 0xf0) = ([], some (leadFour x)) := by
  by_cases h₀ : x = 0
  · subst h₀
    rfl
  by_cases h₄ : x = 4
  · subst h₄
    rfl
  · rw [utf8Lead, if_neg (by omega), if_neg (by omega), if_neg (by omega), if_neg (by omega),
      if_neg (by omega), if_neg (by omega), if_neg (by omega), if_pos (by omega),
      Nat.add_sub_cancel, leadFour, if_neg h₀, if_neg h₄]

/-- The bytes that open a sequence of two, three or four, and what they
expect. -/
def Opens (b : Nat) (s : Utf8Sequence) : Prop :=
  (∃ x, 2 ≤ x ∧ x < 32 ∧ b = x + 0xc0 ∧ s = leadTwo x)
    ∨ (∃ x, x < 16 ∧ b = x + 0xe0 ∧ s = leadThree x)
    ∨ (∃ x, x < 5 ∧ b = x + 0xf0 ∧ s = leadFour x)

theorem Opens.utf8Lead_eq {b : Nat} {s : Utf8Sequence} (h : Opens b s) :
    utf8Lead b = ([], some s) := by
  obtain ⟨x, hlow, hhigh, rfl, rfl⟩ | ⟨x, hx, rfl, rfl⟩ | ⟨x, hx, rfl, rfl⟩ := h
  · exact utf8Lead_two hlow hhigh
  · exact utf8Lead_three hx
  · exact utf8Lead_four hx

theorem utf8Lead_ascii {b : Nat} (h : b < 0x80) : utf8Lead b = ([Char.ofNat b], none) := by
  rw [utf8Lead, if_pos h]

/-- A first byte stands for itself, opens a sequence, or is replaced. -/
theorem utf8Lead_cases (b : Nat) :
    b < 0x80 ∨ (∃ s, Opens b s) ∨ utf8Lead b = ([replacement], none) := by
  by_cases h₁ : b < 0x80
  · exact .inl h₁
  by_cases h₂ : b < 0xc2
  · refine .inr (.inr ?_)
    rw [utf8Lead, if_neg h₁, if_pos h₂]
  by_cases h₃ : b < 0xe0
  · exact .inr (.inl ⟨_, .inl ⟨b - 0xc0, by omega, by omega, by omega, rfl⟩⟩)
  by_cases h₄ : b < 0xf0
  · exact .inr (.inl ⟨_, .inr (.inl ⟨b - 0xe0, by omega, by omega, rfl⟩)⟩)
  by_cases h₅ : b < 0xf5
  · exact .inr (.inl ⟨_, .inr (.inr ⟨b - 0xf0, by omega, by omega, rfl⟩)⟩)
  · refine .inr (.inr ?_)
    rw [utf8Lead, if_neg h₁, if_neg h₂, if_neg h₃, if_neg (by omega), if_neg (by omega), if_neg h₄,
      if_neg (by omega), if_neg (by omega), if_neg (by omega)]

theorem utf8Lead_eq_opened_iff {b : Nat} {s : Utf8Sequence} :
    utf8Lead b = ([], some s) ↔ Opens b s := by
  constructor
  · intro h
    obtain hb | ⟨s', hs'⟩ | hb := utf8Lead_cases b
    · rw [utf8Lead_ascii hb] at h
      cases h
    · rw [hs'.utf8Lead_eq] at h
      cases h
      exact hs'
    · rw [hb] at h
      cases h
  · exact Opens.utf8Lead_eq

/-- A byte that opens nothing writes something. -/
theorem utf8Lead_ne_silent (b : Nat) : utf8Lead b ≠ ([], none) := by
  intro h
  obtain hb | ⟨s, hs⟩ | hb := utf8Lead_cases b
  · rw [utf8Lead_ascii hb] at h
    cases h
  · rw [hs.utf8Lead_eq] at h
    cases h
  · rw [hb] at h
    cases h

-- ==================================================== one more byte

/-- A byte within the bounds of a sequence belongs to it. -/
theorem utf8Step_within {s : Utf8Sequence} {b : Nat} (hlow : s.low ≤ b) (hhigh : b ≤ s.high) :
    utf8Step (some s) b =
      if s.missing ≤ 1 then ([Char.ofNat (64 * s.value + (b - 0x80))], none)
      else ([], some ⟨s.missing - 1, 0x80, 0xbf, 64 * s.value + (b - 0x80)⟩) := by
  simp [utf8Step, hlow, hhigh]

/-- Any other byte ends it and is read afresh. -/
theorem utf8Step_outside {s : Utf8Sequence} {b : Nat} (h : ¬ (s.low ≤ b ∧ b ≤ s.high)) :
    utf8Step (some s) b = (replacement :: (utf8Lead b).1, (utf8Lead b).2) := by
  have hb : (s.low ≤ b && b ≤ s.high) = false := by simpa using h
  simp [utf8Step, hb]

-- =============================================== passing and completing

/-- The decoder reads the bytes without writing, and then expects
`s`. -/
inductive Passes : Option Utf8Sequence → List UInt8 → Utf8Sequence → Prop
  | one {pending b s} : utf8Step pending b.toNat = ([], some s) → Passes pending [b] s
  | more {pending b s rest s'} :
      utf8Step pending b.toNat = ([], some s) → Passes (some s) rest s' →
      Passes pending (b :: rest) s'

/-- The decoder reads the bytes, writes one character at the last of
them, and expects nothing. -/
inductive Completes : Option Utf8Sequence → List UInt8 → Char → Prop
  | last {pending b c} : utf8Step pending b.toNat = ([c], none) → Completes pending [b] c
  | more {pending b s rest c} :
      utf8Step pending b.toNat = ([], some s) → Completes (some s) rest c →
      Completes pending (b :: rest) c

/-- What completes a sequence: a byte within its bounds, and then
whatever the sequence expects after that. -/
theorem completes_cons_iff (s : Utf8Sequence) (b : UInt8) (rest : List UInt8) (c : Char) :
    Completes (some s) (b :: rest) c ↔
      s.low ≤ b.toNat ∧ b.toNat ≤ s.high ∧
        if s.missing ≤ 1 then
          rest = [] ∧ c = Char.ofNat (64 * s.value + (b.toNat - 0x80))
        else
          Completes (some ⟨s.missing - 1, 0x80, 0xbf, 64 * s.value + (b.toNat - 0x80)⟩)
            rest c := by
  constructor
  · intro h
    have hb : s.low ≤ b.toNat ∧ b.toNat ≤ s.high := by
      by_contra hb
      -- outside the bounds a replacement is written, and more if nothing is expected
      cases h with
      | last hstep =>
          rw [utf8Step_outside hb, Prod.mk.injEq, List.cons.injEq] at hstep
          exact utf8Lead_ne_silent _ (Prod.ext hstep.1.2 hstep.2)
      | more hstep _ =>
          rw [utf8Step_outside hb] at hstep
          simp at hstep
    refine ⟨hb.1, hb.2, ?_⟩
    cases h with
    | last hstep =>
        rw [utf8Step_within hb.1 hb.2] at hstep
        split_ifs at hstep ⊢
        · simpa [eq_comm] using hstep
        · simp at hstep
    | more hstep hrest =>
        rw [utf8Step_within hb.1 hb.2] at hstep
        split_ifs at hstep ⊢
        · simp at hstep
        · simp only [Prod.mk.injEq, true_and, Option.some.injEq] at hstep
          rwa [hstep]
  · intro h
    obtain ⟨hlow, hhigh, h⟩ := h
    have hstep := utf8Step_within hlow hhigh
    split_ifs at h hstep with hm
    · obtain ⟨rfl, hc⟩ := h
      rw [← hc] at hstep
      exact .last hstep
    · exact .more hstep h

/-- A part that passes and a tail that completes it. -/
theorem Passes.append {pending : Option Utf8Sequence} {part tail : List UInt8}
    {s : Utf8Sequence} {c : Char} (hpart : Passes pending part s)
    (htail : Completes (some s) tail c) : Completes pending (part ++ tail) c := by
  induction hpart with
  | one hstep => exact .more hstep htail
  | more hstep _ ih => exact .more hstep (ih htail)

/-- What comes before the last byte of a completed sequence passes. -/
theorem Completes.passes {pending : Option Utf8Sequence} {bytes : List UInt8} {c : Char}
    (h : Completes pending bytes c) {part tail : List UInt8} (hbytes : bytes = part ++ tail)
    (hpart : part ≠ []) (htail : tail ≠ []) : ∃ s, Passes pending part s := by
  induction h generalizing part with
  | last _ =>
      have hlength := congrArg List.length hbytes
      have := List.length_pos_iff.2 hpart
      have := List.length_pos_iff.2 htail
      simp at hlength
      omega
  | @more _ b s rest _ hstep _ ih =>
      obtain ⟨b', part', rfl⟩ := List.exists_cons_of_ne_nil hpart
      obtain ⟨rfl, hrest⟩ := List.cons.inj hbytes
      by_cases hempty : part' = []
      · subst hempty
        exact ⟨s, .one hstep⟩
      · obtain ⟨s', hs'⟩ := ih hrest hempty
        exact ⟨s', .more hstep hs'⟩

-- ================================================ encodings complete

/-- The number of a character is no surrogate and not above the last
one. -/
theorem toNat_lt (c : Char) :
    c.toNat < 0xd800 ∨ 0xdfff < c.toNat ∧ c.toNat < 0x110000 := by
  exact c.valid

/-- Every other number is a character's. -/
theorem toNat_ofNat {n : Nat} (h : n < 0xd800 ∨ 0xdfff < n ∧ n < 0x110000) :
    (Char.ofNat n).toNat = n := by
  have hvalid : n.isValidChar := h
  rw [Char.ofNat, dif_pos hvalid]
  rfl

/-- A byte that carries six bits of a character after its first. -/
def trailing (y : Nat) : UInt8 := .ofNat (y + 0x80)

/-- A byte made of a number below 256 has that number. -/
theorem toNat_byte {n : Nat} (h : n < 256) : (UInt8.ofNat n).toNat = n := by
  rw [UInt8.toNat_ofNat']
  omega

theorem toNat_trailing {y : Nat} (h : y < 64) : (trailing y).toNat = y + 0x80 :=
  toNat_byte (by omega)

/-- A byte in the range of trailing bytes is one. -/
theorem trailing_sub {b : UInt8} (hlow : 0x80 ≤ b.toNat) :
    trailing (b.toNat - 0x80) = b := by
  rw [trailing, Nat.sub_add_cancel hlow, UInt8.ofNat_toNat]

/-- The encoding of a character: its number cut into groups of six
bits from the right, with a mark on each. -/
theorem utf8EncodeChar_eq (c : Char) :
    String.utf8EncodeChar c =
      if c.toNat ≤ 0x7f then [.ofNat c.toNat]
      else if c.toNat ≤ 0x7ff then [.ofNat (c.toNat / 64 + 0xc0), trailing (c.toNat % 64)]
      else if c.toNat ≤ 0xffff then
        [.ofNat (c.toNat / 4096 + 0xe0), trailing (c.toNat / 64 % 64), trailing (c.toNat % 64)]
      else
        [.ofNat (c.toNat / 262144 + 0xf0), trailing (c.toNat / 4096 % 64),
          trailing (c.toNat / 64 % 64), trailing (c.toNat % 64)] := by
  have hvalid := toNat_lt c
  unfold String.utf8EncodeChar
  simp only [Char.toNat_val]
  split_ifs
  · rfl
  · rw [Nat.mod_eq_of_lt (show c.toNat / 64 < 0x20 by omega)]
    rfl
  · rw [Nat.mod_eq_of_lt (show c.toNat / 4096 < 0x10 by omega)]
    rfl
  · rw [Nat.mod_eq_of_lt (show c.toNat / 262144 < 0x08 by omega)]
    rfl

/-- Reading an encoding writes its character. -/
theorem completes_encode (c : Char) : Completes none (String.utf8EncodeChar c) c := by
  have hvalid := toNat_lt c
  have hlast := toNat_trailing (show c.toNat % 64 < 64 by omega)
  have hmiddle := toNat_trailing (show c.toNat / 64 % 64 < 64 by omega)
  have hsecond := toNat_trailing (show c.toNat / 4096 % 64 < 64 by omega)
  rw [utf8EncodeChar_eq]
  split_ifs with h1 h2 h3
  · apply Completes.last
    rw [toNat_byte (by omega), utf8Step, utf8Lead_ascii (by omega), Char.ofNat_toNat]
  · have hlead : utf8Lead (c.toNat / 64 + 0xc0) = ([], some (leadTwo (c.toNat / 64))) :=
      utf8Lead_two (by omega) (by omega)
    have hnumber : 64 * (c.toNat / 64) + c.toNat % 64 = c.toNat := by omega
    apply Completes.more
    · rwa [toNat_byte (by omega)]
    · simp [completes_cons_iff, leadTwo, hlast, hnumber]
      omega
  · have hlead : utf8Lead (c.toNat / 4096 + 0xe0) = ([], some (leadThree (c.toNat / 4096))) :=
      utf8Lead_three (by omega)
    have hnumber : 64 * (64 * (c.toNat / 4096) + c.toNat / 64 % 64) + c.toNat % 64 = c.toNat := by
      omega
    apply Completes.more
    · rwa [toNat_byte (by omega)]
    · simp [completes_cons_iff, leadThree, hlast, hmiddle, hnumber]
      split_ifs <;> omega
  · have hlead : utf8Lead (c.toNat / 262144 + 0xf0) = ([], some (leadFour (c.toNat / 262144))) :=
      utf8Lead_four (by omega)
    have hnumber : 64 * (64 * (64 * (c.toNat / 262144) + c.toNat / 4096 % 64) + c.toNat / 64 % 64)
        + c.toNat % 64 = c.toNat := by
      omega
    apply Completes.more
    · rwa [toNat_byte (by omega)]
    · simp [completes_cons_iff, leadFour, hlast, hmiddle, hsecond, hnumber]
      split_ifs <;> omega

/-- A sequence is completed by one byte at least. -/
theorem Completes.exists_cons {pending : Option Utf8Sequence} {bytes : List UInt8} {c : Char}
    (h : Completes pending bytes c) : ∃ b rest, bytes = b :: rest := by
  cases h <;> exact ⟨_, _, rfl⟩

/-- What completes a sequence of two bytes or more is an encoding. -/
theorem encode_of_completes {b : UInt8} {rest : List UInt8} {s : Utf8Sequence} {c : Char}
    (hlead : utf8Lead b.toNat = ([], some s)) (hrest : Completes (some s) rest c) :
    String.utf8EncodeChar c = b :: rest := by
  obtain ⟨x, hx, hx', hbx, rfl⟩ | ⟨x, hx, hbx, rfl⟩ | ⟨x, hx, hbx, rfl⟩ :=
    utf8Lead_eq_opened_iff.1 hlead
  · obtain ⟨b₂, rest, rfl⟩ := hrest.exists_cons
    simp only [completes_cons_iff, leadTwo, le_refl, if_true] at hrest
    obtain ⟨hlow, hhigh, rfl, hc⟩ := hrest
    have hn : c.toNat = 64 * x + (b₂.toNat - 0x80) := by
      rw [hc]
      exact toNat_ofNat (.inl (by omega))
    have h₁ : c.toNat / 64 + 0xc0 = b.toNat := by omega
    have h₂ : c.toNat % 64 = b₂.toNat - 0x80 := by omega
    rw [utf8EncodeChar_eq, if_neg (by omega), if_pos (by omega), h₁, h₂, trailing_sub hlow,
      UInt8.ofNat_toNat]
  · obtain ⟨b₂, rest, rfl⟩ := hrest.exists_cons
    simp only [completes_cons_iff, leadThree] at hrest
    obtain ⟨hlow, hhigh, hrest⟩ := hrest
    rw [if_neg (by omega)] at hrest
    obtain ⟨b₃, rest, rfl⟩ := hrest.exists_cons
    simp only [completes_cons_iff, Nat.add_one_sub_one, le_refl, if_true] at hrest
    obtain ⟨hlow₃, hhigh₃, rfl, hc⟩ := hrest
    have hn : c.toNat = 64 * (64 * x + (b₂.toNat - 0x80)) + (b₃.toNat - 0x80) := by
      rw [hc]
      apply toNat_ofNat
      split_ifs at hlow hhigh <;> omega
    have hlow₂ : 0x80 ≤ b₂.toNat := by split_ifs at hlow <;> omega
    have hhigh₂ : b₂.toNat ≤ 0xbf := by split_ifs at hhigh <;> omega
    have hmin : 0x800 ≤ c.toNat := by split_ifs at hlow <;> omega
    have h₁ : c.toNat / 4096 + 0xe0 = b.toNat := by omega
    have h₂ : c.toNat / 64 % 64 = b₂.toNat - 0x80 := by omega
    have h₃ : c.toNat % 64 = b₃.toNat - 0x80 := by omega
    rw [utf8EncodeChar_eq, if_neg (by omega), if_neg (by omega), if_pos (by omega), h₁, h₂, h₃,
      trailing_sub hlow₂, trailing_sub hlow₃, UInt8.ofNat_toNat]
  · obtain ⟨b₂, rest, rfl⟩ := hrest.exists_cons
    simp only [completes_cons_iff, leadFour] at hrest
    obtain ⟨hlow, hhigh, hrest⟩ := hrest
    rw [if_neg (by omega)] at hrest
    obtain ⟨b₃, rest, rfl⟩ := hrest.exists_cons
    simp only [completes_cons_iff] at hrest
    obtain ⟨hlow₃, hhigh₃, hrest⟩ := hrest
    rw [if_neg (by omega)] at hrest
    obtain ⟨b₄, rest, rfl⟩ := hrest.exists_cons
    simp only [completes_cons_iff, Nat.reduceSub, le_refl, if_true] at hrest
    obtain ⟨hlow₄, hhigh₄, rfl, hc⟩ := hrest
    have hn : c.toNat =
        64 * (64 * (64 * x + (b₂.toNat - 0x80)) + (b₃.toNat - 0x80)) + (b₄.toNat - 0x80) := by
      rw [hc]
      apply toNat_ofNat
      split_ifs at hlow hhigh <;> omega
    have hlow₂ : 0x80 ≤ b₂.toNat := by split_ifs at hlow <;> omega
    have hhigh₂ : b₂.toNat ≤ 0xbf := by split_ifs at hhigh <;> omega
    have hmin : 0x10000 ≤ c.toNat := by split_ifs at hlow <;> omega
    have h₁ : c.toNat / 262144 + 0xf0 = b.toNat := by omega
    have h₂ : c.toNat / 4096 % 64 = b₂.toNat - 0x80 := by omega
    have h₃ : c.toNat / 64 % 64 = b₃.toNat - 0x80 := by omega
    have h₄ : c.toNat % 64 = b₄.toNat - 0x80 := by omega
    rw [utf8EncodeChar_eq, if_neg (by omega), if_neg (by omega), if_neg (by omega), h₁, h₂, h₃,
      h₄, trailing_sub hlow₂, trailing_sub hlow₃, trailing_sub hlow₄, UInt8.ofNat_toNat]

-- ===================================== what could become an encoding

/-- Only a byte from 0xc2 on, one that opens a sequence, passes first. -/
theorem Passes.exists_lead {part : List UInt8} {s : Utf8Sequence} (h : Passes none part s) :
    ∃ b rest s₀, part = b :: rest ∧ utf8Lead b.toNat = ([], some s₀) ∧
      (rest = [] ∧ s = s₀ ∨ Passes (some s₀) rest s) := by
  cases h with
  | one hstep => exact ⟨_, [], s, rfl, hstep, .inl ⟨rfl, rfl⟩⟩
  | more hstep hrest => exact ⟨_, _, _, rfl, hstep, .inr hrest⟩

/-- What passes and is then completed is an encoding. -/
theorem Passes.encode {part tail : List UInt8} {s : Utf8Sequence} {c : Char}
    (hpart : Passes none part s) (htail : Completes (some s) tail c) :
    String.utf8EncodeChar c = part ++ tail := by
  obtain ⟨b, rest, s₀, rfl, hlead, ⟨rfl, rfl⟩ | hrest⟩ := hpart.exists_lead
  · exact encode_of_completes hlead htail
  · exact encode_of_completes hlead (hrest.append htail)

/-- One more byte that passes. -/
theorem Passes.snoc {pending : Option Utf8Sequence} {part : List UInt8} {s s' : Utf8Sequence}
    {b : UInt8} (hpart : Passes pending part s)
    (hstep : utf8Step (some s) b.toNat = ([], some s')) : Passes pending (part ++ [b]) s' := by
  induction hpart with
  | one hfirst => exact .more hfirst (.one hstep)
  | more hfirst _ ih => exact .more hfirst (ih hstep)

/-- The bounds of a new sequence leave room for a next byte. -/
theorem utf8Step_bounds {pending : Option Utf8Sequence} {b : Nat} {s : Utf8Sequence}
    (h : utf8Step pending b = ([], some s)) : s.low ≤ s.high ∧ s.high ≤ 0xbf := by
  cases pending with
  | none =>
      obtain ⟨x, _, _, _, rfl⟩ | ⟨x, _, _, rfl⟩ | ⟨x, _, _, rfl⟩ :=
        utf8Lead_eq_opened_iff.1 h
      · simp [leadTwo]
      · simp only [leadThree]
        split_ifs <;> omega
      · simp only [leadFour]
        split_ifs <;> omega
  | some s₀ =>
      by_cases hb : s₀.low ≤ b ∧ b ≤ s₀.high
      · rw [utf8Step_within hb.1 hb.2] at h
        split_ifs at h
        · simp at h
        · simp only [Prod.mk.injEq, true_and, Option.some.injEq] at h
          simp [← h]
      · rw [utf8Step_outside hb] at h
        simp at h

theorem Passes.bounds {pending : Option Utf8Sequence} {part : List UInt8} {s : Utf8Sequence}
    (h : Passes pending part s) : s.low ≤ s.high ∧ s.high ≤ 0xbf := by
  induction h with
  | one hstep => exact utf8Step_bounds hstep
  | more _ _ ih => exact ih

/-- Every sequence whose bounds leave room can be completed. -/
theorem exists_completes (s : Utf8Sequence) (hs : s.low ≤ s.high ∧ s.high ≤ 0xbf) :
    ∃ tail c, Completes (some s) tail c := by
  induction hn : s.missing using Nat.strong_induction_on generalizing s with
  | _ n ih =>
      have hb : (UInt8.ofNat s.low).toNat = s.low := toNat_byte (by omega)
      have hstep := utf8Step_within (Nat.le_refl s.low) hs.1
      rw [← hb] at hstep
      split_ifs at hstep with hm
      · exact ⟨_, _, .last hstep⟩
      · obtain ⟨tail, c, htail⟩ := ih (s.missing - 1) (by omega) _ (utf8Step_bounds hstep) rfl
        exact ⟨_, c, .more hstep htail⟩

/-- The bytes that an encoding continues are those that pass. -/
theorem startsCharacter_iff (part : List UInt8) :
    StartsCharacter part ↔ ∃ s, Passes none part s := by
  constructor
  · intro h
    obtain ⟨hpart, c, tail, htail, hc⟩ := h
    exact (completes_encode c).passes hc hpart htail
  · intro h
    obtain ⟨s, hs⟩ := h
    obtain ⟨tail, c, htail⟩ := exists_completes s hs.bounds
    refine ⟨?_, c, tail, ?_, hs.encode htail⟩
    · cases hs <;> simp
    · cases htail <;> simp

-- ================================================ the decoder decodes

/-- Bytes that pass are read without a trace. -/
theorem Passes.utf8From {pending : Option Utf8Sequence} {part : List UInt8} {s : Utf8Sequence}
    (h : Passes pending part s) (rest : List UInt8) :
    utf8From [] pending (part ++ rest) = utf8From [] (some s) rest := by
  induction h with
  | one hstep => simp [utf8From_cons, hstep]
  | more hstep _ ih => simp [utf8From_cons, hstep, ih]

/-- Bytes that complete write their character. -/
theorem Completes.utf8From {pending : Option Utf8Sequence} {bytes : List UInt8} {c : Char}
    (h : Completes pending bytes c) (rest : List UInt8) :
    utf8From [] pending (bytes ++ rest) = c :: decodeUtf8 rest := by
  induction h with
  | last hstep => simp [utf8From_cons, hstep, decodeUtf8]
  | more hstep _ ih => simp [utf8From_cons, hstep, ih]

/-- An encoding is read as its character, whatever follows. -/
theorem decodeUtf8_encode_append (c : Char) (rest : List UInt8) :
    decodeUtf8 (String.utf8EncodeChar c ++ rest) = c :: decodeUtf8 rest :=
  (completes_encode c).utf8From rest

/-- A byte below 0x80 is the encoding of a character. -/
theorem encode_ascii {b : UInt8} (h : b.toNat < 0x80) :
    String.utf8EncodeChar (Char.ofNat b.toNat) = [b] := by
  have hn : (Char.ofNat b.toNat).toNat = b.toNat := toNat_ofNat (.inl (by omega))
  rw [utf8EncodeChar_eq, hn, if_pos (by omega), UInt8.ofNat_toNat]

theorem IsMaximalSubpart.length_pos {part rest : List UInt8} (h : IsMaximalSubpart part rest) :
    0 < part.length := by
  obtain hpart | hlength := h.starts
  · exact List.length_pos_iff.2 hpart.1
  · omega

/-- A maximal subpart is read as one replacement character. -/
theorem IsMaximalSubpart.decodeUtf8_eq {part rest : List UInt8} (h : IsMaximalSubpart part rest) :
    decodeUtf8 (part ++ rest) = replacement :: decodeUtf8 rest := by
  by_cases hstarts : ∃ s, Passes none part s
  · obtain ⟨s, hs⟩ := hstarts
    rw [decodeUtf8, hs.utf8From]
    cases rest with
    | nil => rfl
    | cons b rest =>
        have hprefix : part ++ [b] <+: part ++ b :: rest := ⟨rest, by simp⟩
        -- within the bounds it would complete an encoding, or be a longer beginning of one
        have hb : ¬ (s.low ≤ b.toNat ∧ b.toNat ≤ s.high) := by
          intro hb
          have hstep := utf8Step_within hb.1 hb.2
          split_ifs at hstep
          · have henc := hs.encode (.last hstep)
            exact h.noCharacter _ (henc ▸ hprefix)
          · have hlonger := (startsCharacter_iff _).2 ⟨_, hs.snoc hstep⟩
            exact h.longest _ hprefix (by simp) hlonger
        rw [utf8From_cons, utf8Step_outside hb, decodeUtf8, utf8From_cons]
        rfl
  · have hlength : part.length = 1 :=
      h.starts.resolve_left fun hpart => hstarts ((startsCharacter_iff _).1 hpart)
    obtain ⟨b, rfl⟩ := List.length_eq_one_iff.1 hlength
    obtain hb | ⟨s, hs⟩ | hb := utf8Lead_cases b.toNat
    · exact absurd ⟨rest, by rw [encode_ascii hb]⟩ (h.noCharacter (Char.ofNat b.toNat))
    · exact absurd ⟨s, .one hs.utf8Lead_eq⟩ hstarts
    · rw [decodeUtf8, List.singleton_append, utf8From_cons, utf8Step, hb]
      rfl

/-- Bytes that no encoding begins have a maximal subpart. -/
theorem exists_maximalSubpart {bytes : List UInt8} (hbytes : bytes ≠ [])
    (h : ∀ c, ¬ String.utf8EncodeChar c <+: bytes) :
    ∃ part rest, bytes = part ++ rest ∧ IsMaximalSubpart part rest := by
  classical
  let P : Nat → Prop := fun n => n = 1 ∨ StartsCharacter (bytes.take n)
  have hone : 1 ≤ bytes.length := List.length_pos_iff.2 hbytes
  have hn : P (Nat.findGreatest P bytes.length) := Nat.findGreatest_spec hone (.inl rfl)
  have hle : Nat.findGreatest P bytes.length ≤ bytes.length := Nat.findGreatest_le _
  have hgreatest : ∀ m, Nat.findGreatest P bytes.length < m → m ≤ bytes.length → ¬ P m :=
    fun m => Nat.findGreatest_is_greatest
  generalize Nat.findGreatest P bytes.length = n at hn hle hgreatest
  refine ⟨bytes.take n, bytes.drop n, (List.take_append_drop ..).symm, ?_, ?_, ?_⟩
  · obtain rfl | hstarts := hn
    · exact .inr (by simp [hone])
    · exact .inl hstarts
  · simpa using h
  · intro longer hprefix hlength hstarts
    rw [List.take_append_drop] at hprefix
    rw [List.length_take_of_le hle] at hlength
    have htake := List.prefix_iff_eq_take.1 hprefix
    exact hgreatest longer.length hlength hprefix.length_le (.inr (htake ▸ hstarts))

/-- Every byte string has a text. -/
theorem exists_decodes (bytes : List UInt8) : ∃ text, Decodes bytes text := by
  induction hlength : bytes.length using Nat.strong_induction_on generalizing bytes with
  | _ n ih =>
      by_cases hbytes : bytes = []
      · subst hbytes
        exact ⟨[], .done⟩
      by_cases hchar : ∃ c, String.utf8EncodeChar c <+: bytes
      · obtain ⟨c, rest, rfl⟩ := hchar
        have hpos : 0 < (String.utf8EncodeChar c).length :=
          List.length_pos_iff.2 String.utf8EncodeChar_ne_nil
        rw [List.length_append] at hlength
        obtain ⟨text, htext⟩ := ih rest.length (by omega) rest rfl
        exact ⟨c :: text, .char c htext⟩
      · obtain ⟨part, rest, rfl, hpart⟩ := exists_maximalSubpart hbytes (not_exists.1 hchar)
        have hpos : 0 < part.length := hpart.length_pos
        rw [List.length_append] at hlength
        obtain ⟨text, htext⟩ := ih rest.length (by omega) rest rfl
        exact ⟨replacement :: text, .invalid hpart htext⟩

theorem Decodes.decodeUtf8_eq {bytes : List UInt8} {text : List Char} (h : Decodes bytes text) :
    decodeUtf8 bytes = text := by
  induction h with
  | done => rfl
  | char c _ ih => rw [decodeUtf8_encode_append, ih]
  | invalid hpart _ ih => rw [hpart.decodeUtf8_eq, ih]

/-- The decoder computes the text of a byte string. -/
theorem decodes_iff (bytes : List UInt8) (text : List Char) :
    Decodes bytes text ↔ decodeUtf8 bytes = text := by
  constructor
  · exact Decodes.decodeUtf8_eq
  · intro h
    obtain ⟨text', htext'⟩ := exists_decodes bytes
    rwa [← h, htext'.decodeUtf8_eq]

/-- Decoding gives back what was encoded. -/
theorem decodeUtf8_encodeUtf8 (text : List Char) : decodeUtf8 (encodeUtf8 text) = text := by
  induction text with
  | nil => rfl
  | cons c text ih =>
      rw [encodeUtf8, List.flatMap_cons, decodeUtf8_encode_append]
      exact congrArg _ ih

-- =========================================== bytes that stand alone

/-- An encoding of more than one byte has none below 0x80. -/
theorem le_of_mem_encode {c : Char} (hc : 0x80 ≤ c.toNat) {b : UInt8}
    (hmem : b ∈ String.utf8EncodeChar c) : 0x80 ≤ b.toNat := by
  have hvalid := toNat_lt c
  have hlast := toNat_trailing (show c.toNat % 64 < 64 by omega)
  have hmiddle := toNat_trailing (show c.toNat / 64 % 64 < 64 by omega)
  have hsecond := toNat_trailing (show c.toNat / 4096 % 64 < 64 by omega)
  rw [utf8EncodeChar_eq, if_neg (by omega)] at hmem
  split_ifs at hmem <;> simp only [List.mem_cons, List.not_mem_nil, or_false] at hmem
  · obtain rfl | rfl := hmem
    · rw [toNat_byte (by omega)]
      omega
    · omega
  · obtain rfl | rfl | rfl := hmem
    · rw [toNat_byte (by omega)]
      omega
    · omega
    · omega
  · obtain rfl | rfl | rfl | rfl := hmem
    · rw [toNat_byte (by omega)]
      omega
    · omega
    · omega
    · omega

/-- A byte below 0x80 is an encoding by itself and in no other. -/
theorem encode_eq_singleton {c : Char} {b : UInt8} (hb : b.toNat < 0x80)
    (hmem : b ∈ String.utf8EncodeChar c) : String.utf8EncodeChar c = [b] := by
  have hc : c.toNat < 0x80 := by
    by_contra hc
    have := le_of_mem_encode (by omega) hmem
    omega
  rw [utf8EncodeChar_eq, if_pos (by omega)] at hmem ⊢
  rw [List.mem_singleton.1 hmem]

/-- Nothing that an encoding continues has such a byte. -/
theorem StartsCharacter.le_of_mem {part : List UInt8} (h : StartsCharacter part) {b : UInt8}
    (hmem : b ∈ part) : 0x80 ≤ b.toNat := by
  obtain ⟨_, c, tail, htail, hc⟩ := h
  by_contra hb
  have hone := encode_eq_singleton (by omega) (hc ▸ List.mem_append_left tail hmem)
  have hlength := congrArg List.length (hc.symm.trans hone)
  have := List.length_pos_iff.2 htail
  have := List.length_pos_of_mem hmem
  simp at hlength
  omega

/-- A beginning of `xs ++ b :: ys` without `b` in it is one of `xs`. -/
theorem prefix_of_not_mem {α : Type} {part xs ys : List α} {b : α} (hb : b ∉ part)
    (h : part <+: xs ++ b :: ys) : part <+: xs := by
  by_cases hle : part.length ≤ xs.length
  · exact List.prefix_of_prefix_length_le h (List.prefix_append ..) hle
  · have hthrough : xs ++ [b] <+: xs ++ b :: ys := ⟨ys, by simp⟩
    have hinside : xs ++ [b] <+: part :=
      List.prefix_of_prefix_length_le hthrough h (by simp; omega)
    exact absurd (hinside.subset (by simp)) hb

/-- A maximal subpart stays one before a byte below 0x80. -/
theorem IsMaximalSubpart.append {part rest : List UInt8} (h : IsMaximalSubpart part rest)
    {b : UInt8} (hb : b.toNat < 0x80) (after : List UInt8) :
    IsMaximalSubpart part (rest ++ b :: after) where
  starts := h.starts
  noCharacter := by
    intro c hc
    apply h.noCharacter c
    rw [← List.append_assoc] at hc
    by_cases hmem : b ∈ String.utf8EncodeChar c
    · have hpos := h.length_pos
      refine List.prefix_of_prefix_length_le hc (List.prefix_append ..) ?_
      rw [encode_eq_singleton hb hmem, List.length_append, List.length_singleton]
      omega
    · exact prefix_of_not_mem hmem hc
  longest := by
    intro longer hprefix hlength hstarts
    rw [← List.append_assoc] at hprefix
    have hmem : b ∉ longer := by
      intro hmem
      have := hstarts.le_of_mem hmem
      omega
    exact h.longest longer (prefix_of_not_mem hmem hprefix) hlength hstarts

/-- A byte below 0x80 stands for itself, and what is before it and after
it is read by itself, however broken either is. -/
theorem Decodes.append_ascii {xs ys : List UInt8} {s t : List Char} (hxs : Decodes xs s)
    {b : UInt8} (hb : b.toNat < 0x80) (hys : Decodes ys t) :
    Decodes (xs ++ b :: ys) (s ++ Char.ofNat b.toNat :: t) := by
  induction hxs with
  | done =>
      have hchar := Decodes.char (Char.ofNat b.toNat) hys
      rwa [encode_ascii hb] at hchar
  | char c _ ih =>
      rw [List.append_assoc]
      exact .char c ih
  | invalid hpart _ ih =>
      rw [List.append_assoc]
      exact .invalid (hpart.append hb ys) ih

/-- The first character of a text is a replacement, or the first in the
bytes. -/
theorem Decodes.encode_prefix {bytes : List UInt8} {c : Char} {text : List Char}
    (h : Decodes bytes (c :: text)) : c = replacement ∨ String.utf8EncodeChar c <+: bytes := by
  cases h with
  | char c _ => exact .inr (List.prefix_append ..)
  | invalid _ _ => exact .inl rfl

/-- A character of a text is a replacement, or its bytes are there. -/
theorem Decodes.encode_subset {bytes : List UInt8} {text : List Char} (h : Decodes bytes text)
    {c : Char} (hmem : c ∈ text) : c = replacement ∨ String.utf8EncodeChar c ⊆ bytes := by
  induction h with
  | done => cases hmem
  | char c' _ ih =>
      obtain rfl | hmem := List.mem_cons.1 hmem
      · exact .inr (List.subset_append_left ..)
      · exact (ih hmem).imp_right fun hsub => List.subset_append_of_subset_right _ hsub
  | invalid _ _ ih =>
      obtain rfl | hmem := List.mem_cons.1 hmem
      · exact .inl rfl
      · exact (ih hmem).imp_right fun hsub => List.subset_append_of_subset_right _ hsub

/-- Only no bytes have an empty text. -/
theorem Decodes.eq_nil {bytes : List UInt8} (h : Decodes bytes []) : bytes = [] := by
  cases h
  rfl

end DocAudit.Text
