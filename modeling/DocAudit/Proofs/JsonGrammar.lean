/-
The grammar of JSON, and what the writer writes by it.

# The grammar

`Value s j r` says that the text `s` begins with a form of the value `j`
and that `r` is what follows it. The grammar admits every spelling: blank
space around all marks, the short escapes, `\u` escapes in either case,
pairs of surrogates as one character. Nothing in it refers to the writer.
Numbers with a fraction or an exponent, and surrogates that stand alone,
denote no `Json` and no `String`.

# The written form

A written value is a form of that value and of no other, whatever comes
after it (`readsBack`), so a rendered document can be read in one way
only, `denotes_render_iff`. The proof goes by the value, with one lemma
for each kind of token: `chars_write_iff` for strings, `digits?_toDigits`
for numbers, `items_write_iff` and `fields_write_iff` for what stands
between brackets.
-/
import DocAudit.Manifest
import DocAudit.Proofs.JsonWriting

namespace DocAudit.Json

-- ========================================================== the grammar

/-- The four characters of blank space. -/
def isSpace (c : Char) : Bool :=
  c = ' ' || c = '\t' || c = '\n' || c = '\r'

/-- A text without the blank space in front. -/
def skipSpace (s : List Char) : List Char :=
  s.dropWhile isSpace

/-- A row of digits, without a zero in front of others, and what follows
it. -/
def digits? (s : List Char) : Option (Nat × List Char) :=
  let ds := s.takeWhile Char.isDigit
  if ds = [] ∨ ds.head? = some '0' ∧ ds ≠ ['0'] then none
  else some (Nat.ofDigitChars 10 ds 0, s.dropWhile Char.isDigit)

/-- Four hexadecimal digits and what follows them. -/
def unit? : List Char → Option (Nat × List Char)
  | a :: b :: c :: d :: rest => do
      let a ← Manifest.hexValue? a
      let b ← Manifest.hexValue? b
      let c ← Manifest.hexValue? c
      let d ← Manifest.hexValue? d
      return (((16 * a + b) * 16 + c) * 16 + d, rest)
  | _ => none

/-- What a character after a backslash stands for. -/
def shortEscape? (c : Char) : Option Char :=
  match c with
  | '\x22' => some '\x22'
  | '\\' => some '\\'
  | '/' => some '/'
  | 'b' => some '\x08'
  | 'f' => some '\x0c'
  | 'n' => some '\n'
  | 'r' => some '\r'
  | 't' => some '\t'
  | _ => none

/-- The character of a pair of surrogates, each with ten of its bits. -/
def joined (high low : Nat) : Char :=
  Char.ofNat (0x10000 + 0x400 * (high - 0xd800) + (low - 0xdc00))

/-- The characters of a string up to its closing mark, and what follows
it. -/
inductive Chars : List Char → List Char → List Char → Prop
  | close {r} : Chars ('\x22' :: r) [] r
  | plain {c s t r} : c ≠ '\x22' → c ≠ '\\' → 0x20 ≤ c.toNat →
      Chars s t r → Chars (c :: s) (c :: t) r
  | short {e c s t r} : shortEscape? e = some c →
      Chars s t r → Chars ('\\' :: e :: s) (c :: t) r
  | unit {n s s' t r} : unit? s = some (n, s') → (n < 0xd800 ∨ 0xe000 ≤ n) →
      Chars s' t r → Chars ('\\' :: 'u' :: s) (Char.ofNat n :: t) r
  | pair {high low s s' s'' t r} : unit? s = some (high, '\\' :: 'u' :: s') →
      0xd800 ≤ high → high < 0xdc00 →
      unit? s' = some (low, s'') → 0xdc00 ≤ low → low < 0xe000 →
      Chars s'' t r →
      Chars ('\\' :: 'u' :: s) (joined high low :: t) r

mutual

/-- A value and what follows it. -/
inductive Value : List Char → Json → List Char → Prop
  | null {r} : Value ('n' :: 'u' :: 'l' :: 'l' :: r) .null r
  | true {r} : Value ('t' :: 'r' :: 'u' :: 'e' :: r) (.bool true) r
  | false {r} : Value ('f' :: 'a' :: 'l' :: 's' :: 'e' :: r) (.bool false) r
  | natural {s n r} : digits? s = some (n, r) → Value s (.int n) r
  | negative {s n r} : digits? s = some (n, r) → Value ('-' :: s) (.int (-n)) r
  | string {s t r} : Chars s t r → Value ('\x22' :: s) (.str (String.ofList t)) r
  | emptyArray {s r} : skipSpace s = ']' :: r → Value ('[' :: s) (.arr []) r
  | array {s items r} : Items s items r → Value ('[' :: s) (.arr items) r
  | emptyObject {s r} : skipSpace s = '\x7d' :: r → Value ('\x7b' :: s) (.obj []) r
  | object {s fields r} : Fields s fields r → Value ('\x7b' :: s) (.obj fields) r

/-- The items of an array, one at least, with the bracket that closes
it. -/
inductive Items : List Char → List Json → List Char → Prop
  | last {s item s' r} : Value (skipSpace s) item s' → skipSpace s' = ']' :: r →
      Items s [item] r
  | more {s item s' s'' items r} : Value (skipSpace s) item s' → skipSpace s' = ',' :: s'' →
      Items s'' items r → Items s (item :: items) r

/-- The fields of an object, one at least, with the brace that closes
it. -/
inductive Fields : List Char → List (String × Json) → List Char → Prop
  | last {s field s' r} : Field s field s' → skipSpace s' = '\x7d' :: r → Fields s [field] r
  | more {s field s' s'' fields r} : Field s field s' → skipSpace s' = ',' :: s'' →
      Fields s'' fields r → Fields s (field :: fields) r

/-- A key and its value. -/
inductive Field : List Char → String × Json → List Char → Prop
  | mk {s s₁ s₂ s₃ key value r} : skipSpace s = '\x22' :: s₁ → Chars s₁ key s₂ →
      skipSpace s₂ = ':' :: s₃ → Value (skipSpace s₃) value r →
      Field s (String.ofList key, value) r

end

/-- A text is a document that denotes a value. -/
def Denotes (text : String) (j : Json) : Prop :=
  ∃ r, Value (skipSpace text.toList) j r ∧ skipSpace r = []

-- ============================================================= escapes

/-- A written digit has its value. -/
theorem hexValue?_digitChar : ∀ d < 16, Manifest.hexValue? (Nat.digitChar d) = some d := by
  decide

/-- The escape of a unit is read as that unit. -/
theorem unit?_hex {n : Nat} (h : n < 0x10000) (s : List Char) :
    unit? (Text.hex 4 n ++ s) = some (n, s) := by
  have hn : ((16 * (n / 4096) + n / 256 % 16) * 16 + n / 16 % 16) * 16 + n % 16 = n := by omega
  have h₃ := hexValue?_digitChar (n / 4096) (by omega)
  have h₂ := hexValue?_digitChar (n / 256 % 16) (by omega)
  have h₁ := hexValue?_digitChar (n / 16 % 16) (by omega)
  have h₀ := hexValue?_digitChar (n % 16) (by omega)
  rw [hex_four h]
  simp only [List.cons_append, List.nil_append, unit?, h₃, h₂, h₁, h₀]
  show some (_, s) = _
  rw [hn]

theorem chars_plain_iff {c : Char} (hmark : c ≠ '\x22') (hslash : c ≠ '\\') (hc : 0x20 ≤ c.toNat)
    (s t r : List Char) : Chars (c :: s) t r ↔ ∃ t', t = c :: t' ∧ Chars s t' r := by
  constructor
  · intro h
    cases h with
    | close => exact absurd rfl hmark
    | plain _ _ _ hrest => exact ⟨_, rfl, hrest⟩
    | short => exact absurd rfl hslash
    | unit => exact absurd rfl hslash
    | pair => exact absurd rfl hslash
  · intro h
    obtain ⟨t', rfl, hrest⟩ := h
    exact .plain hmark hslash hc hrest

theorem chars_short_iff {e c : Char} (he : shortEscape? e = some c) (s t r : List Char) :
    Chars ('\\' :: e :: s) t r ↔ ∃ t', t = c :: t' ∧ Chars s t' r := by
  constructor
  · intro h
    cases h with
    | plain _ hslash => exact absurd rfl hslash
    | short he' hrest =>
        obtain rfl := Option.some.inj (he.symm.trans he')
        exact ⟨_, rfl, hrest⟩
    | unit => cases he
    | pair => cases he
  · intro h
    obtain ⟨t', rfl, hrest⟩ := h
    exact .short he hrest

/-- The escape of a unit that is no surrogate. -/
theorem chars_unitEscape_iff {n : Nat} (hn : n < 0xd800 ∨ 0xe000 ≤ n) (hsize : n < 0x10000)
    (s t r : List Char) :
    Chars (unitEscape n ++ s) t r ↔ ∃ t', t = Char.ofNat n :: t' ∧ Chars s t' r := by
  have hs := unit?_hex hsize s
  show Chars ('\\' :: 'u' :: (Text.hex 4 n ++ s)) t r ↔ _
  constructor
  · intro h
    cases h with
    | plain _ hslash => exact absurd rfl hslash
    | short he => cases he
    | unit hunit _ hrest =>
        rw [hs, Option.some.injEq, Prod.mk.injEq] at hunit
        obtain ⟨rfl, rfl⟩ := hunit
        exact ⟨_, rfl, hrest⟩
    | pair hunit _ _ =>
        rw [hs, Option.some.injEq, Prod.mk.injEq] at hunit
        omega
  · intro h
    obtain ⟨t', rfl, hrest⟩ := h
    exact .unit hs hn hrest

/-- The escapes of a pair of surrogates. -/
theorem chars_unitEscapes_iff (high low : Nat) (hhigh : 0xd800 ≤ high ∧ high < 0xdc00)
    (hlow : 0xdc00 ≤ low ∧ low < 0xe000) (s t r : List Char) :
    Chars (unitEscape high ++ (unitEscape low ++ s)) t r ↔
      ∃ t', t = joined high low :: t' ∧ Chars s t' r := by
  have hs : unit? (Text.hex 4 high ++ (unitEscape low ++ s))
      = some (high, '\\' :: 'u' :: (Text.hex 4 low ++ s)) := unit?_hex (by omega) _
  have hs' := unit?_hex (show low < 0x10000 by omega) s
  show Chars ('\\' :: 'u' :: (Text.hex 4 high ++ (unitEscape low ++ s))) t r ↔ _
  constructor
  · intro h
    cases h with
    | plain _ hslash => exact absurd rfl hslash
    | short he => cases he
    | unit hunit hn =>
        rw [hs, Option.some.injEq, Prod.mk.injEq] at hunit
        omega
    | pair hunit _ _ hunit' _ _ hrest =>
        rw [hs, Option.some.injEq, Prod.mk.injEq, List.cons.injEq, List.cons.injEq] at hunit
        obtain ⟨rfl, -, -, rfl⟩ := hunit
        rw [hs', Option.some.injEq, Prod.mk.injEq] at hunit'
        obtain ⟨rfl, rfl⟩ := hunit'
        exact ⟨_, rfl, hrest⟩
  · intro h
    obtain ⟨t', rfl, hrest⟩ := h
    exact .pair hs hhigh.1 hhigh.2 hs' hlow.1 hlow.2 hrest

-- ============================================================= strings

/-- A written character is read as that character. -/
theorem chars_writeChar_iff (c : Char) (s t r : List Char) :
    Chars (writeChar c ++ s) t r ↔ ∃ t', t = c :: t' ∧ Chars s t' r := by
  have hvalid := Text.toNat_lt c
  unfold writeChar
  split_ifs with hself hn hr ht hb hf hplain hunit
  · obtain rfl | rfl : c = '\x22' ∨ c = '\\' := by simpa using hself
    · exact chars_short_iff rfl s t r
    · exact chars_short_iff rfl s t r
  · subst hn
    exact chars_short_iff rfl s t r
  · subst hr
    exact chars_short_iff rfl s t r
  · subst ht
    exact chars_short_iff rfl s t r
  · subst hb
    exact chars_short_iff rfl s t r
  · subst hf
    exact chars_short_iff rfl s t r
  · simp only [Bool.or_eq_true, decide_eq_true_eq, not_or] at hself
    simp only [Bool.and_eq_true, decide_eq_true_eq] at hplain
    exact chars_plain_iff hself.1 hself.2 hplain.1 s t r
  · have hiff := chars_unitEscape_iff (by omega) hunit s t r
    rwa [Char.ofNat_toNat] at hiff
  · -- the two surrogates carry the upper and the lower ten bits above U+FFFF
    have hjoined : joined (0xd800 + (c.toNat - 0x10000) / 0x400)
        (0xdc00 + (c.toNat - 0x10000) % 0x400) = c := by
      rw [joined, show 0x10000 + 0x400 * (0xd800 + (c.toNat - 0x10000) / 0x400 - 0xd800)
        + (0xdc00 + (c.toNat - 0x10000) % 0x400 - 0xdc00) = c.toNat by omega, Char.ofNat_toNat]
    have hiff := chars_unitEscapes_iff (0xd800 + (c.toNat - 0x10000) / 0x400)
      (0xdc00 + (c.toNat - 0x10000) % 0x400) (by omega) (by omega) s t r
    rwa [hjoined, ← List.append_assoc] at hiff

/-- A written string is read as that string. -/
theorem chars_write_iff (cs rest t r : List Char) :
    Chars (cs.flatMap writeChar ++ '\x22' :: rest) t r ↔ t = cs ∧ r = rest := by
  induction cs generalizing t with
  | nil =>
      constructor
      · intro h
        cases h with
        | close => exact ⟨rfl, rfl⟩
        | plain hmark => exact absurd rfl hmark
      · intro h
        obtain ⟨rfl, rfl⟩ := h
        exact .close
  | cons c cs ih =>
      rw [List.flatMap_cons, List.append_assoc, chars_writeChar_iff]
      constructor
      · intro h
        obtain ⟨t', rfl, h⟩ := h
        obtain ⟨rfl, rfl⟩ := (ih t').1 h
        exact ⟨rfl, rfl⟩
      · intro h
        obtain ⟨rfl, rfl⟩ := h
        exact ⟨cs, rfl, (ih cs).2 ⟨rfl, rfl⟩⟩

-- ============================================================= numbers

/-- No digit comes first. -/
def NoDigit (s : List Char) : Prop :=
  ∀ c, s.head? = some c → c.isDigit = false

theorem noDigit_cons {c : Char} {s : List Char} (h : c.isDigit = false) : NoDigit (c :: s) := by
  intro c' hc'
  obtain rfl := Option.some.inj hc'
  exact h

/-- An unsigned number begins with a digit. -/
theorem isDigit_of_digits? {c : Char} {s : List Char} {x : Nat × List Char}
    (h : digits? (c :: s) = some x) : c.isDigit = true := by
  by_contra hc
  simp [digits?, hc] at h

theorem exists_toDigits_eq_cons (n : Nat) :
    ∃ c rest, Nat.toDigits 10 n = c :: rest ∧ c.isDigit = true := by
  obtain ⟨c, rest, h⟩ := List.exists_cons_of_ne_nil (Nat.toDigits_ne_nil (b := 10) (n := n))
  refine ⟨c, rest, h, ?_⟩
  exact Nat.isDigit_of_mem_toDigits (b := 10) (n := n) (by decide) (by decide) (by simp [h])

/-- Only zero is written with a zero in front. -/
theorem eq_zero_of_head?_toDigits (n : Nat) (h : (Nat.toDigits 10 n).head? = some '0') : n = 0 := by
  induction n using Nat.strong_induction_on with
  | _ n ih =>
      by_cases hn : n < 10
      · rw [Nat.toDigits_of_lt_base hn] at h
        have hdigit : ∀ m < 10, Nat.digitChar m = '0' → m = 0 := by decide
        exact hdigit n hn (Option.some.inj h)
      · obtain ⟨c, rest, hfirst, -⟩ := exists_toDigits_eq_cons (n / 10)
        rw [Nat.toDigits_of_base_le (by decide) (by omega), hfirst] at h
        have := ih (n / 10) (by omega) (by rw [hfirst]; exact h)
        omega

/-- The digits of a number are read as that number. -/
theorem digits?_toDigits (n : Nat) {s : List Char} (hs : NoDigit s) :
    digits? (Nat.toDigits 10 n ++ s) = some (n, s) := by
  have hall : ∀ c ∈ Nat.toDigits 10 n, c.isDigit = true :=
    fun c hc => Nat.isDigit_of_mem_toDigits (by decide) (by decide) hc
  have htake : s.takeWhile Char.isDigit = [] := by
    cases s with
    | nil => rfl
    | cons c s => simp [hs c rfl]
  have hdrop : s.dropWhile Char.isDigit = s := by
    cases s with
    | nil => rfl
    | cons c s => simp [hs c rfl]
  have hzero : ¬ ((Nat.toDigits 10 n).head? = some '0' ∧ Nat.toDigits 10 n ≠ ['0']) := by
    intro h
    have hn := eq_zero_of_head?_toDigits n h.1
    rw [hn] at h
    exact h.2 rfl
  rw [digits?, List.takeWhile_append_of_pos hall, htake, List.append_nil,
    List.dropWhile_append_of_pos hall, hdrop]
  simp [Nat.toDigits_ne_nil, hzero]

-- ========================================== values by their first mark

/-- A value that begins with a digit is an unsigned number. -/
theorem value_digit_iff {c : Char} (hc : c.isDigit = true) (s r : List Char) (j : Json) :
    Value (c :: s) j r ↔ ∃ n : Nat, digits? (c :: s) = some (n, r) ∧ j = .int n := by
  constructor
  · intro h
    cases h with
    | natural h => exact ⟨_, h, rfl⟩
    | _ => exact absurd hc (by decide)
  · intro h
    obtain ⟨n, h, rfl⟩ := h
    exact .natural h

theorem value_minus_iff (s r : List Char) (j : Json) :
    Value ('-' :: s) j r ↔ ∃ n : Nat, digits? s = some (n, r) ∧ j = .int (-n) := by
  constructor
  · intro h
    cases h with
    | natural h => exact absurd (isDigit_of_digits? h) (by decide)
    | negative h => exact ⟨_, h, rfl⟩
  · intro h
    obtain ⟨n, h, rfl⟩ := h
    exact .negative h

theorem value_mark_iff (s r : List Char) (j : Json) :
    Value ('\x22' :: s) j r ↔ ∃ t, Chars s t r ∧ j = .str (String.ofList t) := by
  constructor
  · intro h
    cases h with
    | natural h => exact absurd (isDigit_of_digits? h) (by decide)
    | string h => exact ⟨_, h, rfl⟩
  · intro h
    obtain ⟨t, h, rfl⟩ := h
    exact .string h

theorem value_bracket_iff (s r : List Char) (j : Json) :
    Value ('[' :: s) j r ↔
      (skipSpace s = ']' :: r ∧ j = .arr []) ∨ ∃ items, Items s items r ∧ j = .arr items := by
  constructor
  · intro h
    cases h with
    | natural h => exact absurd (isDigit_of_digits? h) (by decide)
    | emptyArray h => exact .inl ⟨h, rfl⟩
    | array h => exact .inr ⟨_, h, rfl⟩
  · intro h
    obtain ⟨h, rfl⟩ | ⟨items, h, rfl⟩ := h
    · exact .emptyArray h
    · exact .array h

theorem value_brace_iff (s r : List Char) (j : Json) :
    Value ('\x7b' :: s) j r ↔
      (skipSpace s = '\x7d' :: r ∧ j = .obj [])
        ∨ ∃ fields, Fields s fields r ∧ j = .obj fields := by
  constructor
  · intro h
    cases h with
    | natural h => exact absurd (isDigit_of_digits? h) (by decide)
    | emptyObject h => exact .inl ⟨h, rfl⟩
    | object h => exact .inr ⟨_, h, rfl⟩
  · intro h
    obtain ⟨h, rfl⟩ | ⟨fields, h, rfl⟩ := h
    · exact .emptyObject h
    · exact .object h

/-- No value begins with the bracket that closes an array. -/
theorem not_value_close (s r : List Char) (j : Json) : ¬ Value (']' :: s) j r := by
  intro h
  cases h with
  | natural h => exact absurd (isDigit_of_digits? h) (by decide)

-- ========================================================= blank space

theorem skipSpace_cons {c : Char} (h : isSpace c = false) (s : List Char) :
    skipSpace (c :: s) = c :: s := by
  simp [skipSpace, h]

/-- New lines are blank. -/
theorem skipSpace_newLine (depth : Nat) (s : List Char) :
    skipSpace (newLine depth ++ s) = skipSpace s := by
  apply List.dropWhile_append_of_pos
  intro c hc
  rw [newLine, List.mem_cons, List.mem_replicate] at hc
  obtain rfl | ⟨-, rfl⟩ := hc <;> decide

section Written

variable {depth : Nat} {text : List Char}

/-- A written value begins with a mark of its own. -/
theorem exists_eq_cons_of_write {j : Json} (h : write depth j = .ok text) :
    ∃ c rest, text = c :: rest ∧ isSpace c = false ∧ c ≠ ']' := by
  cases j with
  | null =>
      cases h
      exact ⟨'n', _, rfl, by decide, by decide⟩
  | bool b =>
      cases b with
      | true =>
          cases h
          exact ⟨'t', _, rfl, by decide, by decide⟩
      | false =>
          cases h
          exact ⟨'f', _, rfl, by decide, by decide⟩
  | int n =>
      obtain ⟨-, rfl⟩ := write_int_eq_ok.1 h
      cases n with
      | ofNat m =>
          obtain ⟨c, rest, hdigits, hc⟩ := exists_toDigits_eq_cons m
          refine ⟨c, rest, by rw [Text.toList_toString_natural, hdigits], ?_, ?_⟩
          · by_contra hspace
            simp only [isSpace, Bool.not_eq_false, Bool.or_eq_true, decide_eq_true_eq] at hspace
            obtain ((rfl | rfl) | rfl) | rfl := hspace <;> exact absurd hc (by decide)
          · rintro rfl
            exact absurd hc (by decide)
      | negSucc m => exact ⟨'-', _, Text.toList_toString_negative m, by decide, by decide⟩
  | str s =>
      cases h
      exact ⟨'\x22', _, rfl, by decide, by decide⟩
  | arr items =>
      cases items with
      | nil =>
          cases h
          exact ⟨'[', _, rfl, by decide, by decide⟩
      | cons item items =>
          obtain ⟨first, -, rest, -, rfl⟩ := write_arr_eq_ok.1 h
          exact ⟨'[', _, rfl, by decide, by decide⟩
  | obj fields =>
      cases fields with
      | nil =>
          cases h
          exact ⟨'\x7b', _, rfl, by decide, by decide⟩
      | cons field fields =>
          obtain ⟨first, -, rest, -, rfl⟩ := write_obj_eq_ok.1 h
          exact ⟨'\x7b', _, rfl, by decide, by decide⟩

/-- The blank space before a written value is skipped, and no more. -/
theorem skipSpace_of_write {j : Json} (h : write depth j = .ok text) (s : List Char) :
    skipSpace (text ++ s) = text ++ s := by
  obtain ⟨c, rest, rfl, hc, -⟩ := exists_eq_cons_of_write h
  rw [List.cons_append, skipSpace_cons hc]

end Written

-- ================================================ arrays and objects

/-- The written form of a value is read as that value, at every depth
and before everything that does not continue a number. -/
def ReadsBack (j : Json) : Prop :=
  ∀ depth text, write depth j = .ok text →
    ∀ s, NoDigit s → ∀ j' r, Value (text ++ s) j' r ↔ j' = j ∧ r = s

section Between

variable {depth : Nat} {first : List Char}

/-- After a written item the array goes on at a comma and ends at a
bracket. -/
theorem items_cons_iff {item : Json} (h : ReadsBack item) (hfirst : write depth item = .ok first)
    {s : List Char} (hs : NoDigit s) (js : List Json) (r : List Char) :
    Items (newLine depth ++ (first ++ s)) js r ↔
      (skipSpace s = ']' :: r ∧ js = [item])
      ∨ ∃ after items, skipSpace s = ',' :: after ∧ Items after items r ∧ js = item :: items := by
  have hread : ∀ j rest, Value (skipSpace (newLine depth ++ (first ++ s))) j rest ↔
      j = item ∧ rest = s := by
    intro j rest
    rw [skipSpace_newLine, skipSpace_of_write hfirst, h depth first hfirst s hs]
  constructor
  · intro hitems
    cases hitems with
    | last hvalue hclose =>
        obtain ⟨rfl, rfl⟩ := (hread _ _).1 hvalue
        exact .inl ⟨hclose, rfl⟩
    | more hvalue hcomma hitems =>
        obtain ⟨rfl, rfl⟩ := (hread _ _).1 hvalue
        exact .inr ⟨_, _, hcomma, hitems, rfl⟩
  · intro hitems
    have hvalue := (hread item s).2 ⟨rfl, rfl⟩
    obtain ⟨hclose, rfl⟩ | ⟨after, items, hcomma, hitems, rfl⟩ := hitems
    · exact .last hvalue hclose
    · exact .more hvalue hcomma hitems

/-- A written field, on a line of its own. -/
theorem field_write_iff (key : String) {value : Json} (h : ReadsBack value)
    (hfirst : write depth value = .ok first) {s : List Char} (hs : NoDigit s)
    (field : String × Json) (r : List Char) :
    Field (newLine depth ++ (writeString key ++ (':' :: ' ' :: (first ++ s)))) field r ↔
      field = (key, value) ∧ r = s := by
  have hkey : skipSpace (newLine depth ++ (writeString key ++ (':' :: ' ' :: (first ++ s))))
      = '\x22' :: (key.toList.flatMap writeChar ++ '\x22' :: (':' :: ' ' :: (first ++ s))) := by
    rw [skipSpace_newLine, writeString, List.cons_append, skipSpace_cons (by decide)]
    simp
  have hcolon : skipSpace (':' :: ' ' :: (first ++ s)) = ':' :: ' ' :: (first ++ s) :=
    skipSpace_cons (by decide) _
  have hvalue : skipSpace (' ' :: (first ++ s)) = first ++ s := skipSpace_of_write hfirst s
  have hback := h depth first hfirst
  constructor
  · intro hfield
    cases hfield with
    | mk hopen hchars hsep hread =>
        rw [hkey, List.cons.injEq] at hopen
        rw [← hopen.2, chars_write_iff] at hchars
        obtain ⟨rfl, rfl⟩ := hchars
        rw [hcolon, List.cons.injEq] at hsep
        rw [← hsep.2, hvalue, hback s hs] at hread
        obtain ⟨rfl, rfl⟩ := hread
        exact ⟨by rw [String.ofList_toList], rfl⟩
  · intro hfield
    obtain ⟨rfl, rfl⟩ := hfield
    have hread := (hback r hs value r).2 ⟨rfl, rfl⟩
    rw [← hvalue] at hread
    have hfield := Field.mk hkey ((chars_write_iff _ _ _ _).2 ⟨rfl, rfl⟩) hcolon hread
    rwa [String.ofList_toList] at hfield

/-- After a written field the object goes on at a comma and ends at a
brace. -/
theorem fields_cons_iff (key : String) {value : Json} (h : ReadsBack value)
    (hfirst : write depth value = .ok first) {s : List Char} (hs : NoDigit s)
    (fs : List (String × Json)) (r : List Char) :
    Fields (newLine depth ++ (writeString key ++ (':' :: ' ' :: (first ++ s)))) fs r ↔
      (skipSpace s = '\x7d' :: r ∧ fs = [(key, value)])
      ∨ ∃ after fields, skipSpace s = ',' :: after ∧ Fields after fields r
        ∧ fs = (key, value) :: fields := by
  have hwritten := fun field r => field_write_iff key h hfirst hs field r
  constructor
  · intro hfields
    cases hfields with
    | last hfield hclose =>
        obtain ⟨rfl, rfl⟩ := (hwritten _ _).1 hfield
        exact .inl ⟨hclose, rfl⟩
    | more hfield hcomma hfields =>
        obtain ⟨rfl, rfl⟩ := (hwritten _ _).1 hfield
        exact .inr ⟨_, _, hcomma, hfields, rfl⟩
  · intro hfields
    have hfield := (hwritten (key, value) s).2 ⟨rfl, rfl⟩
    obtain ⟨hclose, rfl⟩ | ⟨after, fields, hcomma, hfields, rfl⟩ := hfields
    · exact .last hfield hclose
    · exact .more hfield hcomma hfields

theorem noDigit_newLine (depth : Nat) (s : List Char) : NoDigit (newLine depth ++ s) :=
  noDigit_cons (by decide)

/-- A comma and what follows it, as the array or object goes on. -/
theorem skipSpace_comma (s : List Char) : skipSpace (',' :: s) = ',' :: s :=
  skipSpace_cons (by decide) s

/-- The written items of an array are read as those items. -/
theorem items_write_iff {item : Json} {items : List Json}
    (hall : ∀ j ∈ item :: items, ReadsBack j) (hfirst : write (depth + 1) item = .ok first)
    {rest : List Char} (hrest : writeItems (depth + 1) items = .ok rest) (s : List Char)
    (js : List Json) (r : List Char) :
    Items (newLine (depth + 1) ++ (first ++ (rest ++ (newLine depth ++ ']' :: s)))) js r ↔
      js = item :: items ∧ r = s := by
  have hitem : ReadsBack item := hall item (by simp)
  induction items generalizing item first rest js with
  | nil =>
      have hclose : skipSpace (newLine depth ++ ']' :: s) = ']' :: s := by
        rw [skipSpace_newLine, skipSpace_cons (by decide)]
      cases hrest
      rw [List.nil_append, items_cons_iff hitem hfirst (noDigit_newLine depth _), hclose]
      simp [and_comm, eq_comm]
  | cons next items ih =>
      obtain ⟨first', hfirst', rest', hrest', rfl⟩ := writeItems_cons_eq_ok.1 hrest
      have hnext := fun js => ih (fun j hj => hall j (List.mem_cons_of_mem _ hj)) hfirst' hrest' js
        (hall next (by simp))
      simp only [List.cons_append, List.append_assoc]
      rw [items_cons_iff hitem hfirst (noDigit_cons (by decide)), skipSpace_comma]
      constructor
      · intro h
        obtain ⟨hclose, -⟩ | ⟨after, items', hafter, hitems, rfl⟩ := h
        · simp at hclose
        · rw [List.cons.injEq] at hafter
          rw [← hafter.2] at hitems
          obtain ⟨rfl, rfl⟩ := (hnext _).1 hitems
          exact ⟨rfl, rfl⟩
      · intro h
        obtain ⟨rfl, rfl⟩ := h
        exact .inr ⟨_, _, rfl, (hnext _).2 ⟨rfl, rfl⟩, rfl⟩

/-- The written fields of an object are read as those fields. -/
theorem fields_write_iff {key : String} {value : Json} {fields : List (String × Json)}
    (hall : ∀ f ∈ (key, value) :: fields, ReadsBack f.2)
    (hfirst : write (depth + 1) value = .ok first) {rest : List Char}
    (hrest : writeFields (depth + 1) fields = .ok rest) (s : List Char)
    (fs : List (String × Json)) (r : List Char) :
    Fields (newLine (depth + 1) ++ (writeString key ++ (':' :: ' ' :: (first
        ++ (rest ++ (newLine depth ++ '\x7d' :: s)))))) fs r ↔
      fs = (key, value) :: fields ∧ r = s := by
  have hvalue : ReadsBack value := hall (key, value) (by simp)
  induction fields generalizing key value first rest fs with
  | nil =>
      have hclose : skipSpace (newLine depth ++ '\x7d' :: s) = '\x7d' :: s := by
        rw [skipSpace_newLine, skipSpace_cons (by decide)]
      cases hrest
      rw [List.nil_append, fields_cons_iff key hvalue hfirst (noDigit_newLine depth _), hclose]
      simp [and_comm, eq_comm]
  | cons next fields ih =>
      obtain ⟨key', value'⟩ := next
      obtain ⟨first', hfirst', rest', hrest', rfl⟩ := writeFields_cons_eq_ok.1 hrest
      have hnext := fun fs => ih (fun f hf => hall f (List.mem_cons_of_mem _ hf)) hfirst' hrest' fs
        (hall (key', value') (by simp))
      have hmarks : ": ".toList = [':', ' '] := rfl
      simp only [hmarks, List.cons_append, List.nil_append, List.append_assoc]
      rw [fields_cons_iff key hvalue hfirst (noDigit_cons (by decide)), skipSpace_comma]
      constructor
      · intro h
        obtain ⟨hclose, -⟩ | ⟨after, fields', hafter, hfields, rfl⟩ := h
        · simp at hclose
        · rw [List.cons.injEq] at hafter
          rw [← hafter.2] at hfields
          obtain ⟨rfl, rfl⟩ := (hnext _).1 hfields
          exact ⟨rfl, rfl⟩
      · intro h
        obtain ⟨rfl, rfl⟩ := h
        exact .inr ⟨_, _, rfl, (hnext _).2 ⟨rfl, rfl⟩, rfl⟩

end Between

-- ==================================================== whole documents

/-- A written word is read as what it stands for. -/
theorem readsBack_word {j : Json} (hj : j = .null ∨ ∃ b, j = .bool b) : ReadsBack j := by
  intro depth text hwrite s _ j' r
  obtain rfl | ⟨b | b, rfl⟩ := hj
  all_goals
    cases hwrite
    constructor
    · intro h
      cases h with
      | natural h => exact absurd (isDigit_of_digits? h) (by decide)
      | _ => exact ⟨rfl, rfl⟩
    · intro h
      obtain ⟨rfl, rfl⟩ := h
      constructor

theorem readsBack_int (n : Int) : ReadsBack (.int n) := by
  intro depth text hwrite s hs j r
  obtain ⟨-, rfl⟩ := write_int_eq_ok.1 hwrite
  cases n with
  | ofNat m =>
      obtain ⟨c, rest, hdigits, hc⟩ := exists_toDigits_eq_cons m
      have hread := digits?_toDigits m hs
      rw [Text.toList_toString_natural]
      rw [hdigits, List.cons_append] at hread ⊢
      rw [value_digit_iff hc, hread]
      constructor
      · intro h
        obtain ⟨_, h, rfl⟩ := h
        cases h
        exact ⟨rfl, rfl⟩
      · intro h
        obtain ⟨rfl, rfl⟩ := h
        exact ⟨m, rfl, rfl⟩
  | negSucc m =>
      rw [Text.toList_toString_negative, List.cons_append, value_minus_iff, digits?_toDigits _ hs]
      constructor
      · intro h
        obtain ⟨_, h, rfl⟩ := h
        cases h
        exact ⟨rfl, rfl⟩
      · intro h
        obtain ⟨rfl, rfl⟩ := h
        exact ⟨m + 1, rfl, rfl⟩

theorem readsBack_str (s : String) : ReadsBack (.str s) := by
  intro depth text hwrite rest _ j r
  cases hwrite
  have hmarks : writeString s ++ rest
      = '\x22' :: (s.toList.flatMap writeChar ++ '\x22' :: rest) := by
    rw [writeString]
    simp
  rw [hmarks, value_mark_iff]
  constructor
  · intro h
    obtain ⟨t, hchars, rfl⟩ := h
    obtain ⟨rfl, rfl⟩ := (chars_write_iff _ _ _ _).1 hchars
    exact ⟨by rw [String.ofList_toList], rfl⟩
  · intro h
    obtain ⟨rfl, rfl⟩ := h
    exact ⟨_, (chars_write_iff _ _ _ _).2 ⟨rfl, rfl⟩, by rw [String.ofList_toList]⟩

theorem readsBack_arr (items : List Json) (hall : ∀ j ∈ items, ReadsBack j) :
    ReadsBack (.arr items) := by
  intro depth text hwrite s _ j r
  cases items with
  | nil =>
      cases hwrite
      show Value ('[' :: ']' :: s) j r ↔ _
      rw [value_bracket_iff, skipSpace_cons (by decide)]
      constructor
      · intro h
        obtain ⟨h, rfl⟩ | ⟨items, h, -⟩ := h
        · cases h
          exact ⟨rfl, rfl⟩
        · -- no item can begin at the closing bracket
          cases h with
          | last hvalue =>
              rw [skipSpace_cons (by decide)] at hvalue
              exact absurd hvalue (not_value_close _ _ _)
          | more hvalue =>
              rw [skipSpace_cons (by decide)] at hvalue
              exact absurd hvalue (not_value_close _ _ _)
      · intro h
        obtain ⟨rfl, rfl⟩ := h
        exact .inl ⟨rfl, rfl⟩
  | cons item items =>
      obtain ⟨first, hfirst, rest, hrest, rfl⟩ := write_arr_eq_ok.1 hwrite
      have hitems := items_write_iff hall hfirst hrest s
      simp only [List.cons_append, List.append_assoc, List.nil_append]
      rw [value_bracket_iff, skipSpace_newLine, skipSpace_of_write hfirst]
      constructor
      · intro h
        obtain ⟨hclose, -⟩ | ⟨js, hjs, rfl⟩ := h
        · obtain ⟨c, tail, rfl, -, hc⟩ := exists_eq_cons_of_write hfirst
          rw [List.cons_append, List.cons.injEq] at hclose
          exact absurd hclose.1 hc
        · obtain ⟨rfl, rfl⟩ := (hitems js r).1 hjs
          exact ⟨rfl, rfl⟩
      · intro h
        obtain ⟨rfl, rfl⟩ := h
        exact .inr ⟨_, (hitems _ _).2 ⟨rfl, rfl⟩, rfl⟩

theorem readsBack_obj (fields : List (String × Json)) (hall : ∀ f ∈ fields, ReadsBack f.2) :
    ReadsBack (.obj fields) := by
  intro depth text hwrite s _ j r
  cases fields with
  | nil =>
      cases hwrite
      show Value ('\x7b' :: '\x7d' :: s) j r ↔ _
      rw [value_brace_iff, skipSpace_cons (by decide)]
      constructor
      · intro h
        obtain ⟨h, rfl⟩ | ⟨fields, h, -⟩ := h
        · cases h
          exact ⟨rfl, rfl⟩
        · -- no key can begin at the closing brace
          have hkey : ∀ {field rest}, ¬ Field ('\x7d' :: s) field rest := by
            intro field rest hfield
            cases hfield with
            | mk hopen =>
                rw [skipSpace_cons (by decide)] at hopen
                simp at hopen
          cases h with
          | last hfield => exact absurd hfield hkey
          | more hfield => exact absurd hfield hkey
      · intro h
        obtain ⟨rfl, rfl⟩ := h
        exact .inl ⟨rfl, rfl⟩
  | cons field fields =>
      obtain ⟨key, value⟩ := field
      obtain ⟨first, hfirst, rest, hrest, rfl⟩ := write_obj_eq_ok.1 hwrite
      have hfields := fields_write_iff hall hfirst hrest s
      have hmarks : ": ".toList = [':', ' '] := rfl
      simp only [hmarks, List.cons_append, List.append_assoc, List.nil_append]
      rw [value_brace_iff, skipSpace_newLine, writeString, List.cons_append,
        skipSpace_cons (by decide)]
      constructor
      · intro h
        obtain ⟨hclose, -⟩ | ⟨fs, hfs, rfl⟩ := h
        · simp at hclose
        · obtain ⟨rfl, rfl⟩ := (hfields fs r).1 hfs
          exact ⟨rfl, rfl⟩
      · intro h
        obtain ⟨rfl, rfl⟩ := h
        exact .inr ⟨_, (hfields _ _).2 ⟨rfl, rfl⟩, rfl⟩

/-- Every written value is read as that value and as no other. -/
theorem readsBack (j : Json) : ReadsBack j := by
  induction j using Json.induction with
  | null => exact readsBack_word (.inl rfl)
  | bool b => exact readsBack_word (.inr ⟨b, rfl⟩)
  | int n => exact readsBack_int n
  | str text => exact readsBack_str text
  | arr items hitems => exact readsBack_arr items hitems
  | obj fields hfields => exact readsBack_obj fields hfields

/-- A rendered value is a document, and denotes that value only. -/
theorem denotes_render_iff {j : Json} {text : String} (h : j.render = .ok text) (j' : Json) :
    Denotes text j' ↔ j' = j := by
  have hwrite := render_eq_ok.1 h
  have hread := readsBack j 0 _ hwrite [] (by intro c hc; cases hc)
  have hstart := skipSpace_of_write hwrite []
  rw [List.append_nil] at hread hstart
  rw [Denotes, hstart]
  constructor
  · intro h
    obtain ⟨r, hvalue, -⟩ := h
    exact ((hread j' r).1 hvalue).1
  · intro h
    exact ⟨[], (hread j' []).2 ⟨h, rfl⟩, rfl⟩

end DocAudit.Json
