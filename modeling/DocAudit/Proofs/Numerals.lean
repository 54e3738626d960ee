/-
Numbers as people type them.

# The grammar

A number is an optional sign and one to 4300 decimal digits of any
scripts, with single underscores between some of them. `Spaced` tells
where underscores may stand, `IsDecimal` which character is which digit,
and the digits have the usual positional value; `Numeral s n` is all of
it. Nothing in these definitions says how a text is read.

# The reader

Reading accepts the numerals and nothing else, each with the number it
denotes (`integer?_eq_some_iff`). One way follows the reader, which goes
from digit to digit with those it has read; the other follows the
underscores, since a row spaced out is a first digit and a row spaced out
behind it.

# Workers

What a user asks for is a numeral, `auto` or nothing, up to blanks around
it and the case of letters; `workerCount_exact` says which number of
workers comes of it, and which error of anything else.
-/
import Mathlib.Data.List.Forall2
import Mathlib.Data.List.Pairwise
import Mathlib.Data.Nat.Digits.Defs
import DocAudit.Proofs.LowerCasing
import DocAudit.Settings.Workers

namespace DocAudit

namespace Text

-- ========================================================= the grammar

/-- A row of characters, spaced out by single underscores between some of
them. -/
inductive Spaced : List Char → List Char → Prop
  | single (c : Char) : Spaced [c] [c]
  | next (c : Char) {s row : List Char} : Spaced s row → Spaced (c :: s) (c :: row)
  | gap (c : Char) {s row : List Char} : Spaced s row → Spaced (c :: '_' :: s) (c :: row)

/-- A character is the digit `v` of a decimal script. -/
def IsDecimal (c : Char) (v : Nat) : Prop :=
  v < 10 ∧ ∃ first ∈ digitZeros, c.toNat = first + v

/-- A text without a sign that denotes a number. -/
def Unsigned (s : List Char) (n : Nat) : Prop :=
  ∃ row values, Spaced s row ∧ List.Forall₂ IsDecimal row values ∧ row.length ≤ 4300
    ∧ Nat.ofDigits 10 values.reverse = n

/-- A text that denotes a number. -/
inductive Numeral : List Char → Int → Prop
  | unsigned {s : List Char} {n : Nat} : Unsigned s n → Numeral s n
  | plus {s : List Char} {n : Nat} : Unsigned s n → Numeral ('+' :: s) n
  | minus {s : List Char} {n : Nat} : Unsigned s n → Numeral ('-' :: s) (-n)

/-- A row and the same row spaced out begin alike. -/
theorem Spaced.exists_cons {s row : List Char} (h : Spaced s row) :
    ∃ c rest more, s = c :: rest ∧ row = c :: more := by
  cases h with
  | single c => exact ⟨c, [], [], rfl, rfl⟩
  | next c h => exact ⟨c, _, _, rfl, rfl⟩
  | gap c h => exact ⟨c, _, _, rfl, rfl⟩

/-- No underscore has to stand. -/
theorem Spaced.refl {row : List Char} (h : row ≠ []) : Spaced row row := by
  induction row with
  | nil => exact absurd rfl h
  | cons c rest ih =>
      by_cases hrest : rest = []
      · rw [hrest]
        exact .single c
      · exact .next c (ih hrest)

-- ========================================================== one digit

/-- The zeros of two scripts have room for the digits of each. -/
def ZerosApart (first other : Nat) : Prop :=
  first + 10 ≤ other ∨ other + 10 ≤ first

instance : Std.Symm ZerosApart :=
  ⟨fun _ _ => Or.symm⟩

theorem digitZeros_apart : digitZeros.Pairwise ZerosApart := by
  have hrising : digitZeros.Pairwise fun first next => first + 10 ≤ next := by decide
  exact hrising.imp fun h => Or.inl h

/-- A character is no more than one digit. -/
theorem IsDecimal.unique {c : Char} {v w : Nat} (hv : IsDecimal c v) (hw : IsDecimal c w) :
    v = w := by
  obtain ⟨hv, first, hfirst, hc⟩ := hv
  obtain ⟨hw, other, hother, hc'⟩ := hw
  by_cases heq : first = other
  · omega
  · have hapart := digitZeros_apart.forall hfirst hother heq
    rcases hapart with h | h <;> omega

theorem digitValue?_eq_some_iff {c : Char} {v : Nat} :
    digitValue? c = some v ↔ IsDecimal c v := by
  have hread : ∀ {w}, digitValue? c = some w → IsDecimal c w := by
    intro w h
    obtain ⟨first, hfirst, hw⟩ := List.exists_of_findSome?_eq_some h
    split at hw
    · rename_i hrange
      simp only [Bool.and_eq_true, decide_eq_true_eq] at hrange
      obtain rfl := Option.some.inj hw
      exact ⟨by omega, first, hfirst, by omega⟩
    · cases hw
  constructor
  · exact hread
  · intro h
    cases hvalue : digitValue? c with
    | some w => rw [h.unique (hread hvalue)]
    | none =>
        obtain ⟨hv, first, hfirst, hc⟩ := h
        have hnone := List.findSome?_eq_none_iff.1 hvalue first hfirst
        simp [hc, hv] at hnone

theorem not_isDecimal {c : Char} (h : digitValue? c = none) (v : Nat) : ¬IsDecimal c v := by
  intro hc
  rw [digitValue?_eq_some_iff.2 hc] at h
  cases h

-- ===================================================== a row of digits

/-- A digit is read, whether an underscore stands before it or not. -/
theorem digitsFrom_digit {c : Char} {v : Nat} (h : IsDecimal c v) (out : List Nat)
    (s : List Char) :
    digitsFrom out (c :: s) = digitsFrom (v :: out) s
      ∧ digitsFrom out ('_' :: c :: s) = digitsFrom (v :: out) s := by
  have hvalue := digitValue?_eq_some_iff.2 h
  have hc : c ≠ '_' := by
    intro heq
    rw [heq] at h
    exact not_isDecimal (by decide) v h
  constructor
  · rw [digitsFrom]
    · rw [hvalue]
    · intro c' rest heq _
      exact hc heq
  · rw [digitsFrom, hvalue]

/-- A row of digits is read as their values, behind those read before. -/
theorem Spaced.digitsFrom_eq {s row : List Char} (h : Spaced s row) {values : List Nat}
    (hrow : List.Forall₂ IsDecimal row values) (out : List Nat) :
    digitsFrom out s = some (out.reverse ++ values)
      ∧ digitsFrom out ('_' :: s) = some (out.reverse ++ values) := by
  induction h generalizing values out with
  | single c =>
      obtain ⟨v, _, hc, hnil, rfl⟩ := List.forall₂_cons_left_iff.1 hrow
      cases hnil
      obtain ⟨hplain, hgap⟩ := digitsFrom_digit hc out []
      rw [hplain, hgap]
      simp [digitsFrom]
  | next c _ ih =>
      obtain ⟨v, values, hc, hvalues, rfl⟩ := List.forall₂_cons_left_iff.1 hrow
      obtain ⟨hplain, hgap⟩ := digitsFrom_digit hc out _
      rw [hplain, hgap, (ih hvalues (v :: out)).1]
      simp
  | gap c _ ih =>
      obtain ⟨v, values, hc, hvalues, rfl⟩ := List.forall₂_cons_left_iff.1 hrow
      obtain ⟨hplain, hgap⟩ := digitsFrom_digit hc out _
      rw [hplain, hgap, (ih hvalues (v :: out)).2]
      simp

/-- What is read behind a character is a row of digits spaced out. -/
theorem spaced_of_digitsFrom {out : List Nat} {s : List Char} {values : List Nat}
    (h : digitsFrom out s = some values) (c : Char) :
    ∃ row read, Spaced (c :: s) (c :: row) ∧ List.Forall₂ IsDecimal row read
      ∧ values = out.reverse ++ read := by
  fun_induction digitsFrom out s generalizing c with
  | case1 out =>
      obtain rfl := Option.some.inj h
      exact ⟨[], [], .single c, .nil, by simp⟩
  | case2 out d rest v hv ih =>
      obtain ⟨row, read, hspaced, hrow, rfl⟩ := ih h d
      exact ⟨d :: row, v :: read, .gap c hspaced, .cons (digitValue?_eq_some_iff.1 hv) hrow, by simp⟩
  | case3 => cases h
  | case4 out d rest _ v hv ih =>
      obtain ⟨row, read, hspaced, hrow, rfl⟩ := ih h d
      exact ⟨d :: row, v :: read, .next c hspaced, .cons (digitValue?_eq_some_iff.1 hv) hrow, by simp⟩
  | case5 => cases h

theorem digits?_eq_some_iff {s : List Char} {values : List Nat} :
    digits? s = some values ↔ ∃ row, Spaced s row ∧ List.Forall₂ IsDecimal row values := by
  constructor
  · intro h
    cases s with
    | nil => cases h
    | cons c rest =>
        rw [digits?] at h
        split at h
        · rename_i v hv
          obtain ⟨row, read, hspaced, hrow, rfl⟩ := spaced_of_digitsFrom h c
          exact ⟨c :: row, hspaced, .cons (digitValue?_eq_some_iff.1 hv) hrow⟩
        · cases h
  · intro h
    obtain ⟨row, hspaced, hrow⟩ := h
    have hread := (hspaced.digitsFrom_eq hrow []).1
    obtain ⟨c, rest, more, rfl, rfl⟩ := hspaced.exists_cons
    obtain ⟨v, _, hc, -⟩ := List.forall₂_cons_left_iff.1 hrow
    -- with nothing before it, the first digit is read like any other
    rw [digits?, digitValue?_eq_some_iff.2 hc]
    rwa [(digitsFrom_digit hc [] rest).1] at hread

-- ======================================================== whole numbers

/-- The value of a row of digits is the positional one. -/
theorem ofDigits_eq (values : List Nat) : ofDigits values = Nat.ofDigits 10 values.reverse := by
  rw [ofDigits, List.foldl_eq_foldr_reverse, Nat.ofDigits_eq_foldr]
  congr 1
  funext d n
  exact Nat.add_comm _ _

theorem natural?_eq_some_iff {s : List Char} {n : Nat} :
    natural? s = some n ↔ Unsigned s n := by
  constructor
  · intro h
    rw [natural?] at h
    split at h
    · rename_i values hdigits
      obtain ⟨row, hspaced, hrow⟩ := digits?_eq_some_iff.1 hdigits
      split at h
      · rename_i hlength
        refine ⟨row, values, hspaced, hrow, ?_, ?_⟩
        · rw [hrow.length_eq]
          exact hlength
        · rw [← ofDigits_eq]
          exact Option.some.inj h
      · cases h
    · cases h
  · intro h
    obtain ⟨row, values, hspaced, hrow, hlength, hn⟩ := h
    have hdigits := digits?_eq_some_iff.2 ⟨row, hspaced, hrow⟩
    have hfits : values.length ≤ maxDigits := hrow.length_eq ▸ hlength
    simp only [natural?, hdigits]
    rw [if_pos hfits, ofDigits_eq, hn]

/-- A number without a sign begins with a digit. -/
theorem Unsigned.exists_isDecimal {c : Char} {s : List Char} {n : Nat} (h : Unsigned (c :: s) n) :
    ∃ v, IsDecimal c v := by
  obtain ⟨row, values, hspaced, hrow, -⟩ := h
  obtain ⟨_, _, more, heq, rfl⟩ := hspaced.exists_cons
  obtain ⟨rfl, rfl⟩ := List.cons_eq_cons.1 heq
  obtain ⟨v, _, hc, -⟩ := List.forall₂_cons_left_iff.1 hrow
  exact ⟨v, hc⟩

/-- Reading accepts the numerals, each with its number. -/
theorem integer?_eq_some_iff {s : List Char} {n : Int} : integer? s = some n ↔ Numeral s n := by
  have hsign : ∀ {c rest m}, digitValue? c = none → ¬Unsigned (c :: rest) m := by
    intro c rest m hc h
    obtain ⟨v, hv⟩ := h.exists_isDecimal
    exact not_isDecimal hc v hv
  constructor
  · intro h
    unfold integer? at h
    split at h
    · obtain ⟨m, hm, rfl⟩ := Option.map_eq_some_iff.1 h
      exact .plus (natural?_eq_some_iff.1 hm)
    · obtain ⟨m, hm, rfl⟩ := Option.map_eq_some_iff.1 h
      exact .minus (natural?_eq_some_iff.1 hm)
    · obtain ⟨m, hm, rfl⟩ := Option.map_eq_some_iff.1 h
      exact .unsigned (natural?_eq_some_iff.1 hm)
  · intro h
    cases h with
    | plus h => exact Option.map_eq_some_iff.2 ⟨_, natural?_eq_some_iff.2 h, rfl⟩
    | minus h => exact Option.map_eq_some_iff.2 ⟨_, natural?_eq_some_iff.2 h, rfl⟩
    | unsigned h =>
        rw [integer?]
        · exact Option.map_eq_some_iff.2 ⟨_, natural?_eq_some_iff.2 h, rfl⟩
        · intro rest heq
          rw [heq] at h
          exact hsign (by decide) h
        · intro rest heq
          rw [heq] at h
          exact hsign (by decide) h

-- ======================================================== decimal texts

theorem toList_toString (n : Nat) : (toString n).toList = Nat.toDigits 10 n := by
  show (Nat.repr n).toList = _
  rw [Nat.repr_eq_ofList_toDigits, String.toList_ofList]

theorem bounds_of_mem_toString {n : Nat} {c : Char} (h : c ∈ (toString n).toList) :
    48 ≤ c.toNat ∧ c.toNat ≤ 57 := by
  rw [toList_toString] at h
  have hdigit := Nat.isDigit_of_mem_toDigits (by decide) (by decide) h
  simp only [Char.isDigit, Bool.and_eq_true, decide_eq_true_eq] at hdigit
  exact hdigit

/-- The decimal text of a number denotes it, however it is spaced out. -/
theorem Spaced.unsigned {n : Nat} {s : List Char} (h : Spaced s (toString n).toList)
    (hlength : (toString n).length ≤ 4300) : Unsigned s n := by
  refine ⟨_, (toString n).toList.map fun c => c.toNat - 48, h, ?_, ?_, ?_⟩
  · rw [List.forall₂_map_right_iff, List.forall₂_same]
    intro c hc
    obtain ⟨hlow, hhigh⟩ := bounds_of_mem_toString hc
    exact ⟨by omega, 48, by decide, by omega⟩
  · rw [String.length_toList]
    exact hlength
  · rw [← ofDigits_eq, ofDigits, List.foldl_map, toList_toString]
    exact Nat.ofDigitChars_toDigits (by decide) (by decide)

/-- A number that can be written is read as that number. -/
theorem integer?_toString {n : Int} (h : isWritable n = true) :
    integer? (toString n).toList = some n := by
  have hunsigned : ∀ m : Nat, isWritable m = true → Unsigned (Nat.toDigits 10 m) m := by
    intro m hm
    rw [← toList_toString]
    refine (Spaced.refl ?_).unsigned ?_
    · rw [toList_toString]
      exact Nat.toDigits_ne_nil
    · rw [← String.length_toList, toList_toString]
      exact of_decide_eq_true hm
  rw [integer?_eq_some_iff]
  cases n with
  | ofNat m =>
      rw [toList_toString_natural]
      exact .unsigned (hunsigned m h)
  | negSucc m =>
      rw [toList_toString_negative]
      exact .minus (hunsigned (m + 1) h)

/-- A row that is spaced out keeps its ends. -/
theorem Spaced.ends {s row : List Char} (h : Spaced s row) :
    s.head? = row.head? ∧ s.getLast? = row.getLast? ∧ row ≠ [] := by
  induction h with
  | single c => simp
  | next c h ih =>
      obtain ⟨-, hlast, hne⟩ := ih
      simp [List.getLast?_cons, hlast]
  | gap c h ih =>
      obtain ⟨-, hlast, hne⟩ := ih
      obtain ⟨d, hd⟩ := Option.isSome_iff_exists.1 (List.getLast?_isSome.2 hne)
      simp [List.getLast?_cons, hlast, hd]

theorem Spaced.mem {s row : List Char} (h : Spaced s row) {c : Char} (hc : c ∈ s) :
    c = '_' ∨ c ∈ row := by
  induction h with
  | single d => exact .inr hc
  | next d _ ih =>
      rcases List.mem_cons.1 hc with rfl | hc
      · exact .inr (by simp)
      · exact (ih hc).imp_right (List.mem_cons_of_mem _)
  | gap d _ ih =>
      rcases List.mem_cons.1 hc with rfl | hc
      · exact .inr (by simp)
      · rcases List.mem_cons.1 hc with rfl | hc
        · exact .inl rfl
        · exact (ih hc).imp_right (List.mem_cons_of_mem _)

/-- A decimal text is what is left of it and of the blanks around it. -/
theorem Spaced.lowerCase_strip {n : Nat} {s : List Char} (h : Spaced s (toString n).toList)
    {before after : List Char} (hbefore : ∀ c ∈ before, isBlank c = true)
    (hafter : ∀ c ∈ after, isBlank c = true) :
    lowerCase (strip (before ++ s ++ after)) = s := by
  obtain ⟨hfirst, hlast, -⟩ := h.ends
  have htrimmed : IsTrimmed isBlank s := by
    constructor
    · intro c hc
      rw [hfirst] at hc
      obtain ⟨hlow, hhigh⟩ := bounds_of_mem_toString (List.mem_of_mem_head? hc)
      exact isBlank_of_visible (by omega) (by omega)
    · intro c hc
      rw [hlast] at hc
      obtain ⟨hlow, hhigh⟩ := bounds_of_mem_toString (List.mem_of_mem_getLast? hc)
      exact isBlank_of_visible (by omega) (by omega)
  have hchars : ∀ c ∈ s, c.toNat < 0x80 ∧ c.toLower = c := by
    intro c hc
    rcases h.mem hc with rfl | hc
    · decide
    · obtain ⟨hlow, hhigh⟩ := bounds_of_mem_toString hc
      exact ⟨by omega, toLower_of_not_upper (by omega)⟩
  rw [strip, trimBoth_surrounded hbefore hafter, htrimmed.trimBoth_eq,
    lowerCase_ascii fun c hc => (hchars c hc).1]
  exact (List.map_congr_left fun c hc => (hchars c hc).2).trans (List.map_id s)

end Text

namespace Settings

open Text

-- ============================================================= workers

/-- What counts of a typed text: blanks around it and the case of its
letters do not. -/
def word (text : String) : List Char :=
  lowerCase (strip text.toList)

/-- Is a number of workers asked for that there can be? -/
def AsksForWorkers (s : List Char) : Prop :=
  s = [] ∨ s = "auto".toList ∨ ∃ v, Numeral s v ∧ 0 < v

variable {text : String} {default limit : Int} {processors : Option Int}

theorem defaultWorkers_bounds (default : Int) (h : 1 ≤ limit) :
    1 ≤ defaultWorkers default limit ∧ defaultWorkers default limit ≤ limit := by
  unfold defaultWorkers
  omega

/-- An unknown number of processors and none at all count as one. -/
theorem autoWorkers_bounds (h : 1 ≤ limit) (hprocessors : ∀ n ∈ processors, 0 ≤ n) :
    1 ≤ autoWorkers processors limit ∧ autoWorkers processors limit ≤ limit := by
  unfold autoWorkers
  cases processors with
  | none =>
      show 1 ≤ min (1 * 2) limit ∧ min (1 * 2) limit ≤ limit
      omega
  | some n =>
      have hn := hprocessors n rfl
      show 1 ≤ min ((if n = 0 then 1 else n) * 2) limit
        ∧ min ((if n = 0 then 1 else n) * 2) limit ≤ limit
      split <;> omega

theorem workerCount_of_empty (h : word text = []) :
    workerCount (some text) default limit processors = .ok (defaultWorkers default limit) := by
  show (if (word text).isEmpty then _ else _) = _
  rw [h]
  rfl

theorem workerCount_of_auto (h : word text = "auto".toList) :
    workerCount (some text) default limit processors = .ok (autoWorkers processors limit) := by
  show (if (word text).isEmpty then _ else if word text = "auto".toList then _ else _) = _
  rw [h]
  rfl

/-- Neither of the two words without a number is a numeral. -/
theorem workerCount_of_numeral {v : Int} (h : Numeral (word text) v) :
    workerCount (some text) default limit processors
      = if v ≤ 0 then .error .workersNotPositive else .ok (min v limit) := by
  have hread := integer?_eq_some_iff.2 h
  have hne : (word text).isEmpty = false := by
    cases hword : word text with
    | nil =>
        rw [hword] at hread
        cases hread
    | cons c rest => rfl
  have hauto : word text ≠ "auto".toList := by
    intro hword
    have hnone : integer? "auto".toList = none := by decide
    rw [hword, hnone] at hread
    cases hread
  show (if (word text).isEmpty then _ else if word text = "auto".toList then _ else _) = _
  rw [hne, if_neg Bool.false_ne_true, if_neg hauto, ← word, hread]

theorem workerCount_of_other (hne : word text ≠ []) (hauto : word text ≠ "auto".toList)
    (h : ∀ v, ¬Numeral (word text) v) :
    workerCount (some text) default limit processors = .error (.malformedWorkers text) := by
  have hread : integer? (word text) = none := by
    cases hread : integer? (word text) with
    | none => rfl
    | some v => exact absurd (integer?_eq_some_iff.1 hread) (h v)
  show (if (word text).isEmpty then _ else if word text = "auto".toList then _ else _) = _
  rw [if_neg (by simpa using hne), if_neg hauto, ← word, hread]

/-- The four kinds of text there are. -/
theorem word_cases (text : String) :
    word text = [] ∨ word text = "auto".toList ∨ (∃ v, Numeral (word text) v)
      ∨ (word text ≠ [] ∧ word text ≠ "auto".toList ∧ ∀ v, ¬Numeral (word text) v) := by
  by_cases hempty : word text = []
  · exact .inl hempty
  · by_cases hauto : word text = "auto".toList
    · exact .inr (.inl hauto)
    · by_cases hnumeral : ∃ v, Numeral (word text) v
      · exact .inr (.inr (.inl hnumeral))
      · exact .inr (.inr (.inr ⟨hempty, hauto, not_exists.1 hnumeral⟩))

/-- There is always a worker, and never more than the limit. -/
theorem workerCount_bounds {n : Int} (hlimit : 1 ≤ limit) (hprocessors : ∀ m ∈ processors, 0 ≤ m)
    (h : workerCount (some text) default limit processors = .ok n) : 1 ≤ n ∧ n ≤ limit := by
  rcases word_cases text with hempty | hauto | ⟨v, hv⟩ | ⟨hne, hauto, hother⟩
  · rw [workerCount_of_empty hempty] at h
    obtain rfl := Except.ok.inj h
    exact defaultWorkers_bounds default hlimit
  · rw [workerCount_of_auto hauto] at h
    obtain rfl := Except.ok.inj h
    exact autoWorkers_bounds hlimit hprocessors
  · rw [workerCount_of_numeral hv] at h
    split at h
    · cases h
    · obtain rfl := Except.ok.inj h
      omega
  · rw [workerCount_of_other hne hauto hother] at h
    cases h

/-- The decimal text of a positive number is accepted, however it is
spaced out and whatever blanks are around it. -/
theorem workerCount_of_spaced {n : Nat} (hn : 1 ≤ n) (hlength : (toString n).length ≤ 4300)
    {before spaced after : List Char} (hbefore : ∀ c ∈ before, isBlank c = true)
    (hafter : ∀ c ∈ after, isBlank c = true) (hspaced : Spaced spaced (toString n).toList) :
    workerCount (some (String.ofList (before ++ spaced ++ after))) default limit processors
      = .ok (min (n : Int) limit) := by
  have hword : word (String.ofList (before ++ spaced ++ after)) = spaced := by
    rw [word, String.toList_ofList]
    exact hspaced.lowerCase_strip hbefore hafter
  have hnumeral : Numeral (word (String.ofList (before ++ spaced ++ after))) n := by
    rw [hword]
    exact .unsigned (hspaced.unsigned hlength)
  rw [workerCount_of_numeral hnumeral, if_neg (by omega)]

/-- A typed text gives a number of workers exactly if it is blank, `auto`
or a positive numeral, and the number is within the limits; a numeral
gives its own number up to the limit. What is not accepted is told apart:
a numeral that is not positive, and all else. So the decimal text of a
positive number is accepted, spaced out or not, with blanks around it or
not. -/
theorem workerCount_exact (text : String) (default limit : Int) (processors : Option Int)
    (hlimit : 1 ≤ limit) (hprocessors : ∀ n ∈ processors, 0 ≤ n) :
    ((∃ n, workerCount (some text) default limit processors = .ok n)
        ↔ AsksForWorkers (word text))
    ∧ (∀ n, workerCount (some text) default limit processors = .ok n → 1 ≤ n ∧ n ≤ limit)
    ∧ (∀ v, Numeral (word text) v → workerCount (some text) default limit processors
        = if v ≤ 0 then .error .workersNotPositive else .ok (min v limit))
    ∧ (¬AsksForWorkers (word text) → (∀ v, ¬Numeral (word text) v) →
        workerCount (some text) default limit processors = .error (.malformedWorkers text))
    ∧ ∀ n : Nat, 1 ≤ n → (toString n).length ≤ 4300 →
        ∀ before spaced after : List Char, (∀ c ∈ before, isBlank c = true) →
          (∀ c ∈ after, isBlank c = true) → Spaced spaced (toString n).toList →
          workerCount (some (String.ofList (before ++ spaced ++ after))) default limit processors
            = .ok (min (n : Int) limit) := by
  refine ⟨?_, fun n => workerCount_bounds hlimit hprocessors, fun v => workerCount_of_numeral,
    ?_, ?_⟩
  · constructor
    · intro h
      obtain ⟨n, hn⟩ := h
      rcases word_cases text with hempty | hauto | ⟨v, hv⟩ | ⟨hne, hauto, hother⟩
      · exact .inl hempty
      · exact .inr (.inl hauto)
      · rw [workerCount_of_numeral hv] at hn
        split at hn
        · cases hn
        · rename_i hpositive
          exact .inr (.inr ⟨v, hv, by omega⟩)
      · rw [workerCount_of_other hne hauto hother] at hn
        cases hn
    · intro h
      rcases h with hempty | hauto | ⟨v, hv, hpositive⟩
      · exact ⟨_, workerCount_of_empty hempty⟩
      · exact ⟨_, workerCount_of_auto hauto⟩
      · exact ⟨_, (workerCount_of_numeral hv).trans (if_neg (by omega))⟩
  · intro hnot hother
    exact workerCount_of_other (fun h => hnot (.inl h)) (fun h => hnot (.inr (.inl h))) hother
  · intro n hn hlength before spaced after hbefore hafter hspaced
    exact workerCount_of_spaced hn hlength hbefore hafter hspaced

/-- A number between blanks of two kinds, with an underscore in it, on a
machine that does not tell its processors; and a negative number in the
digits of another script. -/
theorem workerCount_spaced_twelve :
    workerCount (some "\u2003 1_2\t") 1 8 none = .ok 8
      ∧ workerCount (some "\u2003 1_2\t") 1 32 none = .ok 12
      ∧ Numeral (word " -\u0663") (-3)
      ∧ workerCount (some " -\u0663") 1 8 (some 0) = .error .workersNotPositive := by
  have hspaced := fun limit hlimit =>
    (workerCount_exact "" 1 limit none hlimit (by simp)).2.2.2.2 12 (by decide) (by decide)
      ['\u2003', ' '] ['1', '_', '2'] ['\t'] (List.all_eq_true.1 (by decide))
      (List.all_eq_true.1 (by decide)) (.gap '1' (.single '2'))
  have hword : word " -\u0663" = ['-', '\u0663'] := by decide
  have hthree : Unsigned ['\u0663'] 3 :=
    ⟨['\u0663'], [3], .single _, .cons ⟨by decide, 0x660, by decide, rfl⟩ .nil, by decide, rfl⟩
  have hnumeral : Numeral (word " -\u0663") (-3) := by
    rw [hword]
    exact .minus hthree
  exact ⟨hspaced 8 (by decide), hspaced 32 (by decide), hnumeral,
    (workerCount_exact " -\u0663" 1 8 (some 0) (by decide) (by simp)).2.2.1 (-3) hnumeral⟩

end Settings

end DocAudit
