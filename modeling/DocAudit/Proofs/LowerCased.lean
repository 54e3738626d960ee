/-
What lower-casing leaves.

A lower-cased text is made of characters that lower-casing leaves as they
are, wherever they stand (`IsLower`); so lower-casing it again changes
nothing, although the sigmas look at other neighbours then
(`lowerCase_lowerCase`). This rests on the table: what it leads to is not
looked up in it again, nor is it one of the two characters with rules of
their own. The table has some 1400 letters, and they are compared all at
once, as the bits of two numbers (`lowerRuns_disjoint`).

Nor does the table lead to a blank or to a margin, so a text without them
at its ends keeps that property (`isTrimmed_lowerCase`).
-/
import DocAudit.Proofs.LowerCasing

namespace DocAudit.Text

-- ========================================================== the table

/-- The letters that a run of the table is about. -/
def runLetters (run : Nat × Nat × Nat × Nat) : List Nat :=
  (List.range ((run.2.1 - run.1) / run.2.2.1 + 1)).map fun i => run.1 + run.2.2.1 * i

/-- The lower-case letters that it leads to. -/
def runTargets (run : Nat × Nat × Nat × Nat) : List Nat :=
  (List.range ((run.2.1 - run.1) / run.2.2.1 + 1)).map fun i => run.2.2.2 + run.2.2.1 * i

/-- A set of code points as the bits of one number. -/
def bitSet (ns : List Nat) : Nat :=
  ns.foldr (fun n set => 1 <<< n ||| set) 0

theorem testBit_bitSet {ns : List Nat} {n : Nat} (h : n ∈ ns) : (bitSet ns).testBit n = true := by
  induction ns with
  | nil => cases h
  | cons m rest ih =>
      show (1 <<< m ||| bitSet rest).testBit n = true
      rw [Nat.testBit_or]
      rcases List.mem_cons.1 h with rfl | h
      · simp [Nat.testBit_shiftLeft]
      · rw [ih h, Bool.or_true]

theorem lowerRuns_disjoint :
    bitSet (0x130 :: 0x3a3 :: lowerRuns.flatMap runLetters)
      &&& bitSet (lowerRuns.flatMap runTargets) = 0 := by
  decide +kernel

theorem mem_runs_of_lowerCodePoint? {n m : Nat} (h : lowerCodePoint? n = some m) :
    n ∈ lowerRuns.flatMap runLetters ∧ m ∈ lowerRuns.flatMap runTargets := by
  obtain ⟨first, last, step, target, hrun, hfirst, hlast, hstep, rfl⟩ :=
    exists_run_of_lowerCodePoint? h
  have hplace : (n - first) / step < (last - first) / step + 1 :=
    Nat.lt_succ_of_le (Nat.div_le_div_right (by omega))
  have hexact : step * ((n - first) / step) = n - first :=
    Nat.mul_div_cancel' (Nat.dvd_of_mod_eq_zero hstep)
  constructor
  · refine List.mem_flatMap.2 ⟨_, hrun, List.mem_map.2 ⟨_, List.mem_range.2 hplace, ?_⟩⟩
    show first + step * ((n - first) / step) = n
    omega
  · refine List.mem_flatMap.2 ⟨_, hrun, List.mem_map.2 ⟨_, List.mem_range.2 hplace, ?_⟩⟩
    show target + step * ((n - first) / step) = target + (n - first)
    omega

/-- A lower-case letter of the table has no further one, nor a rule of its
own. -/
theorem lowerCodePoint?_of_lowered {n m : Nat} (h : lowerCodePoint? n = some m) :
    m ≠ 0x130 ∧ m ≠ 0x3a3 ∧ lowerCodePoint? m = none := by
  have hnot : m ∉ 0x130 :: 0x3a3 :: lowerRuns.flatMap runLetters := by
    intro hletter
    have hboth := Nat.testBit_and (bitSet (0x130 :: 0x3a3 :: lowerRuns.flatMap runLetters))
      (bitSet (lowerRuns.flatMap runTargets)) m
    rw [lowerRuns_disjoint, testBit_bitSet hletter,
      testBit_bitSet (mem_runs_of_lowerCodePoint? h).2, Nat.zero_testBit] at hboth
    cases hboth
  rw [List.mem_cons, List.mem_cons, not_or, not_or] at hnot
  obtain ⟨hdot, hsigma, hletters⟩ := hnot
  refine ⟨hdot, hsigma, ?_⟩
  cases hagain : lowerCodePoint? m with
  | none => rfl
  | some m' => exact absurd (mem_runs_of_lowerCodePoint? hagain).1 hletters

-- ====================================================== one character

/-- A letter stays, is an ASCII capital, or is in the table. -/
theorem lowerLetter_cases (c : Char) :
    lowerLetter c = c
      ∨ (0x41 ≤ c.toNat ∧ c.toNat ≤ 0x5a ∧ (lowerLetter c).toNat = c.toNat + 32)
      ∨ ∃ m, lowerCodePoint? c.toNat = some m ∧ (lowerLetter c).toNat = m := by
  by_cases hascii : c.toNat < 0x80
  · rw [lowerLetter_ascii hascii]
    by_cases hupper : 0x41 ≤ c.toNat ∧ c.toNat ≤ 0x5a
    · exact .inr (.inl ⟨hupper.1, hupper.2, toNat_toLower_of_upper hupper⟩)
    · exact .inl (toLower_of_not_upper hupper)
  · rw [lowerLetter, if_neg hascii]
    cases htable : lowerCodePoint? c.toNat with
    | none => exact .inl rfl
    | some m => exact .inr (.inr ⟨m, rfl, toNat_ofNat (of_lowerCodePoint? htable).2⟩)

/-- The characters that the two rules of their own lead to. -/
def ruledTargets : List Char :=
  ['i', '\u0307', '\u03c2', '\u03c3']

/-- What a character becomes is told by one of these rules or by its
letter. -/
theorem of_mem_lowerAt {c d : Char} {before after : List Char} (h : d ∈ lowerAt before c after) :
    d ∈ ruledTargets ∨ (c ≠ '\u0130' ∧ c ≠ '\u03a3' ∧ d = lowerLetter c) := by
  unfold lowerAt at h
  split at h
  · exact .inl (List.mem_append_left ['\u03c2', '\u03c3'] h)
  · split at h
    · rw [List.mem_singleton] at h
      rw [h]
      split
      · exact .inl (by decide)
      · exact .inl (by decide)
    · rename_i hdot hsigma
      exact .inr ⟨hdot, hsigma, List.mem_singleton.1 h⟩

/-- Every character becomes something. -/
theorem lowerAt_ne_nil (before : List Char) (c : Char) (after : List Char) :
    lowerAt before c after ≠ [] := by
  unfold lowerAt
  split
  · simp
  · split <;> simp

-- ==================================================== a second time

/-- A character that lower-casing leaves as it is, wherever it stands. -/
def IsLower (c : Char) : Prop :=
  ∀ before after, lowerAt before c after = [c]

theorem isLower_of_lowerLetter {c : Char} (hdot : c ≠ '\u0130') (hsigma : c ≠ '\u03a3')
    (h : lowerLetter c = c) : IsLower c := by
  intro before after
  rw [lowerAt, if_neg hdot, if_neg hsigma, h]

theorem isLower_ascii {c : Char} (hlow : 0x5a < c.toNat) (hhigh : c.toNat < 0x80) :
    IsLower c := by
  intro before after
  rw [lowerAt_ascii hhigh, toLower_of_not_upper (by omega)]

theorem isLower_lowerLetter {c : Char} (hdot : c ≠ '\u0130') (hsigma : c ≠ '\u03a3') :
    IsLower (lowerLetter c) := by
  rcases lowerLetter_cases c with hsame | ⟨hlow, hhigh, hnumber⟩ | ⟨m, htable, hnumber⟩
  · rw [hsame]
    exact isLower_of_lowerLetter hdot hsigma hsame
  · exact isLower_ascii (by omega) (by omega)
  · obtain ⟨hletter, -⟩ := of_lowerCodePoint? htable
    obtain ⟨hnoDot, hnoSigma, hlast⟩ := lowerCodePoint?_of_lowered htable
    by_cases hascii : m < 0x80
    · exact isLower_ascii (by omega) (by omega)
    · refine isLower_of_lowerLetter ?_ ?_ ?_
      · intro heq
        rw [heq] at hnumber
        exact hnoDot hnumber.symm
      · intro heq
        rw [heq] at hnumber
        exact hnoSigma hnumber.symm
      · generalize lowerLetter c = d at hnumber
        rw [lowerLetter, hnumber, if_neg hascii, hlast]

theorem isLower_of_mem_lowerAt {c d : Char} {before after : List Char}
    (h : d ∈ lowerAt before c after) : IsLower d := by
  rcases of_mem_lowerAt h with hruled | ⟨hdot, hsigma, rfl⟩
  · have hplain : (ruledTargets.all fun d => d ≠ '\u0130' && d ≠ '\u03a3' && lowerLetter d = d)
        = true := by
      decide
    have hd := List.all_eq_true.1 hplain d hruled
    simp only [Bool.and_eq_true, decide_eq_true_eq] at hd
    exact isLower_of_lowerLetter hd.1.1 hd.1.2 hd.2
  · exact isLower_lowerLetter hdot hsigma

theorem isLower_of_mem_lowerFrom {d : Char} {before s : List Char}
    (h : d ∈ lowerFrom [] before s) : IsLower d := by
  induction s generalizing before with
  | nil => cases h
  | cons c after ih =>
      rw [lowerFrom_cons, List.mem_append] at h
      rcases h with h | h
      · exact isLower_of_mem_lowerAt h
      · exact ih h

theorem lowerFrom_of_isLower {s : List Char} (h : ∀ c ∈ s, IsLower c) (before : List Char) :
    lowerFrom [] before s = s := by
  induction s generalizing before with
  | nil => rfl
  | cons c after ih =>
      obtain ⟨hc, hafter⟩ := List.forall_mem_cons.1 h
      rw [lowerFrom_cons, hc, ih hafter]
      rfl

/-- Lower-casing a second time changes nothing. -/
theorem lowerCase_lowerCase (s : List Char) : lowerCase (lowerCase s) = lowerCase s :=
  lowerFrom_of_isLower (fun _ hd => isLower_of_mem_lowerFrom hd) []

-- ==================================================== blanks and margins

/-- The table leads to no blank. -/
theorem lowerRuns_blankRanges :
    ∀ run ∈ lowerRuns, ∀ r ∈ blankRanges,
      run.2.2.2 + (run.2.1 - run.1) < r.1 ∨ r.2 < run.2.2.2 := by
  set_option maxRecDepth 4000 in decide

theorem isBlank_lowerLetter {c : Char} (h : isBlank c = false) :
    isBlank (lowerLetter c) = false := by
  rcases lowerLetter_cases c with hsame | ⟨hlow, hhigh, hnumber⟩ | ⟨m, htable, hnumber⟩
  · rw [hsame]
    exact h
  · exact isBlank_of_visible (by omega) (by omega)
  · obtain ⟨first, last, step, target, hrun, hfirst, hlast, -, rfl⟩ :=
      exists_run_of_lowerCodePoint? htable
    apply isBlank_eq_false
    intro r hr
    have hapart := lowerRuns_blankRanges _ hrun r hr
    simp only at hapart
    omega

theorem isBlank_of_mem_lowerAt {c d : Char} {before after : List Char} (hc : isBlank c = false)
    (h : d ∈ lowerAt before c after) : isBlank d = false := by
  rcases of_mem_lowerAt h with hruled | ⟨-, -, rfl⟩
  · have hplain : (ruledTargets.all fun d => !isBlank d) = true := by decide
    simpa using List.all_eq_true.1 hplain d hruled
  · exact isBlank_lowerLetter hc

/-- A lower-cased text begins with what its first character became. -/
theorem head?_lowerFrom {d : Char} {before s : List Char}
    (h : (lowerFrom [] before s).head? = some d) :
    ∃ c after, s.head? = some c ∧ d ∈ lowerAt before c after := by
  cases s with
  | nil => cases h
  | cons c after =>
      obtain ⟨e, more, hfirst⟩ := List.exists_cons_of_ne_nil (lowerAt_ne_nil before c after)
      rw [lowerFrom_cons, hfirst] at h
      obtain rfl : e = d := Option.some.inj h
      exact ⟨c, after, rfl, by simp [hfirst]⟩

/-- It ends with what its last character became. -/
theorem getLast?_lowerFrom {d : Char} {before s : List Char}
    (h : (lowerFrom [] before s).getLast? = some d) :
    ∃ past c after, s.getLast? = some c ∧ d ∈ lowerAt past c after := by
  induction s generalizing before with
  | nil => cases h
  | cons c rest ih =>
      rw [lowerFrom_cons, List.getLast?_append] at h
      cases hlast : (lowerFrom [] (c :: before) rest).getLast? with
      | some e =>
          rw [hlast, Option.some_or] at h
          obtain ⟨past, c', after, hc', hd⟩ := ih (hlast.trans h)
          exact ⟨past, c', after, by rw [List.getLast?_cons, hc', Option.getD_some], hd⟩
      | none =>
          -- nothing was written behind this character, so it was the last
          rw [hlast, Option.none_or] at h
          cases rest with
          | nil => exact ⟨before, c, [], rfl, List.mem_of_getLast? h⟩
          | cons c' rest =>
              rw [lowerFrom_cons, List.getLast?_eq_none_iff, List.append_eq_nil_iff] at hlast
              exact absurd hlast.1 (lowerAt_ne_nil _ _ _)

/-- A class of characters that lower-casing does not lead into stays away
from the ends of a text. -/
theorem isTrimmed_lowerCase {p : Char → Bool}
    (hp : ∀ {c d : Char} {before after : List Char}, p c = false →
      d ∈ lowerAt before c after → p d = false)
    {s : List Char} (h : IsTrimmed p s) : IsTrimmed p (lowerCase s) where
  first := by
    intro d hd
    obtain ⟨c, after, hc, hmem⟩ := head?_lowerFrom hd
    exact hp (h.first c hc) hmem
  last := by
    intro d hd
    obtain ⟨past, c, after, hc, hmem⟩ := getLast?_lowerFrom hd
    exact hp (h.last c hc) hmem

/-- Lower-casing puts no blank at the ends of a text. -/
theorem IsTrimmed.lowerCase {s : List Char} (h : IsTrimmed isBlank s) :
    IsTrimmed isBlank (lowerCase s) :=
  isTrimmed_lowerCase isBlank_of_mem_lowerAt h

/-- A margin comes of nothing but itself. -/
theorem isLineMargin_of_mem_lowerAt {c d : Char} {before after : List Char}
    (hc : isLineMargin c = false) (h : d ∈ lowerAt before c after) : isLineMargin d = false := by
  apply Bool.eq_false_iff.2
  intro hd
  have hlow : d.toNat ≤ 0x20 := by simpa [isLineMargin] using hd
  rw [eq_of_mem_lowerAt (by omega) h, hd] at hc
  cases hc

end DocAudit.Text
