/-
Lower-casing in pieces. Only the sigma looks at its neighbours, and what
it sees of them is whether the nearest one that is not passed over is a
letter with case (`meetsCased`). So a text may be cut wherever neither
side sees a letter of the other: at a character that is no letter and is
not passed over, such as a margin (`lowerCase_boundary`).

Of the characters themselves two things are told: ASCII letters become
what `Char.toLower` makes of them, and nothing becomes a character below
the letters but that character itself, which rests on the bounds of the
table (`lowerRuns_targets`). The two cases of an ASCII letter look alike to
a search, so a text may change them and is the same in lower case
(`lowerFrom_congr_ascii`).
-/
import DocAudit.Proofs.Decoding
import DocAudit.Text.Blank
import DocAudit.Text.LowerCase

namespace DocAudit.Text

-- ======================================================= one character

/-- The table leads to letters, and to code points of characters. -/
theorem lowerRuns_targets :
    ∀ run ∈ lowerRuns, 0x60 < run.2.2.2
      ∧ (run.2.2.2 + (run.2.1 - run.1) < 0xd800
        ∨ 0xdfff < run.2.2.2 ∧ run.2.2.2 + (run.2.1 - run.1) < 0x110000) := by
  set_option maxRecDepth 4000 in decide

/-- A letter of the table and its lower-case letter stand equally far into
a run. -/
theorem exists_run_of_lowerCodePoint? {n m : Nat} (h : lowerCodePoint? n = some m) :
    ∃ first last step target, (first, last, step, target) ∈ lowerRuns
      ∧ first ≤ n ∧ n ≤ last ∧ (n - first) % step = 0 ∧ m = target + (n - first) := by
  obtain ⟨⟨first, last, step, target⟩, hrun, hm⟩ := List.exists_of_findSome?_eq_some h
  simp only at hm
  split at hm
  · rename_i hrange
    simp only [Bool.and_eq_true, decide_eq_true_eq, beq_iff_eq] at hrange
    exact ⟨first, last, step, target, hrun, hrange.1.1, hrange.1.2, hrange.2,
      (Option.some.inj hm).symm⟩
  · cases hm

theorem of_lowerCodePoint? {n m : Nat} (h : lowerCodePoint? n = some m) :
    0x60 < m ∧ m.isValidChar := by
  obtain ⟨first, last, step, target, hrun, hfirst, hlast, -, rfl⟩ :=
    exists_run_of_lowerCodePoint? h
  obtain ⟨hletter, hvalid⟩ := lowerRuns_targets _ hrun
  simp only at hletter hvalid
  refine ⟨by omega, ?_⟩
  rcases hvalid with hlow | ⟨habove, hbelow⟩
  · exact Or.inl (by omega)
  · exact Or.inr ⟨by omega, by omega⟩

theorem toLower_of_not_upper {c : Char} (h : ¬(0x41 ≤ c.toNat ∧ c.toNat ≤ 0x5a)) :
    c.toLower = c :=
  dif_neg h

theorem toNat_toLower_of_upper {c : Char} (h : 0x41 ≤ c.toNat ∧ c.toNat ≤ 0x5a) :
    c.toLower.toNat = c.toNat + 32 := by
  have hval : c.val ≥ 'A'.val ∧ c.val ≤ 'Z'.val := h
  have hsmall : c.val.toNat ≤ 0x5a := h.2
  have hlower : c.toLower.val = c.val + 32 := congrArg Char.val (dif_pos hval)
  show c.toLower.val.toNat = c.val.toNat + 32
  rw [hlower, UInt32.toNat_add]
  show (c.val.toNat + 32) % 4294967296 = c.val.toNat + 32
  omega

theorem lowerLetter_ascii {c : Char} (h : c.toNat < 0x80) : lowerLetter c = c.toLower := by
  unfold lowerLetter
  rw [if_pos h]
  by_cases hupper : 0x41 ≤ c.toNat ∧ c.toNat ≤ 0x5a
  · rw [if_pos (by simpa using hupper)]
    apply Char.toNat_inj.1
    rw [toNat_ofNat (Or.inl (by omega)), toNat_toLower_of_upper hupper]
  · rw [if_neg (by simpa using hupper), toLower_of_not_upper hupper]

/-- ASCII characters do not look around. -/
theorem lowerAt_ascii {c : Char} (h : c.toNat < 0x80) (before after : List Char) :
    lowerAt before c after = [c.toLower] := by
  have hdot : c ≠ '\u0130' := by
    intro heq
    rw [heq] at h
    exact absurd h (by decide)
  have hsigma : c ≠ '\u03a3' := by
    intro heq
    rw [heq] at h
    exact absurd h (by decide)
  rw [lowerAt, if_neg hdot, if_neg hsigma, lowerLetter_ascii h]

/-- Nothing but itself becomes a character below the letters. -/
theorem eq_of_lowerLetter {c d : Char} (hd : d.toNat < 0x41) (h : lowerLetter c = d) : c = d := by
  unfold lowerLetter at h
  split at h
  · split at h
    · rename_i hascii hupper
      simp only [Bool.and_eq_true, decide_eq_true_eq] at hupper
      rw [← h, toNat_ofNat (Or.inl (by omega))] at hd
      omega
    · exact h
  · split at h
    · rename_i m hm
      obtain ⟨hletter, hvalid⟩ := of_lowerCodePoint? hm
      rw [← h, toNat_ofNat hvalid] at hd
      omega
    · exact h

theorem eq_of_mem_lowerAt {c d : Char} (hd : d.toNat < 0x41) {before after : List Char}
    (h : d ∈ lowerAt before c after) : c = d := by
  unfold lowerAt at h
  split at h
  · -- `i` and the combining dot stand above the bound
    have hhigh : ['i', '\u0307'].all (fun x => 0x41 ≤ x.toNat) = true := by decide
    have hle : 0x41 ≤ d.toNat := by simpa using List.all_eq_true.1 hhigh d h
    omega
  · split at h
    · have hhigh : 0x41 ≤ d.toNat := by
        rw [List.mem_singleton.1 h]
        split <;> decide
      omega
    · exact eq_of_lowerLetter hd (List.mem_singleton.1 h).symm

/-- No range of a table holds a code point below all of them. -/
theorem inRanges_eq_false {ranges : List (Nat × Nat)} {bound n : Nat}
    (hranges : ∀ r ∈ ranges, bound < r.1) (hn : n ≤ bound) : inRanges ranges n = false := by
  by_cases h : inRanges ranges n = true
  · obtain ⟨r, hr, hle, -⟩ := inRanges_iff.1 h
    have hlt := hranges r hr
    omega
  · exact Bool.eq_false_iff.2 h

theorem caseIgnorableRanges_above : ∀ r ∈ caseIgnorableRanges, 0x20 < r.1 := by
  set_option maxRecDepth 4000 in decide

theorem casedRanges_above : ∀ r ∈ casedRanges, 0x20 < r.1 := by
  set_option maxRecDepth 4000 in decide

/-- A margin is no letter, is not passed over and stays as it is. -/
theorem of_isLineMargin {c : Char} (h : isLineMargin c = true) :
    isCaseIgnorable c = false ∧ isCased c = false
      ∧ ∀ before after, lowerAt before c after = [c] := by
  have hmargin : c.toNat ≤ 0x20 := by simpa [isLineMargin] using h
  refine ⟨inRanges_eq_false caseIgnorableRanges_above hmargin,
    inRanges_eq_false casedRanges_above hmargin, ?_⟩
  intro before after
  rw [lowerAt_ascii (by omega), toLower_of_not_upper (by omega)]

-- ============================================================= context

theorem meetsCased_cons (c : Char) (s : List Char) :
    meetsCased (c :: s) = if isCaseIgnorable c then meetsCased s else isCased c := by
  unfold meetsCased
  rw [List.find?_cons]
  cases isCaseIgnorable c <;> rfl

/-- What lies beyond a text is seen from it only as a letter met first. -/
theorem meetsCased_append {t : List Char} (h : meetsCased t = false) (s : List Char) :
    meetsCased (s ++ t) = meetsCased s := by
  induction s with
  | nil => exact h
  | cons c s ih => rw [List.cons_append, meetsCased_cons, meetsCased_cons, ih]

/-- The sigma alone looks around, and sees no more than `meetsCased`
says. -/
theorem lowerAt_congr {before before' after after' : List Char}
    (hbefore : meetsCased before = meetsCased before')
    (hafter : meetsCased after = meetsCased after') (c : Char) :
    lowerAt before c after = lowerAt before' c after' := by
  unfold lowerAt
  rw [hbefore, hafter]

/-- Two pasts that look alike to a sigma have the same continuation. -/
theorem lowerFrom_congr {before before' : List Char}
    (h : meetsCased before = meetsCased before') (s : List Char) :
    lowerFrom [] before s = lowerFrom [] before' s := by
  induction s generalizing before before' with
  | nil => rfl
  | cons c after ih =>
      have hnext : meetsCased (c :: before) = meetsCased (c :: before') := by
        rw [meetsCased_cons, meetsCased_cons, h]
      rw [lowerFrom_cons, lowerFrom_cons, lowerAt_congr h rfl, ih hnext]

/-- A text is lower-cased by itself if no letter is met behind it. -/
theorem lowerFrom_append {t : List Char} (h : meetsCased t = false) (before s : List Char) :
    lowerFrom [] before (s ++ t)
      = lowerFrom [] before s ++ lowerFrom [] (s.reverse ++ before) t := by
  induction s generalizing before with
  | nil => rfl
  | cons c after ih =>
      rw [List.cons_append, lowerFrom_cons, lowerFrom_cons, ih, List.append_assoc,
        lowerAt_congr rfl (meetsCased_append h after)]
      simp

-- ======================================================== whole texts

/-- Margins may be taken out of lower-casing: both sides of one are
lower-cased by themselves. -/
theorem lowerCase_boundary {c : Char} (h : isLineMargin c = true) (s t : List Char) :
    lowerCase (s ++ c :: t) = lowerCase s ++ c :: lowerCase t := by
  obtain ⟨hignorable, hcased, hplain⟩ := of_isLineMargin h
  have hunseen : ∀ u, meetsCased (c :: u) = false := by
    intro u
    rw [meetsCased_cons, hignorable, hcased]
    rfl
  unfold lowerCase
  rw [lowerFrom_append (hunseen t), lowerFrom_cons, hplain,
    lowerFrom_congr ((hunseen _).trans rfl : _ = meetsCased [])]
  rfl

theorem lowerCase_append_margins {m : List Char} (h : ∀ c ∈ m, isLineMargin c = true)
    (s : List Char) : lowerCase (s ++ m) = lowerCase s ++ m := by
  induction m generalizing s with
  | nil => rw [List.append_nil, List.append_nil]
  | cons c m ih =>
      obtain ⟨hc, hm⟩ := List.forall_mem_cons.1 h
      have hrest : lowerCase m = m := ih hm []
      rw [lowerCase_boundary hc, hrest]

theorem lowerCase_margins_append {m : List Char} (h : ∀ c ∈ m, isLineMargin c = true)
    (s : List Char) : lowerCase (m ++ s) = m ++ lowerCase s := by
  induction m with
  | nil => rfl
  | cons c m ih =>
      obtain ⟨hc, hm⟩ := List.forall_mem_cons.1 h
      have hfirst : lowerCase (c :: (m ++ s)) = c :: lowerCase (m ++ s) :=
        lowerCase_boundary hc [] (m ++ s)
      rw [List.cons_append, hfirst, ih hm, List.cons_append]

theorem lowerFrom_ascii {s : List Char} (h : ∀ c ∈ s, c.toNat < 0x80) (before : List Char) :
    lowerFrom [] before s = s.map Char.toLower := by
  induction s generalizing before with
  | nil => rfl
  | cons c after ih =>
      obtain ⟨hc, hafter⟩ := List.forall_mem_cons.1 h
      rw [lowerFrom_cons, lowerAt_ascii hc, ih hafter]
      rfl

/-- ASCII texts are lower-cased letter by letter. -/
theorem lowerCase_ascii {s : List Char} (h : ∀ c ∈ s, c.toNat < 0x80) :
    lowerCase s = s.map Char.toLower :=
  lowerFrom_ascii h []

-- ================================================== case within ASCII

theorem caseIgnorableRanges_letters :
    ∀ r ∈ caseIgnorableRanges,
      (r.2 < 0x41 ∨ 0x5a < r.1) ∧ (r.2 < 0x61 ∨ 0x7a < r.1) := by
  set_option maxRecDepth 4000 in decide

/-- ASCII letters are not passed over, in either case. -/
theorem isCaseIgnorable_letter {c : Char}
    (h : 0x41 ≤ c.toNat ∧ c.toNat ≤ 0x5a ∨ 0x61 ≤ c.toNat ∧ c.toNat ≤ 0x7a) :
    isCaseIgnorable c = false := by
  apply Bool.eq_false_iff.2
  intro hc
  obtain ⟨r, hr, hlow, hhigh⟩ := inRanges_iff.1 hc
  have hapart := caseIgnorableRanges_letters r hr
  omega

theorem isCased_letter {c : Char}
    (h : 0x41 ≤ c.toNat ∧ c.toNat ≤ 0x5a ∨ 0x61 ≤ c.toNat ∧ c.toNat ≤ 0x7a) :
    isCased c = true := by
  apply inRanges_iff.2
  rcases h with h | h
  · exact ⟨(0x41, 0x5a), by simp [casedRanges], h⟩
  · exact ⟨(0x61, 0x7a), by simp [casedRanges], h⟩

/-- To a search, the two cases of an ASCII letter look alike. -/
theorem searched_toLower (c : Char) :
    isCaseIgnorable c.toLower = isCaseIgnorable c ∧ isCased c.toLower = isCased c := by
  by_cases hupper : 0x41 ≤ c.toNat ∧ c.toNat ≤ 0x5a
  · have hnumber := toNat_toLower_of_upper hupper
    have hlower : 0x61 ≤ c.toLower.toNat ∧ c.toLower.toNat ≤ 0x7a := by omega
    rw [isCaseIgnorable_letter (.inl hupper), isCaseIgnorable_letter (.inr hlower),
      isCased_letter (.inl hupper), isCased_letter (.inr hlower)]
    exact ⟨rfl, rfl⟩
  · rw [toLower_of_not_upper hupper]
    exact ⟨rfl, rfl⟩

theorem meetsCased_map_toLower (s : List Char) :
    meetsCased (s.map Char.toLower) = meetsCased s := by
  induction s with
  | nil => rfl
  | cons c s ih =>
      obtain ⟨hignorable, hcased⟩ := searched_toLower c
      rw [List.map_cons, meetsCased_cons, meetsCased_cons, hignorable, hcased, ih]

theorem lowerAt_toLower (before : List Char) (c : Char) (after : List Char) :
    lowerAt before c.toLower after = lowerAt before c after := by
  by_cases hupper : 0x41 ≤ c.toNat ∧ c.toNat ≤ 0x5a
  · have hnumber := toNat_toLower_of_upper hupper
    rw [lowerAt_ascii (by omega), lowerAt_ascii (by omega), toLower_of_not_upper (by omega)]
  · rw [toLower_of_not_upper hupper]

theorem lowerFrom_map_toLower (before s : List Char) :
    lowerFrom [] (before.map Char.toLower) (s.map Char.toLower) = lowerFrom [] before s := by
  induction s generalizing before with
  | nil => rfl
  | cons c after ih =>
      rw [List.map_cons, lowerFrom_cons, lowerFrom_cons, lowerAt_toLower,
        lowerAt_congr (meetsCased_map_toLower before) (meetsCased_map_toLower after)]
      exact congrArg (lowerAt before c after ++ ·) (ih (c :: before))

/-- The case of ASCII letters makes no difference to a text in lower case,
from any point of the text on. -/
theorem lowerFrom_congr_ascii {before s t : List Char}
    (h : s.map Char.toLower = t.map Char.toLower) :
    lowerFrom [] before s = lowerFrom [] before t := by
  rw [← lowerFrom_map_toLower before s, h, lowerFrom_map_toLower]

-- ===================================================== what is brought in

theorem mem_of_mem_lowerFrom {d : Char} (hd : d.toNat < 0x41) {before s : List Char}
    (h : d ∈ lowerFrom [] before s) : d ∈ s := by
  induction s generalizing before with
  | nil => exact h
  | cons c after ih =>
      rw [lowerFrom_cons, List.mem_append] at h
      rcases h with h | h
      · rw [eq_of_mem_lowerAt hd h]
        exact List.mem_cons_self ..
      · exact List.mem_cons_of_mem _ (ih h)

/-- A character below the letters is in a lower-cased text only if it was
in the text. -/
theorem mem_of_mem_lowerCase {d : Char} (hd : d.toNat < 0x41) {s : List Char}
    (h : d ∈ lowerCase s) : d ∈ s :=
  mem_of_mem_lowerFrom hd h

end DocAudit.Text
