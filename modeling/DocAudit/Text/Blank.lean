/-
Trimming. Two sets of characters are cut off the ends of a text: the
blanks, which surround what people type on a command line, and the
characters up to the space, which surround a line of source text. The
two differ: U+0000 is no blank, and U+00A0 is no more than a letter to a
source line.
-/
import DocAudit.Text.Ranges

namespace DocAudit.Text

/-- The blanks: white space of every script. -/
def blankRanges : List (Nat × Nat) :=
  [(0x09, 0x0d), (0x1c, 0x20), (0x85, 0x85), (0xa0, 0xa0), (0x1680, 0x1680), (0x2000, 0x200a),
   (0x2028, 0x2029), (0x202f, 0x202f), (0x205f, 0x205f), (0x3000, 0x3000)]

/-- White space of any script. -/
def isBlank (c : Char) : Bool :=
  inRanges blankRanges c.toNat

/-- A character outside all ranges is no blank. -/
theorem isBlank_eq_false {c : Char} (h : ∀ r ∈ blankRanges, c.toNat < r.1 ∨ r.2 < c.toNat) :
    isBlank c = false := by
  apply Bool.eq_false_iff.2
  intro hblank
  obtain ⟨r, hr, hlow, hhigh⟩ := inRanges_iff.1 hblank
  have houtside := h r hr
  omega

/-- The visible characters of ASCII are no blanks. -/
theorem isBlank_of_visible {c : Char} (hlow : 0x20 < c.toNat) (hhigh : c.toNat < 0x7f) :
    isBlank c = false := by
  have hranges : ∀ r ∈ blankRanges, r.2 ≤ 0x20 ∨ 0x7f ≤ r.1 := by decide
  apply isBlank_eq_false
  intro r hr
  have hapart := hranges r hr
  omega

/-- Controls up to U+001F, and the space. -/
def isLineMargin (c : Char) : Bool :=
  c.toNat ≤ 0x20

/-- Cuts the characters of a class off both ends. -/
def trimBoth (p : Char → Bool) (s : List Char) : List Char :=
  ((s.dropWhile p).reverse.dropWhile p).reverse

/-- A text without the blanks around it. -/
def strip (s : List Char) : List Char :=
  trimBoth isBlank s

/-- A source line without its margins. -/
def trimMargins (s : List Char) : List Char :=
  trimBoth isLineMargin s

-- ================================================== what trimming leaves

/-- Has a text no character of a class at either end? -/
structure IsTrimmed (p : Char → Bool) (s : List Char) : Prop where
  first : ∀ c ∈ s.head?, p c = false
  last : ∀ c ∈ s.getLast?, p c = false

section

variable {p : Char → Bool} {s : List Char}

theorem dropWhile_of_head? (h : ∀ c ∈ s.head?, p c = false) : s.dropWhile p = s := by
  cases s with
  | nil => rfl
  | cons c rest => exact List.dropWhile_cons_of_neg (by simp [h c rfl])

theorem head?_dropWhile {c : Char} (h : (s.dropWhile p).head? = some c) : p c = false := by
  have hfirst := List.head?_dropWhile_not p s
  rw [h] at hfirst
  exact hfirst

/-- A trimmed text stays as it is. -/
theorem IsTrimmed.trimBoth_eq (h : IsTrimmed p s) : trimBoth p s = s := by
  have hlast : ∀ c ∈ s.reverse.head?, p c = false := by
    rw [List.head?_reverse]
    exact h.last
  rw [trimBoth, dropWhile_of_head? h.first, dropWhile_of_head? hlast, List.reverse_reverse]

/-- Trimming leaves a trimmed text. -/
theorem isTrimmed_trimBoth (p : Char → Bool) (s : List Char) : IsTrimmed p (trimBoth p s) where
  first := by
    intro c hc
    -- what is cut off the end leaves the first character in its place
    obtain ⟨cut, hcut⟩ := List.dropWhile_suffix p (l := (s.dropWhile p).reverse)
    have hwhole : s.dropWhile p = trimBoth p s ++ cut.reverse := by
      rw [trimBoth, ← List.reverse_append, hcut, List.reverse_reverse]
    apply head?_dropWhile (s := s)
    rw [hwhole, List.head?_append, Option.mem_def.1 hc, Option.some_or]
  last := by
    intro c hc
    rw [trimBoth, List.getLast?_reverse] at hc
    exact head?_dropWhile hc

theorem trimBoth_append_left {l : List Char} (h : ∀ c ∈ l, p c = true) (s : List Char) :
    trimBoth p (l ++ s) = trimBoth p s := by
  unfold trimBoth
  rw [List.dropWhile_append_of_pos h]

theorem trimBoth_append_right {l : List Char} (h : ∀ c ∈ l, p c = true) (s : List Char) :
    trimBoth p (s ++ l) = trimBoth p s := by
  unfold trimBoth
  rw [List.dropWhile_append]
  split
  · -- all of the text is cut off from the front, and so is what follows it
    rename_i hempty
    have hgone : l.dropWhile p = [] := by
      rw [← List.append_nil l, List.dropWhile_append_of_pos h]
      rfl
    rw [hgone, List.isEmpty_iff.1 hempty]
  · rw [List.reverse_append, List.dropWhile_append_of_pos (by simpa using h)]

/-- What surrounds a text is cut off together with its own ends. -/
theorem trimBoth_surrounded {before after : List Char} (hbefore : ∀ c ∈ before, p c = true)
    (hafter : ∀ c ∈ after, p c = true) (s : List Char) :
    trimBoth p (before ++ s ++ after) = trimBoth p s := by
  rw [trimBoth_append_right hafter, trimBoth_append_left hbefore]

/-- A text is what trimming leaves of it between what is cut off. -/
theorem exists_trimBoth (p : Char → Bool) (s : List Char) :
    ∃ before after, (∀ c ∈ before, p c = true) ∧ (∀ c ∈ after, p c = true)
      ∧ before ++ trimBoth p s ++ after = s := by
  refine ⟨s.takeWhile p, ((s.dropWhile p).reverse.takeWhile p).reverse, ?_, ?_, ?_⟩
  · exact List.all_eq_true.1 List.all_takeWhile
  · intro c hc
    exact List.all_eq_true.1 List.all_takeWhile c (List.mem_reverse.1 hc)
  · rw [trimBoth, List.append_assoc, ← List.reverse_append, List.takeWhile_append_dropWhile,
      List.reverse_reverse, List.takeWhile_append_dropWhile]

end

end DocAudit.Text
