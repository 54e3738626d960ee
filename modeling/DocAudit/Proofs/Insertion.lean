/-
One line more. Two readings are compared, of lines with one line put in
between them and of the lines without it. Up to that place they are the
same reading; behind it they differ in the situation they are in, if at
all.

- A line that leaves the situation as it is and is no finding itself only
  moves the findings below it down by one. Blank lines are such lines,
  annotations other than the deprecation, and whatever stands in an open
  block without closing it (`Inert`).
- A comment makes a difference only outside of comments, where it is in
  force from then on. The two readings stay in different situations over
  blank lines and annotations. The first other line is no finding where
  the comment is in force, may be one where it is not, and leaves both
  readings in the same situation (`next_documented_eq`). So that line is
  the only one at which they can differ (`documented_reading`).

The deprecation is an annotation and a comment: met in the meantime it
brings both readings together early, and then nothing is taken away, since
a line is never a finding while a comment is in force
(`firstPlain_not_mem_reported`).
-/
import DocAudit.Proofs.Repair
import Mathlib.Data.List.Basic

namespace DocAudit

namespace CommentHistory

-- ============================================================ one line

/-- Neutral lines begin no comment but the deprecation. -/
theorem of_neutral {line : List Char} (h : IsNeutral line) :
    Line.opensBlock line = false ∧ Line.isLineComment line = false := by
  rcases h with rfl | hmarked
  · exact ⟨rfl, rfl⟩
  · obtain ⟨rest, rfl⟩ := List.isPrefixOf_iff_prefix.1 hmarked
    exact ⟨rfl, rfl⟩

/-- Neutral lines are no findings. -/
theorem flags_of_neutral (s : CommentState) {line : List Char} (h : IsNeutral line) :
    s.flags line = false := by
  by_cases hflags : s.flags line = true
  · have hdeclares : Line.declaresType line = true := by
      rw [CommentState.flags, Bool.and_eq_true] at hflags
      exact hflags.2
    obtain ⟨hne, -, -, hmarked, -⟩ := Line.of_declaresType hdeclares
    rcases h with hempty | hmark
    · exact absurd hempty hne
    · rw [hmarked] at hmark
      cases hmark
  · exact Bool.eq_false_iff.2 hflags

/-- In a comment or behind one nothing is a finding. -/
theorem flags_of_ne_outside {s : CommentState} (hs : s ≠ .outside) (line : List Char) :
    s.flags line = false := by
  simp [CommentState.flags, hs]

/-- A neutral line does not lead out of comments. -/
theorem next_ne_outside {s : CommentState} (hs : s ≠ .outside) {line : List Char}
    (h : IsNeutral line) : s.next line ≠ .outside := by
  have hcases : s.next line = .documented ∨ s.next line = .inBlock := by
    cases s with
    | outside => exact absurd rfl hs
    | documented => exact Or.inl ((next_eq_documented _ _).2 (Or.inr ⟨rfl, h⟩))
    | inBlock =>
        by_cases hcloses : Line.closesBlock line = true
        · exact Or.inl ((next_eq_documented _ _).2 (Or.inl (Or.inr ⟨hcloses, Or.inl rfl⟩)))
        · exact Or.inr ((next_eq_inBlock _ _).2 ⟨Or.inl rfl, hcloses⟩)
  rcases hcases with hnext | hnext
  · rw [hnext]
    nofun
  · rw [hnext]
    nofun

/-- A line that is not neutral makes no difference between a comment in
force and none. -/
theorem next_documented_eq {line : List Char} (h : ¬ IsNeutral line) :
    CommentState.next .documented line = CommentState.next .outside line := by
  have hsame : (CommentState.afterUse .documented line).afterOpening line
      = (CommentState.afterUse .outside line).afterOpening line := by
    by_cases hused : CommentState.usesUp line = true
    · simp [CommentState.afterUse, hused]
    · have hcomment := (usesUp_eq_false line).1 (Bool.eq_false_iff.2 hused)
      rcases hcomment with hline | hopens | hneutral
      · simp [CommentState.afterUse, CommentState.afterOpening, hused, hline]
      · simp [CommentState.afterUse, CommentState.afterOpening, hused, hopens]
      · exact absurd hneutral h
  unfold CommentState.next
  rw [hsame]

-- ============================================================= numbers

theorem reported_succ (s : CommentState) (n : Nat) (lines : List (List Char)) :
    reported s (n + 1) lines = (reported s n lines).map (· + 1) := by
  unfold reported
  rw [List.map_map]
  apply List.map_congr_left
  intro i _
  show n + 1 + i = n + i + 1
  omega

/-- A line that is no finding leaves the numbers to the lines below it. -/
theorem reported_quiet {s : CommentState} {line : List Char} (h : s.flags line = false) (n : Nat)
    (rest : List (List Char)) :
    reported s n (line :: rest) = reported (s.next line) (n + 1) rest := by
  rw [reported_cons, h]
  rfl

/-- Taking away the first line's finding leaves those of the lines below
it. -/
theorem erase_reported_cons (s : CommentState) (n : Nat) (line : List Char)
    (rest : List (List Char)) :
    (reported s n (line :: rest)).erase n = reported (s.next line) (n + 1) rest := by
  rw [reported_cons]
  by_cases hflags : s.flags line = true
  · rw [if_pos hflags]
    exact List.erase_cons_head ..
  · have hlate : n ∉ reported (s.next line) (n + 1) rest := by
      intro hmem
      have hle := le_of_mem_reported hmem
      omega
    rw [if_neg hflags]
    exact List.erase_of_not_mem hlate

theorem lt_of_mem_reported {s : CommentState} {n i : Nat} {lines : List (List Char)}
    (h : i ∈ reported s n lines) : i < n + lines.length := by
  obtain ⟨k, hk, rfl⟩ := List.mem_map.1 h
  have hlt := List.mem_range.1 (List.mem_filter.1 hk).1
  omega

-- ========================================================= inert lines

/-- A line that leaves the situation as it is and is no finding. -/
def Inert (s : CommentState) (line : List Char) : Prop :=
  s.next line = s ∧ s.flags line = false

theorem inert_nil (s : CommentState) : Inert s [] :=
  ⟨next_nil s, flags_of_neutral s (Or.inl rfl)⟩

theorem inert_annotation (s : CommentState) {line : List Char}
    (hmarked : Line.isAnnotation line) (hdeprecation : ¬ Line.isDeprecation line)
    (hcloses : ¬ Line.closesBlock line) : Inert s line := by
  have hneutral : IsNeutral line := Or.inr hmarked
  obtain ⟨hopens, hcomment⟩ := of_neutral hneutral
  refine ⟨?_, flags_of_neutral s hneutral⟩
  cases s with
  | inBlock => exact (next_eq_inBlock _ _).2 ⟨Or.inl rfl, hcloses⟩
  | documented => exact (next_eq_documented _ _).2 (Or.inr ⟨rfl, hneutral⟩)
  | outside =>
      cases hnext : CommentState.next .outside line with
      | outside => rfl
      | inBlock =>
          rw [next_eq_inBlock] at hnext
          simp [hopens] at hnext
      | documented =>
          rw [next_eq_documented] at hnext
          simp [hopens, hcomment, hdeprecation] at hnext

theorem inert_inBlock {line : List Char} (hcloses : ¬ Line.closesBlock line) :
    Inert .inBlock line :=
  ⟨(next_eq_inBlock _ _).2 ⟨Or.inl rfl, hcloses⟩, rfl⟩

-- ============================================================ comments

/-- How many neutral lines stand before the first other line. -/
def firstPlain (lines : List (List Char)) : Nat :=
  lines.findIdx fun line => ¬ IsNeutral line

theorem firstPlain_of_neutral {line : List Char} (h : IsNeutral line) (rest : List (List Char)) :
    firstPlain (line :: rest) = firstPlain rest + 1 := by
  simp [firstPlain, List.findIdx_cons, h]

theorem firstPlain_of_plain {line : List Char} (h : ¬ IsNeutral line) (rest : List (List Char)) :
    firstPlain (line :: rest) = 0 := by
  simp [firstPlain, List.findIdx_cons, h]

/-- Where a comment is open or in force, the first line that is not neutral
is no finding. -/
theorem firstPlain_not_mem_reported {s : CommentState} (hs : s ≠ .outside) (n : Nat)
    (lines : List (List Char)) : n + firstPlain lines ∉ reported s n lines := by
  induction lines generalizing s n with
  | nil => nofun
  | cons line rest ih =>
      rw [reported_quiet (flags_of_ne_outside hs line)]
      by_cases hneutral : IsNeutral line
      · rw [firstPlain_of_neutral hneutral,
          show n + (firstPlain rest + 1) = n + 1 + firstPlain rest by omega]
        exact ih (next_ne_outside hs hneutral) (n + 1)
      · rw [firstPlain_of_plain hneutral]
        intro hmem
        have hle := le_of_mem_reported hmem
        omega

/-- A neutral line outside of comments leaves the situation or, being the
deprecation, brings a comment into force. -/
theorem next_outside_of_neutral {line : List Char} (h : IsNeutral line) :
    CommentState.next .outside line = .outside
      ∨ CommentState.next .outside line = .documented := by
  cases hnext : CommentState.next .outside line with
  | outside => exact Or.inl rfl
  | documented => exact Or.inr rfl
  | inBlock =>
      rw [next_eq_inBlock] at hnext
      simp [(of_neutral h).1] at hnext

/-- A comment in force takes away the finding at the first line that is not
neutral, if there is one, and no other; behind that line it makes no
difference. -/
theorem documented_reading (n : Nat) (lines : List (List Char)) :
    reported .documented n lines = (reported .outside n lines).erase (n + firstPlain lines)
      ∧ ((∃ line ∈ lines, ¬ IsNeutral line) →
        situation .documented lines lines.length = situation .outside lines lines.length) := by
  induction lines generalizing n with
  | nil => exact ⟨rfl, nofun⟩
  | cons line rest ih =>
      have hpass : CommentState.flags .documented line = false := rfl
      rw [reported_quiet hpass, situation_length_cons, situation_length_cons]
      by_cases hneutral : IsNeutral line
      · have hforce : CommentState.next .documented line = .documented :=
          (next_eq_documented _ _).2 (Or.inr ⟨rfl, hneutral⟩)
        rw [hforce, reported_quiet (flags_of_neutral _ hneutral), firstPlain_of_neutral hneutral,
          show n + (firstPlain rest + 1) = n + 1 + firstPlain rest by omega]
        rcases next_outside_of_neutral hneutral with hnext | hnext
        · rw [hnext]
          refine ⟨(ih (n + 1)).1, ?_⟩
          intro hplain
          apply (ih (n + 1)).2
          obtain ⟨other, hmem, hother⟩ := hplain
          rcases List.mem_cons.1 hmem with rfl | hmem
          · exact absurd hneutral hother
          · exact ⟨other, hmem, hother⟩
        · -- the readings have met at a deprecation
          have hkept : n + 1 + firstPlain rest ∉ reported .documented (n + 1) rest :=
            firstPlain_not_mem_reported (by decide) _ _
          rw [hnext]
          exact ⟨(List.erase_of_not_mem hkept).symm, fun _ => rfl⟩
      · rw [next_documented_eq hneutral, firstPlain_of_plain hneutral]
        exact ⟨(erase_reported_cons _ n line rest).symm, fun _ => rfl⟩

/-- Outside of blocks a comment leaves a comment in force, and in a block
it is a line like others. -/
theorem next_of_comment (s : CommentState) {line : List Char}
    (hcomment : Line.isLineComment line ∨ Line.isDeprecation line)
    (hcloses : ¬ Line.closesBlock line) :
    s.next line = if s = .outside then .documented else s := by
  cases s with
  | outside => exact (next_eq_documented _ _).2 (Or.inl (Or.inl ⟨nofun, hcomment⟩))
  | documented => exact (next_eq_documented _ _).2 (Or.inl (Or.inl ⟨nofun, hcomment⟩))
  | inBlock => exact (next_eq_inBlock _ _).2 ⟨Or.inl rfl, hcloses⟩

theorem flags_of_comment (s : CommentState) {line : List Char}
    (hcomment : Line.isLineComment line ∨ Line.isDeprecation line) : s.flags line = false := by
  by_cases hs : s = .outside
  · rw [hs]
    exact flags_eq_false (Or.inr hcomment)
  · exact flags_of_ne_outside hs line

/-- Behind a comment, in whatever situation it was met. -/
theorem reading_behind_comment (s : CommentState) {line : List Char}
    (hcomment : Line.isLineComment line ∨ Line.isDeprecation line)
    (hcloses : ¬ Line.closesBlock line) (n : Nat) (lines : List (List Char)) :
    reported (s.next line) n lines = (reported s n lines).erase (n + firstPlain lines)
      ∧ ((∃ other ∈ lines, ¬ IsNeutral other) →
        situation (s.next line) lines lines.length = situation s lines lines.length) := by
  rw [next_of_comment s hcomment hcloses]
  by_cases hs : s = .outside
  · rw [if_pos hs, hs]
    exact documented_reading n lines
  · rw [if_neg hs]
    exact ⟨(List.erase_of_not_mem (firstPlain_not_mem_reported hs n lines)).symm, fun _ => rfl⟩

-- ============================================================= results

/-- A finding below line `k`, moved down by one. -/
def movedDown (k : Nat) (x : Diagnostic) : Diagnostic :=
  if ↑k < x.line then { x with line := x.line + 1 } else x

/-- A finding below line `k`, moved up by one. -/
def movedUp (k : Nat) (x : Diagnostic) : Diagnostic :=
  if ↑k < x.line then { x with line := x.line - 1 } else x

/-- The finding at a line. -/
def findingAt (path : Path) (i : Nat) : Diagnostic :=
  ⟨path, i, missingComment⟩

section Results

variable (path : Path) (xs ys : List (List Char))

theorem findingAt_injective : Function.Injective (findingAt path) := by
  intro i k h
  exact Int.ofNat_inj.1 (Diagnostic.mk.inj h).2.1

theorem movedDown_findingAt (k i : Nat) :
    movedDown k (findingAt path i) = findingAt path (if k < i then i + 1 else i) := by
  unfold movedDown findingAt
  by_cases h : k < i
  · rw [if_pos h, if_pos (Int.ofNat_lt.2 h)]
    rfl
  · rw [if_neg h, if_neg (mt Int.ofNat_lt.1 h)]

theorem movedUp_findingAt (k i : Nat) :
    movedUp k (findingAt path i) = findingAt path (if k < i then i - 1 else i) := by
  unfold movedUp findingAt
  by_cases h : k < i
  · have hline : (i : Int) - 1 = ↑(i - 1) := by omega
    rw [if_pos h, if_pos (Int.ofNat_lt.2 h), hline]
  · rw [if_neg h, if_neg (mt Int.ofNat_lt.1 h)]

theorem diagnostics_append :
    (FileReport.ofLines path (xs ++ ys)).diagnostics
      = (reported .outside 1 (xs.map Line.normalForm)).map (findingAt path)
        ++ (reported (FileReport.ofLines path xs).ending (1 + xs.length)
          (ys.map Line.normalForm)).map (findingAt path) := by
  rw [diagnostics_ofLines, ending_ofLines, List.map_append, reported_append, List.map_append,
    List.length_map]
  rfl

theorem ending_append :
    (FileReport.ofLines path (xs ++ ys)).ending
      = situation (FileReport.ofLines path xs).ending (ys.map Line.normalForm)
        (ys.map Line.normalForm).length := by
  rw [ending_ofLines, ending_ofLines, List.map_append, situation_length_append]

variable {line : List Char}

theorem diagnostics_insert
    (hquiet : (FileReport.ofLines path xs).ending.flags (Line.normalForm line) = false) :
    (FileReport.ofLines path (xs ++ [line] ++ ys)).diagnostics
      = (reported .outside 1 (xs.map Line.normalForm)).map (findingAt path)
        ++ (reported ((FileReport.ofLines path xs).ending.next (Line.normalForm line))
          (1 + xs.length) (ys.map Line.normalForm)).map (fun i => findingAt path (i + 1)) := by
  rw [List.append_assoc, diagnostics_append, List.map_append, List.map_singleton,
    List.singleton_append, reported_quiet hquiet, reported_succ _ (1 + xs.length), List.map_map]
  rfl

theorem ending_insert :
    (FileReport.ofLines path (xs ++ [line] ++ ys)).ending
      = situation ((FileReport.ofLines path xs).ending.next (Line.normalForm line))
        (ys.map Line.normalForm) (ys.map Line.normalForm).length := by
  rw [List.append_assoc, ending_append, List.map_append, List.map_singleton,
    List.singleton_append, situation_length_cons]

/-- The findings up to a place stay where they are when only those below
it are moved. -/
theorem map_moved_above {f : Diagnostic → Diagnostic}
    (hf : ∀ i, ¬ xs.length < i → f (findingAt path i) = findingAt path i) :
    ((reported .outside 1 (xs.map Line.normalForm)).map (findingAt path)).map f
      = (reported .outside 1 (xs.map Line.normalForm)).map (findingAt path) := by
  rw [List.map_map]
  apply List.map_congr_left
  intro i hi
  have hlt := lt_of_mem_reported hi
  rw [List.length_map] at hlt
  exact hf i (by omega)

/-- A blank line, an annotation or a line inside a block moves the findings
below it down by one and changes nothing else. -/
theorem inert_line_shifts
    (h : Line.normalForm line = []
      ∨ (Line.isAnnotation (Line.normalForm line) ∧ ¬ Line.isDeprecation (Line.normalForm line)
        ∧ ¬ Line.closesBlock (Line.normalForm line))
      ∨ ((FileReport.ofLines path xs).ending = .inBlock
        ∧ ¬ Line.closesBlock (Line.normalForm line))) :
    (FileReport.ofLines path (xs ++ [line] ++ ys)).ending
        = (FileReport.ofLines path (xs ++ ys)).ending
      ∧ (FileReport.ofLines path (xs ++ [line] ++ ys)).diagnostics
        = (FileReport.ofLines path (xs ++ ys)).diagnostics.map (movedDown xs.length) := by
  have hinert : Inert (FileReport.ofLines path xs).ending (Line.normalForm line) := by
    rcases h with hempty | ⟨hmarked, hdeprecation, hcloses⟩ | ⟨hblock, hcloses⟩
    · rw [hempty]
      exact inert_nil _
    · exact inert_annotation _ hmarked hdeprecation hcloses
    · rw [hblock]
      exact inert_inBlock hcloses
  obtain ⟨hnext, hquiet⟩ := hinert
  refine ⟨?_, ?_⟩
  · rw [ending_insert, hnext, ending_append]
  · have habove : ∀ i, ¬ xs.length < i →
        movedDown xs.length (findingAt path i) = findingAt path i := by
      intro i hi
      rw [movedDown_findingAt, if_neg hi]
    rw [diagnostics_insert path xs ys hquiet, hnext, diagnostics_append, List.map_append,
      map_moved_above path xs habove, List.map_map]
    congr 1
    apply List.map_congr_left
    intro i hi
    have hle := le_of_mem_reported hi
    rw [Function.comp_apply, movedDown_findingAt, if_pos (by omega)]

/-- A declaration, and a block that is still open. -/
def openBlock : List (List Char) :=
  ["class A".toList, "/*".toList]

/-- The end of the block, and a declaration that it does not document. -/
def closedBlock : List (List Char) :=
  ["*/".toList, "int b;".toList, "class C".toList]

/-- A declaration put into the block is no finding and moves the one below
the block down. -/
theorem openBlock_shifts :
    (FileReport.ofLines ⟨.here, ["A.java"]⟩ (openBlock ++ closedBlock)).diagnostics
        = [findingAt ⟨.here, ["A.java"]⟩ 1, findingAt ⟨.here, ["A.java"]⟩ 5]
      ∧ (FileReport.ofLines ⟨.here, ["A.java"]⟩
        (openBlock ++ ["class B".toList] ++ closedBlock)).diagnostics
        = [findingAt ⟨.here, ["A.java"]⟩ 1, findingAt ⟨.here, ["A.java"]⟩ 6] := by
  have hfound : (FileReport.ofLines ⟨.here, ["A.java"]⟩ (openBlock ++ closedBlock)).diagnostics
      = [findingAt ⟨.here, ["A.java"]⟩ 1, findingAt ⟨.here, ["A.java"]⟩ 5] := by
    decide +kernel
  have hopen : (FileReport.ofLines ⟨.here, ["A.java"]⟩ openBlock).ending = .inBlock
      ∧ ¬ Line.closesBlock (Line.normalForm "class B".toList) := by
    decide +kernel
  obtain ⟨-, hmoved⟩ := inert_line_shifts ⟨.here, ["A.java"]⟩ openBlock closedBlock
    (Or.inr (Or.inr hopen))
  rw [hfound] at hmoved
  exact ⟨hfound, hmoved⟩

/-- Behind lines that are all neutral there is no finding to be taken
away. -/
theorem finding_not_mem_of_neutral (h : ∀ y ∈ ys, IsNeutral (Line.normalForm y)) :
    findingAt path (1 + xs.length + firstPlain (ys.map Line.normalForm))
      ∉ (FileReport.ofLines path (xs ++ ys)).diagnostics := by
  have hnone : firstPlain (ys.map Line.normalForm) = ys.length := by
    have hall : ∀ line ∈ ys.map Line.normalForm, decide (¬ IsNeutral line) = false := by
      intro line hmem
      obtain ⟨y, hy, rfl⟩ := List.mem_map.1 hmem
      simpa using h y hy
    rw [firstPlain, List.findIdx_eq_length_of_false hall, List.length_map]
  intro hmem
  rw [diagnostics_ofLines] at hmem
  obtain ⟨i, hi, heq⟩ := List.mem_map.1 hmem
  have hsame := findingAt_injective path heq
  have hlt := lt_of_mem_reported hi
  rw [List.length_map, List.length_append] at hlt
  omega

/-- A comment takes away the finding at the first line below it that is
neither blank nor an annotation, if there is one, and no other. The file
ends as without the comment if there is such a line; if there is none,
nothing is taken away. -/
theorem comment_documents_one
    (hcomment : Line.isLineComment (Line.normalForm line)
      ∨ Line.isDeprecation (Line.normalForm line))
    (hcloses : ¬ Line.closesBlock (Line.normalForm line)) :
    (FileReport.ofLines path (xs ++ [line] ++ ys)).diagnostics.map (movedUp xs.length)
        = (FileReport.ofLines path (xs ++ ys)).diagnostics.erase
          (findingAt path (1 + xs.length + firstPlain (ys.map Line.normalForm)))
      ∧ ((∃ y ∈ ys, ¬ IsNeutral (Line.normalForm y)) →
        (FileReport.ofLines path (xs ++ [line] ++ ys)).ending
          = (FileReport.ofLines path (xs ++ ys)).ending)
      ∧ ((∀ y ∈ ys, IsNeutral (Line.normalForm y)) →
        (FileReport.ofLines path (xs ++ [line] ++ ys)).diagnostics.map (movedUp xs.length)
          = (FileReport.ofLines path (xs ++ ys)).diagnostics) := by
  have hquiet := flags_of_comment (FileReport.ofLines path xs).ending hcomment
  obtain ⟨hnumbers, hend⟩ := reading_behind_comment (FileReport.ofLines path xs).ending hcomment
    hcloses (1 + xs.length) (ys.map Line.normalForm)
  have hfound : (FileReport.ofLines path (xs ++ [line] ++ ys)).diagnostics.map (movedUp xs.length)
      = (FileReport.ofLines path (xs ++ ys)).diagnostics.erase
        (findingAt path (1 + xs.length + firstPlain (ys.map Line.normalForm))) := by
    have habove : ∀ i, ¬ xs.length < i →
        movedUp xs.length (findingAt path i) = findingAt path i := by
      intro i hi
      rw [movedUp_findingAt, if_neg hi]
    have hlate : findingAt path (1 + xs.length + firstPlain (ys.map Line.normalForm))
        ∉ (reported .outside 1 (xs.map Line.normalForm)).map (findingAt path) := by
      intro hmem
      obtain ⟨i, hi, heq⟩ := List.mem_map.1 hmem
      have hsame := findingAt_injective path heq
      have hlt := lt_of_mem_reported hi
      rw [List.length_map] at hlt
      omega
    rw [diagnostics_insert path xs ys hquiet, hnumbers, diagnostics_append, List.map_append,
      map_moved_above path xs habove, List.erase_append_right _ hlate,
      ← List.map_erase (findingAt_injective path), List.map_map]
    congr 1
    apply List.map_congr_left
    intro i hi
    have hle := le_of_mem_reported (List.mem_of_mem_erase hi)
    rw [Function.comp_apply, movedUp_findingAt, if_pos (by omega), Nat.add_sub_cancel]
  refine ⟨hfound, ?_, ?_⟩
  · intro hplain
    obtain ⟨y, hy, hother⟩ := hplain
    rw [ending_insert, ending_append]
    exact hend ⟨Line.normalForm y, List.mem_map_of_mem hy, hother⟩
  · intro hneutral
    rw [hfound, List.erase_of_not_mem (finding_not_mem_of_neutral path xs ys hneutral)]

/-- Two declarations below a blank line and an annotation. -/
def annotated : List (List Char) :=
  ["".toList, "@Entity".toList, "class A".toList, "class B".toList]

/-- A comment above the blank line documents the first declaration and not
the second. -/
theorem annotated_documents_one :
    (FileReport.ofLines ⟨.here, ["A.java"]⟩ (["int a;".toList] ++ annotated)).diagnostics
        = [findingAt ⟨.here, ["A.java"]⟩ 4, findingAt ⟨.here, ["A.java"]⟩ 5]
      ∧ (FileReport.ofLines ⟨.here, ["A.java"]⟩
        (["int a;".toList] ++ ["// a".toList] ++ annotated)).diagnostics.map (movedUp 1)
        = [findingAt ⟨.here, ["A.java"]⟩ 5] := by
  have hfound : (FileReport.ofLines ⟨.here, ["A.java"]⟩
      (["int a;".toList] ++ annotated)).diagnostics
      = [findingAt ⟨.here, ["A.java"]⟩ 4, findingAt ⟨.here, ["A.java"]⟩ 5] := by
    decide +kernel
  have hfirst : firstPlain (annotated.map Line.normalForm) = 2 := by
    decide +kernel
  obtain ⟨hone, -, -⟩ := comment_documents_one ⟨.here, ["A.java"]⟩ ["int a;".toList] annotated
    (show Line.isLineComment (Line.normalForm "// a".toList)
      ∨ Line.isDeprecation (Line.normalForm "// a".toList) by decide +kernel)
    (by decide +kernel)
  rw [hfound, hfirst] at hone
  exact ⟨hfound, hone⟩

end Results

end CommentHistory

end DocAudit
