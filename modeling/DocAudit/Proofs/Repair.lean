/-
Repairing what is reported. Above any of the lines that a report names,
documentation may be put: a line comment, the deprecation, or a block
comment of one line or more. The lines so documented are then no longer
reported, the others are reported as before, further down by as many
lines as were put above them, and the file ends as it did.

# Why nothing else changes

A reported line is met outside of comments, and it is left so: a
declaration begins with a letter, whatever modifiers and spaces are
deleted in front of it, so it neither opens a comment nor is neutral
(`next_of_declaresType`). Documentation put above it is read outside of
comments as well and leaves a comment in force (`IsDocumentation.next`),
and none of its own lines is flagged. The declaration then uses that
comment up. So both readings are in the same situation again behind the
line, which is what the induction over the lines carries
(`reported_insertFrom`).
-/
import DocAudit.Proofs.CommentHistory
import DocAudit.Proofs.Modifiers

namespace DocAudit

-- ========================================================= declarations

namespace Line

theorem declaresType_cons_eq_false {c : Char} (hc : c = '/' ∨ c = '@') (t : List Char) :
    declaresType (c :: t) = false := by
  rcases hc with rfl | rfl
  · exact declaresType_of_separator (by decide) (by decide) [] t (List.forall_mem_nil _)
  · exact declaresType_of_separator (by decide) (by decide) [] t (List.forall_mem_nil _)

/-- A declaration is neither a comment nor neutral. -/
theorem of_declaresType {line : List Char} (h : declaresType line = true) :
    line ≠ [] ∧ opensBlock line = false ∧ isLineComment line = false
      ∧ isAnnotation line = false ∧ isDeprecation line = false := by
  cases line with
  | nil => exact absurd h (by decide)
  | cons c t =>
      by_cases hslash : c = '/'
      · rw [declaresType_cons_eq_false (.inl hslash)] at h
        cases h
      · by_cases hat : c = '@'
        · rw [declaresType_cons_eq_false (.inr hat)] at h
          cases h
        · have hslash' : ('/' == c) = false := by simpa using Ne.symm hslash
          have hat' : ('@' == c) = false := by simpa using Ne.symm hat
          simp [opensBlock, isLineComment, isAnnotation, isDeprecation, List.isPrefixOf, hslash', hat']

end Line

namespace CommentHistory

-- ============================================================ situations

/-- A declaration uses up a comment and opens none. -/
theorem next_of_declaresType {s : CommentState} {line : List Char} (hs : s ≠ .inBlock)
    (h : Line.declaresType line = true) : s.next line = .outside := by
  obtain ⟨hne, hopens, hcomment, hannotation, hdeprecation⟩ := Line.of_declaresType h
  cases hnext : s.next line with
  | outside => rfl
  | inBlock =>
      rw [next_eq_inBlock] at hnext
      simp [hs, hopens] at hnext
  | documented =>
      rw [next_eq_documented] at hnext
      simp [hs, hopens, hcomment, hannotation, hdeprecation, IsNeutral, hne] at hnext

theorem situation_length_append (s : CommentState) (xs ys : List (List Char)) :
    situation s (xs ++ ys) (xs ++ ys).length
      = situation (situation s xs xs.length) ys ys.length := by
  unfold situation
  rw [List.take_length, List.take_length, List.take_length, List.foldl_append]

theorem situation_length_cons (s : CommentState) (line : List Char) (rest : List (List Char)) :
    situation s (line :: rest) (line :: rest).length
      = situation (s.next line) rest rest.length := by
  unfold situation
  rw [List.take_length, List.take_length, List.foldl_cons]

-- ============================================================== numbers

/-- The numbers of the flagged lines, the first line being number `n`. -/
def reported (s : CommentState) (n : Nat) (lines : List (List Char)) : List Nat :=
  (flagged s lines).map (n + ·)

theorem reported_cons (s : CommentState) (n : Nat) (line : List Char)
    (rest : List (List Char)) :
    reported s n (line :: rest)
      = (if s.flags line then [n] else []) ++ reported (s.next line) (n + 1) rest := by
  unfold reported
  rw [flagged_cons, List.map_append, List.map_map]
  congr 1
  · split <;> rfl
  · apply List.map_congr_left
    intro i _
    simp only [Function.comp_apply]
    omega

theorem reported_append (s : CommentState) (n : Nat) (xs ys : List (List Char)) :
    reported s n (xs ++ ys)
      = reported s n xs ++ reported (situation s xs xs.length) (n + xs.length) ys := by
  induction xs generalizing s n with
  | nil => rfl
  | cons line rest ih =>
      rw [List.cons_append, reported_cons, reported_cons, ih, situation_length_cons,
        List.append_assoc, List.length_cons]
      congr 3
      omega

theorem le_of_mem_reported {s : CommentState} {n i : Nat} {lines : List (List Char)}
    (h : i ∈ reported s n lines) : n ≤ i := by
  obtain ⟨k, -, rfl⟩ := List.mem_map.1 h
  exact Nat.le_add_right n k

-- ======================================================== documentation

/-- Normal lines that document what follows them: a line comment or the
deprecation, a block on one line, or a block from the line that opens it
to the one that closes it. -/
inductive IsDocumentation : List (List Char) → Prop where
  | line {line : List Char} (h : Line.isLineComment line ∨ Line.isDeprecation line) :
      IsDocumentation [line]
  | closed {line : List Char} (hopens : Line.opensBlock line) (hcloses : Line.closesBlock line) :
      IsDocumentation [line]
  | block {first last : List Char} {middle : List (List Char)} (hopens : Line.opensBlock first)
      (hopen : ¬Line.closesBlock first) (hmiddle : ∀ line ∈ middle, ¬Line.closesBlock line)
      (hcloses : Line.closesBlock last) : IsDocumentation (first :: (middle ++ [last]))

/-- Inside a block nothing is flagged, and it stays open until a line
closes it. -/
theorem of_not_closesBlock {lines : List (List Char)}
    (h : ∀ line ∈ lines, ¬Line.closesBlock line) (n : Nat) :
    reported .inBlock n lines = [] ∧ situation .inBlock lines lines.length = .inBlock := by
  induction lines generalizing n with
  | nil => exact ⟨rfl, rfl⟩
  | cons line rest ih =>
      obtain ⟨hline, hrest⟩ := List.forall_mem_cons.1 h
      have hnext : CommentState.next .inBlock line = .inBlock :=
        (next_eq_inBlock _ _).2 ⟨.inl rfl, hline⟩
      rw [reported_cons, situation_length_cons, hnext]
      exact ih hrest (n + 1)

/-- A line that begins a comment is no declaration. -/
theorem flags_eq_false {line : List Char}
    (h : Line.opensBlock line ∨ Line.isLineComment line ∨ Line.isDeprecation line) :
    CommentState.flags .outside line = false := by
  cases hflags : CommentState.flags .outside line with
  | false => rfl
  | true =>
      have hdeclares : Line.declaresType line = true := by
        simpa [CommentState.flags] using hflags
      obtain ⟨-, hopens, hcomment, -, hdeprecation⟩ := Line.of_declaresType hdeclares
      simp [hopens, hcomment, hdeprecation] at h

/-- Documentation is read without a finding and leaves a comment in
force. -/
theorem IsDocumentation.next {lines : List (List Char)} (h : IsDocumentation lines) (n : Nat) :
    reported .outside n lines = [] ∧ situation .outside lines lines.length = .documented := by
  cases h with
  | @line line h =>
      have hnext : CommentState.next .outside line = .documented :=
        (next_eq_documented _ _).2 (.inl (.inl ⟨nofun, h⟩))
      rw [reported_cons, situation_length_cons, flags_eq_false (.inr h), hnext]
      exact ⟨rfl, rfl⟩
  | @closed line hopens hcloses =>
      have hnext : CommentState.next .outside line = .documented :=
        (next_eq_documented _ _).2 (.inl (.inr ⟨hcloses, .inr hopens⟩))
      rw [reported_cons, situation_length_cons, flags_eq_false (.inl hopens), hnext]
      exact ⟨rfl, rfl⟩
  | @block first last middle hopens hopen hmiddle hcloses =>
      have hfirst : CommentState.next .outside first = .inBlock :=
        (next_eq_inBlock _ _).2 ⟨.inr hopens, hopen⟩
      have hlast : CommentState.next .inBlock last = .documented :=
        (next_eq_documented _ _).2 (.inl (.inr ⟨hcloses, .inl rfl⟩))
      obtain ⟨hquiet, hopen⟩ := of_not_closesBlock hmiddle (n + 1)
      rw [reported_cons, situation_length_cons, flags_eq_false (.inl hopens), hfirst,
        reported_append, situation_length_append, hquiet, hopen, reported_cons,
        situation_length_cons, hlast]
      exact ⟨rfl, rfl⟩

-- ============================================================ inserting

/-- Lines with others above them: `above` has what is put above the line
with a number, and the first line is number `n`. -/
def insertFrom (above : Nat → List (List Char)) (n : Nat) :
    List (List Char) → List (List Char)
  | [] => []
  | line :: rest => above n ++ line :: insertFrom above (n + 1) rest

theorem map_insertFrom (f : List Char → List Char) (above : Nat → List (List Char)) (n : Nat)
    (lines : List (List Char)) :
    (insertFrom above n lines).map f
      = insertFrom (fun i => (above i).map f) n (lines.map f) := by
  induction lines generalizing n with
  | nil => rfl
  | cons line rest ih => simp [insertFrom, ih]

/-- How many lines are put above the lines from number `n` to number
`i`. -/
def insertedUpTo (above : Nat → List (List Char)) (n i : Nat) : Nat :=
  ((List.range' n (i + 1 - n)).flatMap above).length

theorem insertedUpTo_succ (above : Nat → List (List Char)) {n i : Nat} (h : n ≤ i) :
    insertedUpTo above n i = (above n).length + insertedUpTo above (n + 1) i := by
  unfold insertedUpTo
  rw [show i + 1 - n = (i + 1 - (n + 1)) + 1 by omega, List.range'_succ, List.flatMap_cons,
    List.length_append]

/-- Reading goes on alike behind a line that nothing was put above or that
was flagged and has documentation now; nothing is flagged but the line
itself, and only if nothing was put above it. -/
theorem reported_above {s : CommentState} {line : List Char} {block : List (List Char)}
    (hblock : block ≠ [] → s.flags line = true ∧ IsDocumentation block) (n : Nat)
    (rest : List (List Char)) :
    reported s n (block ++ line :: rest)
        = (if s.flags line ∧ block = [] then [n] else [])
          ++ reported (s.next line) (n + block.length + 1) rest
      ∧ situation s (block ++ line :: rest) (block ++ line :: rest).length
        = situation (s.next line) rest rest.length := by
  by_cases hempty : block = []
  · subst hempty
    rw [List.nil_append, reported_cons, situation_length_cons]
    simp
  · obtain ⟨hflags, hdoc⟩ := hblock hempty
    obtain ⟨rfl, hdeclares⟩ : s = .outside ∧ Line.declaresType line = true := by
      simpa [CommentState.flags] using hflags
    obtain ⟨hquiet, hforce⟩ := hdoc.next n
    have hpass : CommentState.flags .documented line = false := rfl
    have hused : CommentState.next .documented line = .outside :=
      next_of_declaresType nofun hdeclares
    have hplain : CommentState.next .outside line = .outside :=
      next_of_declaresType nofun hdeclares
    rw [reported_append, situation_length_append, hquiet, hforce, reported_cons,
      situation_length_cons, hpass, hused, hplain]
    simp [hempty]

/-- The repaired lines are flagged where the others were, with numbers
moved on by `before` and by the lines put in since. -/
theorem reported_insertFrom (above : Nat → List (List Char)) (s : CommentState) (n before : Nat)
    (lines : List (List Char))
    (h : ∀ i, n ≤ i → above i ≠ [] → i ∈ reported s n lines ∧ IsDocumentation (above i)) :
    reported s (n + before) (insertFrom above n lines)
        = ((reported s n lines).filter fun i => above i = []).map
          (fun i => i + (before + insertedUpTo above n i))
      ∧ situation s (insertFrom above n lines) (insertFrom above n lines).length
        = situation s lines lines.length := by
  induction lines generalizing s n before with
  | nil => exact ⟨rfl, rfl⟩
  | cons line rest ih =>
      have hlate : ∀ i ∈ reported (s.next line) (n + 1) rest, n + 1 ≤ i :=
        fun i hi => le_of_mem_reported hi
      have hhere : above n ≠ [] → s.flags line = true ∧ IsDocumentation (above n) := by
        intro hne
        obtain ⟨hmem, hdoc⟩ := h n (Nat.le_refl n) hne
        refine ⟨?_, hdoc⟩
        rw [reported_cons, List.mem_append] at hmem
        rcases hmem with hmem | hmem
        · by_cases hflags : s.flags line = true
          · exact hflags
          · simp [hflags] at hmem
        · exact absurd (hlate n hmem) (by omega)
      have hrest : ∀ i, n + 1 ≤ i → above i ≠ [] →
          i ∈ reported (s.next line) (n + 1) rest ∧ IsDocumentation (above i) := by
        intro i hi hne
        obtain ⟨hmem, hdoc⟩ := h i (by omega) hne
        refine ⟨?_, hdoc⟩
        rw [reported_cons, List.mem_append] at hmem
        rcases hmem with hmem | hmem
        · split at hmem
          · obtain rfl := List.mem_singleton.1 hmem
            omega
          · cases hmem
        · exact hmem
      obtain ⟨hnumbers, hend⟩ := ih (s.next line) (n + 1) (before + (above n).length) hrest
      obtain ⟨hline, hafter⟩ :=
        reported_above hhere (n + before) (insertFrom above (n + 1) rest)
      refine ⟨?_, ?_⟩
      · rw [insertFrom, hline, reported_cons, List.filter_append, List.map_append,
          show n + before + (above n).length + 1 = n + 1 + (before + (above n).length) by omega,
          hnumbers]
        congr 1
        · have hnone : above n = [] → insertedUpTo above n n = 0 := by
            intro hempty
            simp [insertedUpTo, show n + 1 - n = 1 by omega, hempty]
          by_cases hflags : s.flags line = true
          · by_cases hempty : above n = []
            · simp [hflags, hempty, hnone hempty]
            · simp [hflags, hempty]
          · simp [hflags]
        · apply List.map_congr_left
          intro i hi
          have hle := hlate i (List.mem_filter.1 hi).1
          rw [insertedUpTo_succ above (show n ≤ i by omega)]
          omega
      · rw [insertFrom, hafter, hend, situation_length_cons]

-- =============================================================== result

theorem diagnostics_ofLines (path : Path) (lines : List (List Char)) :
    (FileReport.ofLines path lines).diagnostics
      = (reported .outside 1 (lines.map Line.normalForm)).map
        fun i => ⟨path, (i : Nat), missingComment⟩ := by
  refine (found_readAll (Reading.start path) lines).trans ?_
  unfold reported
  rw [List.map_map]
  apply List.map_congr_left
  intro i _
  simp [Reading.start, Nat.add_comm]

theorem ending_ofLines (path : Path) (lines : List (List Char)) :
    (FileReport.ofLines path lines).ending
      = situation .outside (lines.map Line.normalForm) (lines.map Line.normalForm).length := by
  rw [List.length_map]
  exact state_readAll [] (Reading.start path) lines

/-- What is put above the chosen lines. -/
def repairs (chosen : List Nat) (block : Nat → List (List Char)) (i : Nat) : List (List Char) :=
  if i ∈ chosen then block i else []

/-- Documentation above any of the lines reported takes exactly these out
of the report. The others are reported further down, by the number of
lines put above them, and the file ends in the same situation; where all
are documented, nothing is reported. -/
theorem diagnostics_of_repaired (path : Path) (lines : List (List Char)) (chosen : List Nat)
    (block : Nat → List (List Char))
    (hchosen : ∀ i ∈ chosen,
      (i : Int) ∈ (FileReport.ofLines path lines).diagnostics.map Diagnostic.line)
    (hblock : ∀ i ∈ chosen, IsDocumentation ((block i).map Line.normalForm)) :
    (FileReport.ofLines path (insertFrom (repairs chosen block) 1 lines)).diagnostics
        = ((FileReport.ofLines path lines).diagnostics.filter fun x => x.line.toNat ∉ chosen).map
          (fun x => { x with
            line := x.line + insertedUpTo (repairs chosen block) 1 x.line.toNat })
      ∧ (FileReport.ofLines path (insertFrom (repairs chosen block) 1 lines)).ending
        = (FileReport.ofLines path lines).ending
      ∧ ((∀ x ∈ (FileReport.ofLines path lines).diagnostics, x.line.toNat ∈ chosen) →
        (FileReport.ofLines path (insertFrom (repairs chosen block) 1 lines)).diagnostics = []) := by
  -- blocks are not empty, so the lines with something above them are the chosen ones
  have hnone : ∀ i, (repairs chosen block i).map Line.normalForm = [] ↔ i ∉ chosen := by
    intro i
    unfold repairs
    by_cases hi : i ∈ chosen
    · have hne : (block i).map Line.normalForm ≠ [] := by
        intro hempty
        have hdoc := hblock i hi
        rw [hempty] at hdoc
        cases hdoc
      simpa [hi] using hne
    · simp [hi]
  have habove : ∀ i, 1 ≤ i → (repairs chosen block i).map Line.normalForm ≠ [] →
      i ∈ reported .outside 1 (lines.map Line.normalForm)
        ∧ IsDocumentation ((repairs chosen block i).map Line.normalForm) := by
    intro i _ hne
    have hi : i ∈ chosen := by
      by_cases hi : i ∈ chosen
      · exact hi
      · exact absurd ((hnone i).2 hi) hne
    refine ⟨?_, ?_⟩
    · have hmem := hchosen i hi
      rw [diagnostics_ofLines, List.map_map] at hmem
      obtain ⟨k, hk, heq⟩ := List.mem_map.1 hmem
      obtain rfl : k = i := Int.ofNat_inj.1 heq
      exact hk
    · rw [repairs, if_pos hi]
      exact hblock i hi
  have hshift : ∀ n i, insertedUpTo (fun i => (repairs chosen block i).map Line.normalForm) n i
      = insertedUpTo (repairs chosen block) n i := by
    intro n i
    unfold insertedUpTo
    rw [← List.map_flatMap, List.length_map]
  obtain ⟨hnumbers, hend⟩ := reported_insertFrom
    (fun i => (repairs chosen block i).map Line.normalForm) .outside 1 0
    (lines.map Line.normalForm) habove
  rw [← map_insertFrom] at hnumbers hend
  have hfound : (FileReport.ofLines path (insertFrom (repairs chosen block) 1 lines)).diagnostics
      = ((FileReport.ofLines path lines).diagnostics.filter fun x => x.line.toNat ∉ chosen).map
        (fun x => { x with
          line := x.line + insertedUpTo (repairs chosen block) 1 x.line.toNat }) := by
    rw [diagnostics_ofLines, diagnostics_ofLines, List.filter_map, List.map_map, hnumbers,
      List.map_map]
    have hkeep : (fun i => decide ((repairs chosen block i).map Line.normalForm = []))
        = (fun x : Diagnostic => decide (x.line.toNat ∉ chosen))
          ∘ fun i => (⟨path, (i : Nat), missingComment⟩ : Diagnostic) := by
      funext i
      simp [hnone i]
    rw [hkeep]
    apply List.map_congr_left
    intro i _
    simp [hshift]
  refine ⟨hfound, ?_, ?_⟩
  · rw [ending_ofLines, ending_ofLines, hend]
  · intro hall
    rw [hfound, List.map_eq_nil_iff, List.filter_eq_nil_iff]
    intro x hx
    simp [hall x hx]

/-- Two declarations, a block comment between them that documents
neither. -/
def twoTypes : List (List Char) :=
  ["class A".toList, "/* b */".toList, "int b;".toList, "interface C".toList]

/-- With a block of three lines above the first declaration, the second
is still reported, three lines further down. -/
theorem twoTypes_repaired :
    (FileReport.ofLines ⟨.here, ["A.java"]⟩ twoTypes).diagnostics
        = [⟨⟨.here, ["A.java"]⟩, 1, missingComment⟩, ⟨⟨.here, ["A.java"]⟩, 4, missingComment⟩]
      ∧ (FileReport.ofLines ⟨.here, ["A.java"]⟩
        ("/**".toList :: " * class X".toList :: " */".toList :: twoTypes)).diagnostics
        = [⟨⟨.here, ["A.java"]⟩, 7, missingComment⟩] := by
  have hfound : (FileReport.ofLines ⟨.here, ["A.java"]⟩ twoTypes).diagnostics
      = [⟨⟨.here, ["A.java"]⟩, 1, missingComment⟩, ⟨⟨.here, ["A.java"]⟩, 4, missingComment⟩] := by
    decide +kernel
  refine ⟨hfound, ?_⟩
  have hrepaired := diagnostics_of_repaired ⟨.here, ["A.java"]⟩ twoTypes [1]
    (fun _ => ["/**".toList, " * class X".toList, " */".toList])
    (by rw [hfound]; decide)
    (fun i _ => by
      have hnormal : ["/**".toList, " * class X".toList, " */".toList].map Line.normalForm
          = ["/**".toList, "* class x".toList, "*/".toList] := by decide +kernel
      rw [hnormal]
      show IsDocumentation ("/**".toList :: (["* class x".toList] ++ ["*/".toList]))
      exact .block (by decide) (by decide) (by decide) (by decide))
  rw [hfound] at hrepaired
  exact hrepaired.1

end CommentHistory

end DocAudit
