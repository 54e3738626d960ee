/-
Comments told by history. Reading keeps one of three situations between
lines and forgets the rest; what it reports can be told just as well from
the lines alone, looking back as far as need be:

- a block is open after line `i` if some line up to `i` opens one and no
  line from there to `i` closes it (`IsOpen`). Whether that opening
  stands inside a block that was open before makes no difference;
- a line documents what comes next if it is a line comment or the
  deprecation outside a block, or if it closes a block, be it one from
  above or its own (`Documents`);
- a comment is in force after line `i` if some line up to `i` documents
  and only blank lines and annotations follow it up to `i` (`InForce`).

# The invariant

For every prefix of the lines, the situation is `inBlock` exactly if a
block is open and `documented` exactly if a comment is in force
(`situation_iff`). The two are carried together: a comment comes into
force by closing a block, and outside a block only. One lemma says when
a line leads to each situation (`next_eq_inBlock`, `next_eq_documented`),
and one recurrence for each history predicate has the same form
(`isOpen_succ`, `inForce_succ`); the induction only matches the two.
-/
import DocAudit.FileReport

namespace DocAudit

namespace CommentHistory

-- ========================================================= vocabulary

/-- The line with a number, lines counted from one; past the end, an
empty one. -/
def lineAt (lines : List (List Char)) (i : Nat) : List Char :=
  lines.getD (i - 1) []

/-- A block is open after line `i`. -/
def IsOpen (lines : List (List Char)) (i : Nat) : Prop :=
  ∃ j ≤ i, 1 ≤ j ∧ Line.opensBlock (lineAt lines j)
    ∧ ∀ k ≤ i, j ≤ k → ¬ Line.closesBlock (lineAt lines k)

/-- Line `j` documents what comes next. -/
def Documents (lines : List (List Char)) (j : Nat) : Prop :=
  (¬ IsOpen lines (j - 1)
      ∧ (Line.isLineComment (lineAt lines j) ∨ Line.isDeprecation (lineAt lines j)))
    ∨ (Line.closesBlock (lineAt lines j)
      ∧ (IsOpen lines (j - 1) ∨ Line.opensBlock (lineAt lines j)))

/-- A line that leaves a comment in force. -/
def IsNeutral (line : List Char) : Prop :=
  line = [] ∨ Line.isAnnotation line

/-- A comment is in force after line `i`. -/
def InForce (lines : List (List Char)) (i : Nat) : Prop :=
  ∃ j ≤ i, 1 ≤ j ∧ Documents lines j ∧ ∀ k ≤ i, j < k → IsNeutral (lineAt lines k)

/-- Line `i` declares a type, no block is open before it and no comment
is in force. -/
def Undocumented (lines : List (List Char)) (i : Nat) : Prop :=
  Line.declaresType (lineAt lines i) ∧ ¬ IsOpen lines (i - 1) ∧ ¬ InForce lines (i - 1)

instance (lines : List (List Char)) (i : Nat) : Decidable (IsOpen lines i) :=
  inferInstanceAs (Decidable (∃ j ≤ i, _))

instance (lines : List (List Char)) (j : Nat) : Decidable (Documents lines j) :=
  inferInstanceAs (Decidable (_ ∨ _))

instance (line : List Char) : Decidable (IsNeutral line) :=
  inferInstanceAs (Decidable (_ ∨ _))

instance (lines : List (List Char)) (i : Nat) : Decidable (InForce lines i) :=
  inferInstanceAs (Decidable (∃ j ≤ i, _))

instance (lines : List (List Char)) (i : Nat) : Decidable (Undocumented lines i) :=
  inferInstanceAs (Decidable (_ ∧ _))

-- ============================================================ one line

/-- A line that opens a block is neither blank nor an annotation nor a
line comment. -/
theorem of_opensBlock {line : List Char} (h : Line.opensBlock line = true) :
    line ≠ [] ∧ Line.isAnnotation line = false ∧ Line.isLineComment line = false
      ∧ Line.isDeprecation line = false := by
  obtain ⟨rest, rfl⟩ := List.isPrefixOf_iff_prefix.1 h
  exact ⟨by simp, rfl, rfl, rfl⟩

/-- A comment is not used up by comments and by neutral lines. -/
theorem usesUp_eq_false (line : List Char) :
    CommentState.usesUp line = false
      ↔ Line.isLineComment line ∨ Line.opensBlock line ∨ IsNeutral line := by
  unfold CommentState.usesUp IsNeutral
  cases Line.isLineComment line <;> cases Line.opensBlock line <;> cases line <;> simp

section OneLine

variable (s : CommentState) (line : List Char)

theorem afterUse_eq_inBlock : s.afterUse line = .inBlock ↔ s = .inBlock := by
  unfold CommentState.afterUse
  cases s <;> cases CommentState.usesUp line <;> simp

theorem afterUse_eq_documented :
    s.afterUse line = .documented ↔ s = .documented ∧ CommentState.usesUp line = false := by
  unfold CommentState.afterUse
  cases s <;> cases CommentState.usesUp line <;> simp

theorem afterOpening_eq_inBlock :
    s.afterOpening line = .inBlock ↔ s = .inBlock ∨ Line.opensBlock line := by
  unfold CommentState.afterOpening
  cases s <;> cases Line.opensBlock line <;>
    cases Line.isLineComment line || Line.isDeprecation line <;> simp

theorem afterOpening_eq_documented :
    s.afterOpening line = .documented
      ↔ s ≠ .inBlock ∧ Line.opensBlock line = false
        ∧ ((Line.isLineComment line ∨ Line.isDeprecation line) ∨ s = .documented) := by
  unfold CommentState.afterOpening
  rw [← Bool.or_eq_true]
  cases s <;> cases Line.opensBlock line <;>
    cases Line.isLineComment line || Line.isDeprecation line <;> simp

theorem afterClosing_eq_inBlock :
    s.afterClosing line = .inBlock ↔ s = .inBlock ∧ ¬ Line.closesBlock line := by
  unfold CommentState.afterClosing
  cases s <;> cases Line.closesBlock line <;> simp

theorem afterClosing_eq_documented :
    s.afterClosing line = .documented
      ↔ s = .documented ∨ (s = .inBlock ∧ Line.closesBlock line) := by
  unfold CommentState.afterClosing
  cases s <;> cases Line.closesBlock line <;> simp

/-- An empty line changes nothing. -/
theorem next_nil : s.next [] = s := by
  cases s <;> rfl

/-- A line leaves a block open if one is open or the line opens one, and
the line does not close it. -/
theorem next_eq_inBlock :
    s.next line = .inBlock
      ↔ (s = .inBlock ∨ Line.opensBlock line) ∧ ¬ Line.closesBlock line := by
  unfold CommentState.next
  rw [afterClosing_eq_inBlock, afterOpening_eq_inBlock, afterUse_eq_inBlock]

/-- A line leaves a comment in force if it is one outside a block, if it
closes a block, or if it is neutral and a comment was in force. -/
theorem next_eq_documented :
    s.next line = .documented
      ↔ ((s ≠ .inBlock ∧ (Line.isLineComment line ∨ Line.isDeprecation line))
          ∨ (Line.closesBlock line ∧ (s = .inBlock ∨ Line.opensBlock line)))
        ∨ (s = .documented ∧ IsNeutral line) := by
  unfold CommentState.next
  rw [afterClosing_eq_documented, afterOpening_eq_inBlock, afterOpening_eq_documented, ne_eq,
    afterUse_eq_inBlock, afterUse_eq_documented, usesUp_eq_false]
  cases ho : Line.opensBlock line with
  | true =>
      obtain ⟨hne, hann, hcom, hdep⟩ := of_opensBlock ho
      simp [IsNeutral, hne, hann, hcom, hdep, and_comm]
  | false =>
      cases hcom : Line.isLineComment line with
      | true => cases s <;> simp [and_comm]
      | false => cases s <;> simp [and_comm]

end OneLine

-- ======================================================== recurrences

section Recurrences

variable (lines : List (List Char)) (i : Nat)

/-- No block is open before the first line. -/
theorem not_isOpen_zero : ¬ IsOpen lines 0 := by
  rintro ⟨j, hj, hpos, -⟩
  omega

/-- No comment is in force before the first line. -/
theorem not_inForce_zero : ¬ InForce lines 0 := by
  rintro ⟨j, hj, hpos, -⟩
  omega

/-- Whether a block is open after a line depends on the line and on
whether one was open before it. -/
theorem isOpen_succ :
    IsOpen lines (i + 1)
      ↔ (IsOpen lines i ∨ Line.opensBlock (lineAt lines (i + 1)))
        ∧ ¬ Line.closesBlock (lineAt lines (i + 1)) := by
  constructor
  · rintro ⟨j, hj, hpos, hopens, hnone⟩
    refine ⟨?_, hnone (i + 1) (Nat.le_refl _) hj⟩
    rcases Nat.lt_or_eq_of_le hj with hlt | rfl
    · exact Or.inl ⟨j, by omega, hpos, hopens, fun k hk => hnone k (by omega)⟩
    · exact Or.inr hopens
  · rintro ⟨⟨j, hj, hpos, hopens, hnone⟩ | hopens, hnot⟩
    · refine ⟨j, by omega, hpos, hopens, fun k hk hjk => ?_⟩
      rcases Nat.lt_or_eq_of_le hk with hlt | rfl
      · exact hnone k (by omega) hjk
      · exact hnot
    · refine ⟨i + 1, Nat.le_refl _, by omega, hopens, fun k hk hjk => ?_⟩
      obtain rfl : k = i + 1 := by omega
      exact hnot

/-- A comment is in force after a line if the line documents, or if one
was in force and the line is neutral. -/
theorem inForce_succ :
    InForce lines (i + 1)
      ↔ Documents lines (i + 1) ∨ (InForce lines i ∧ IsNeutral (lineAt lines (i + 1))) := by
  constructor
  · rintro ⟨j, hj, hpos, hdoc, hneutral⟩
    rcases Nat.lt_or_eq_of_le hj with hlt | rfl
    · exact Or.inr ⟨⟨j, by omega, hpos, hdoc, fun k hk => hneutral k (by omega)⟩,
        hneutral (i + 1) (Nat.le_refl _) hlt⟩
    · exact Or.inl hdoc
  · rintro (hdoc | ⟨⟨j, hj, hpos, hdoc, hneutral⟩, hlast⟩)
    · exact ⟨i + 1, Nat.le_refl _, by omega, hdoc, fun k hk hjk => by omega⟩
    · refine ⟨j, by omega, hpos, hdoc, fun k hk hjk => ?_⟩
      rcases Nat.lt_or_eq_of_le hk with hlt | rfl
      · exact hneutral k (by omega) hjk
      · exact hlast

end Recurrences

-- ====================================================== the invariant

/-- The situation after the first `i` lines, from a situation before
them. -/
def situation (s : CommentState) (lines : List (List Char)) (i : Nat) : CommentState :=
  (lines.take i).foldl CommentState.next s

theorem situation_succ (s : CommentState) (lines : List (List Char)) (i : Nat) :
    situation s lines (i + 1) = (situation s lines i).next (lineAt lines (i + 1)) := by
  unfold situation lineAt
  rw [List.take_add_one, List.foldl_append, Nat.add_sub_cancel, List.getD_eq_getElem?_getD]
  cases lines[i]? with
  | none => exact (next_nil _).symm
  | some line => rfl

/-- History tells the situation: the invariant of reading, for every
prefix of the lines. -/
theorem situation_iff (lines : List (List Char)) (i : Nat) :
    (situation .outside lines i = .inBlock ↔ IsOpen lines i)
      ∧ (situation .outside lines i = .documented ↔ InForce lines i) := by
  induction i with
  | zero =>
      have hstart : situation .outside lines 0 = .outside := rfl
      rw [hstart]
      exact ⟨⟨nofun, fun h => absurd h (not_isOpen_zero lines)⟩,
        ⟨nofun, fun h => absurd h (not_inForce_zero lines)⟩⟩
  | succ i ih =>
      obtain ⟨hopen, hforce⟩ := ih
      rw [situation_succ, next_eq_inBlock, next_eq_documented, isOpen_succ, inForce_succ,
        ne_eq, hopen, hforce]
      exact ⟨Iff.rfl, Iff.rfl⟩

/-- Neither an open block nor a comment in force: outside. -/
theorem situation_eq_outside (lines : List (List Char)) (i : Nat) :
    situation .outside lines i = .outside ↔ ¬ IsOpen lines i ∧ ¬ InForce lines i := by
  obtain ⟨hopen, hforce⟩ := situation_iff lines i
  rw [← hopen, ← hforce]
  cases situation .outside lines i <;> simp

-- ============================================================ reading

open Reading

/-- The first of several lines is read first. -/
theorem readAll_cons (found : List Diagnostic) (r : Reading) (raw : List Char)
    (rest : List (List Char)) :
    readAll found r (raw :: rest)
      = readAll ((r.read raw).1.toList ++ found) (r.read raw).2 rest := by
  rw [readAll]
  split
  · rename_i h
    rw [h]
    rfl
  · rename_i h
    rw [h]
    rfl

/-- Reading passes through the situations of the normal lines. -/
theorem state_readAll (found : List Diagnostic) (r : Reading) (lines : List (List Char)) :
    (readAll found r lines).2.state
      = situation r.state (lines.map Line.normalForm) lines.length := by
  induction lines generalizing found r with
  | nil => rfl
  | cons raw rest ih =>
      rw [readAll_cons, ih]
      rfl

/-- How many lines stand before each line that the situation before it
flags. -/
def flagged (s : CommentState) (lines : List (List Char)) : List Nat :=
  (List.range lines.length).filter fun i =>
    (situation s lines i).flags (lineAt lines (i + 1))

/-- The lines after the first are one further on, in the situation that
the first one leaves. -/
theorem flagged_cons (s : CommentState) (line : List Char) (rest : List (List Char)) :
    flagged s (line :: rest)
      = (if s.flags line then [0] else []) ++ (flagged (s.next line) rest).map (· + 1) := by
  unfold flagged
  rw [List.length_cons, List.range_succ_eq_map, List.filter_cons, List.filter_map]
  have hfirst : (situation s (line :: rest) 0).flags (lineAt (line :: rest) (0 + 1))
      = s.flags line := rfl
  rw [hfirst]
  split <;> rfl

/-- Reading makes its findings, in order, at the flagged lines. -/
theorem found_readAll (r : Reading) (lines : List (List Char)) :
    (readAll [] r lines).1.reverse
      = (flagged r.state (lines.map Line.normalForm)).map
          fun i => ⟨r.path, ↑(r.lineNumber + (i + 1)), missingComment⟩ := by
  induction lines generalizing r with
  | nil => rfl
  | cons raw rest ih =>
      rw [readAll_cons, readAll_found, List.reverse_append, ih, List.map_cons, flagged_cons,
        List.map_append, List.map_map]
      congr 1
      · cases h : r.state.flags (Line.normalForm raw) <;> simp [Reading.read, h]
      · refine List.map_congr_left fun i _ => ?_
        simp only [Reading.read, Function.comp_apply, Diagnostic.mk.injEq, true_and, and_true]
        omega

-- ============================================================= results

/-- A line is flagged by the situation before it if history leaves it
undocumented. -/
theorem flags_iff_undocumented (lines : List (List Char)) (i : Nat) :
    (situation .outside lines i).flags (lineAt lines (i + 1))
      ↔ Undocumented lines (i + 1) := by
  unfold CommentState.flags Undocumented
  rw [Bool.and_eq_true, decide_eq_true_eq, situation_eq_outside, and_comm]
  exact Iff.rfl

/-- The findings of a file are, in order and once each, at its
undocumented declarations. -/
theorem diagnostics_eq_undocumented (path : Path) (lines : List (List Char)) :
    (FileReport.ofLines path lines).diagnostics
        = ((List.range' 1 lines.length).filter fun i =>
            Undocumented (lines.map Line.normalForm) i).map
          (fun i => ⟨path, i, missingComment⟩)
      ∧ ((FileReport.ofLines path lines).diagnostics.map Diagnostic.line).Pairwise (· < ·) := by
  have hfound : (FileReport.ofLines path lines).diagnostics
      = ((List.range' 1 lines.length).filter fun i =>
            Undocumented (lines.map Line.normalForm) i).map
          (fun i => ⟨path, i, missingComment⟩) := by
    refine (found_readAll (start path) lines).trans ?_
    rw [List.range'_eq_map_range, List.filter_map, List.map_map]
    unfold flagged
    rw [List.length_map]
    refine congr (congrArg List.map (funext fun i => ?_)) (List.filter_congr fun i _ => ?_)
    · simp [start, Nat.add_comm]
    · rw [Function.comp_apply, Nat.add_comm 1 i, Bool.eq_iff_iff, decide_eq_true_eq]
      exact flags_iff_undocumented _ i
  refine ⟨hfound, ?_⟩
  rw [hfound, List.map_map, List.pairwise_map]
  have hrange : (List.range' 1 lines.length).Pairwise (· < ·) :=
    List.pairwise_lt_range'
  exact (hrange.filter _).imp Int.ofNat_lt.2

/-- The situation at the end of a file: an unclosed block, a comment in
force, or neither. -/
theorem ending_iff (path : Path) (lines : List (List Char)) :
    ((FileReport.ofLines path lines).ending = .inBlock
        ↔ IsOpen (lines.map Line.normalForm) lines.length)
      ∧ ((FileReport.ofLines path lines).ending = .documented
        ↔ InForce (lines.map Line.normalForm) lines.length)
      ∧ ((FileReport.ofLines path lines).ending = .outside
        ↔ ¬ IsOpen (lines.map Line.normalForm) lines.length
          ∧ ¬ InForce (lines.map Line.normalForm) lines.length) := by
  have hend : (FileReport.ofLines path lines).ending
      = situation .outside (lines.map Line.normalForm) lines.length :=
    state_readAll [] (start path) lines
  obtain ⟨hopen, hforce⟩ := situation_iff (lines.map Line.normalForm) lines.length
  rw [hend]
  exact ⟨hopen, hforce, situation_eq_outside _ _⟩

end CommentHistory

end DocAudit
