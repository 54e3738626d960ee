/-
A reading that may be started again at any time. Lines are read one by
one, and between any two of them, also inside an open block, the reading
may be put back before the first line. What it then knows and what it has
returned is told by the lines read since: it is the report on these lines,
as if they had been given all at once.

# Why the past is forgotten

A restart keeps the path and nothing else (`path_after`), so everything up
to the last restart leaves the reading as it was in the beginning
(`exists_before`). What is left is a row of lines read from the start, and
reading them one by one is what the report does (`after_lines`,
`returned_lines`).

That something was found is kept twice, as a mark in the reading and as
the list of findings in the report; the mark is set exactly when the list
gets its first entry (`flagged_readAll`).
-/
import DocAudit.Proofs.CommentHistory
import Mathlib.Data.List.Induction

namespace DocAudit.Reading

open CommentHistory

-- ================================================================= acts

/-- What can be done with a reading. -/
inductive Act where
  | line (raw : List Char)
  | restart
  deriving DecidableEq, Repr

/-- Reads a line or starts again: what is returned, and the reading it
leaves. -/
def act (r : Reading) : Act → Option Diagnostic × Reading
  | .line raw => r.read raw
  | .restart => (none, r.restart)

/-- The reading after acts in turn. -/
def after (r : Reading) (acts : List Act) : Reading :=
  acts.foldl (fun r a => (r.act a).2) r

/-- What acts return, in turn. -/
def returned (r : Reading) : List Act → List (Option Diagnostic)
  | [] => []
  | a :: rest => (r.act a).1 :: returned (r.act a).2 rest

/-- The lines read since the last restart, or since the beginning if there
is none. -/
def linesSince (acts : List Act) : List (List Char) :=
  acts.foldl (fun lines a =>
    match a with
    | .line raw => lines ++ [raw]
    | .restart => []) []

section Acts

variable (r : Reading) (acts more : List Act)

theorem after_append : r.after (acts ++ more) = (r.after acts).after more :=
  List.foldl_append

theorem length_returned : (r.returned acts).length = acts.length := by
  induction acts generalizing r with
  | nil => rfl
  | cons a rest ih => rw [returned, List.length_cons, List.length_cons, ih]

theorem returned_append :
    r.returned (acts ++ more) = r.returned acts ++ (r.after acts).returned more := by
  induction acts generalizing r with
  | nil => rfl
  | cons a rest ih =>
      rw [List.cons_append, returned, returned, ih]
      rfl

/-- No act changes the path. -/
theorem path_after : (r.after acts).path = r.path := by
  induction acts generalizing r with
  | nil => rfl
  | cons a rest ih =>
      refine (ih (r.act a).2).trans ?_
      cases a <;> rfl

theorem linesSince_concat_line (raw : List Char) :
    linesSince (acts ++ [.line raw]) = linesSince acts ++ [raw] := by
  unfold linesSince
  rw [List.foldl_append]
  rfl

theorem linesSince_concat_restart : linesSince (acts ++ [.restart]) = [] := by
  unfold linesSince
  rw [List.foldl_append]
  rfl

end Acts

/-- The lines since the last restart are the last acts, and what comes
before them leaves the reading as it was in the beginning. -/
theorem exists_before (path : Path) (acts : List Act) :
    ∃ before, acts = before ++ (linesSince acts).map .line
      ∧ (start path).after before = start path := by
  induction acts using List.reverseRecOn with
  | nil => exact ⟨[], rfl, rfl⟩
  | append_singleton acts a ih =>
      cases a with
      | line raw =>
          obtain ⟨before, hacts, hbefore⟩ := ih
          refine ⟨before, ?_, hbefore⟩
          rw [linesSince_concat_line, List.map_append, ← List.append_assoc, ← hacts]
          rfl
      | restart =>
          refine ⟨acts ++ [.restart], ?_, ?_⟩
          · rw [linesSince_concat_restart, List.map_nil, List.append_nil]
          · rw [after_append]
            show start ((start path).after acts).path = start path
            rw [path_after]
            rfl

-- ============================================================ only lines

section Lines

variable (r : Reading) (lines : List (List Char))

theorem after_lines : r.after (lines.map .line) = (readAll [] r lines).2 := by
  induction lines generalizing r with
  | nil => rfl
  | cons raw rest ih =>
      rw [readAll_cons, readAll_found]
      exact ih (r.read raw).2

/-- What is returned line by line are the findings, in order. -/
theorem returned_lines :
    (r.returned (lines.map .line)).filterMap id = (readAll [] r lines).1.reverse := by
  induction lines generalizing r with
  | nil => rfl
  | cons raw rest ih =>
      have hrest := ih (r.read raw).2
      rw [readAll_cons, readAll_found, List.map_cons, returned]
      show ((r.read raw).1 :: (r.read raw).2.returned (rest.map .line)).filterMap id = _
      rw [List.reverse_append, ← hrest]
      cases (r.read raw).1 <;> rfl

theorem lineNumber_readAll :
    (readAll [] r lines).2.lineNumber = r.lineNumber + lines.length := by
  induction lines generalizing r with
  | nil => rfl
  | cons raw rest ih =>
      rw [readAll_cons, readAll_found, ih, List.length_cons]
      show r.lineNumber + 1 + rest.length = r.lineNumber + (rest.length + 1)
      omega

/-- The mark is set if it was set before or a finding is made. -/
theorem flagged_readAll :
    (readAll [] r lines).2.flagged = (r.flagged || !(readAll [] r lines).1.isEmpty) := by
  induction lines generalizing r with
  | nil => simp [readAll]
  | cons raw rest ih =>
      rw [readAll_cons, readAll_found, ih]
      cases hfound : r.state.flags (Line.normalForm raw) <;> simp [read, hfound]

end Lines

-- ================================================================ splits

/-- The findings in lines that are read in a situation, the first line
being number one. -/
def findingsFrom (path : Path) (s : CommentState) (lines : List (List Char)) :
    List Diagnostic :=
  (readAll [] ⟨path, s, 0, false⟩ lines).1.reverse

/-- A finding with its number raised. -/
def raised (n : Nat) (x : Diagnostic) : Diagnostic :=
  { x with line := x.line + n }

/-- Behind lines already read, findings have higher numbers and are the
same otherwise. -/
theorem found_readAll_raised (r : Reading) (lines : List (List Char)) :
    (readAll [] r lines).1.reverse
      = (findingsFrom r.path r.state lines).map (raised r.lineNumber) := by
  unfold findingsFrom
  rw [found_readAll, found_readAll, List.map_map]
  apply List.map_congr_left
  intro i _
  simp only [raised, Function.comp_apply, Diagnostic.mk.injEq, true_and, and_true]
  omega

/-- The report on lines read in two parts: the second part is read in the
situation that the first one leaves. -/
theorem diagnostics_split (path : Path) (xs ys : List (List Char)) :
    (FileReport.ofLines path (xs ++ ys)).diagnostics
      = (FileReport.ofLines path xs).diagnostics
        ++ (findingsFrom path (FileReport.ofLines path xs).ending ys).map (raised xs.length) := by
  have hnumber : (readAll [] (start path) xs).2.lineNumber = xs.length :=
    (lineNumber_readAll (start path) xs).trans (Nat.zero_add _)
  have hpath : (readAll [] (start path) xs).2.path = path := by
    rw [← after_lines, path_after]
    rfl
  have hsecond := found_readAll_raised (readAll [] (start path) xs).2 ys
  rw [hnumber, hpath] at hsecond
  show (readAll [] (start path) (xs ++ ys)).1.reverse = _
  rw [readAll_append, readAll_found, List.reverse_append, hsecond]
  rfl

-- =============================================================== result

/-- A reading agrees at any time with the report on the lines read since
the last restart: in the number of lines, in the situation, in whether
anything was found, and in what these lines returned. And lines read in
two parts have the findings of the first part and then those of the second
part, read in the situation that the first one leaves and numbered on. -/
theorem reading_agrees_with_report (path : Path) (acts : List Act) :
    ((start path).after acts).lineNumber = (linesSince acts).length
      ∧ ((start path).after acts).state = (FileReport.ofLines path (linesSince acts)).ending
      ∧ ((start path).after acts).flagged
        = (FileReport.ofLines path (linesSince acts)).hasFindings
      ∧ (((start path).returned acts).drop (acts.length - (linesSince acts).length)).filterMap id
        = (FileReport.ofLines path (linesSince acts)).diagnostics
      ∧ ∀ xs ys, (FileReport.ofLines path (xs ++ ys)).diagnostics
        = (FileReport.ofLines path xs).diagnostics
          ++ (findingsFrom path (FileReport.ofLines path xs).ending ys).map (raised xs.length) := by
  obtain ⟨before, hacts, hbefore⟩ := exists_before path acts
  generalize linesSince acts = lines at hacts ⊢
  subst hacts
  have hafter : (start path).after (before ++ lines.map .line)
      = (readAll [] (start path) lines).2 := by
    rw [after_append, hbefore, after_lines]
  have hlast : ((start path).returned (before ++ lines.map Act.line)).drop
      ((before ++ lines.map Act.line).length - lines.length)
      = (start path).returned (lines.map .line) := by
    have hlength : (before ++ lines.map Act.line).length - lines.length
        = ((start path).returned before).length := by
      rw [length_returned, List.length_append, List.length_map, Nat.add_sub_cancel]
    rw [hlength, returned_append, hbefore, List.drop_left]
  rw [hafter, hlast]
  refine ⟨?_, rfl, ?_, returned_lines (start path) lines, diagnostics_split path⟩
  · exact (lineNumber_readAll (start path) lines).trans (Nat.zero_add _)
  · rw [flagged_readAll]
    show (false || !(readAll [] (start path) lines).1.isEmpty)
      = !(readAll [] (start path) lines).1.reverse.isEmpty
    rw [Bool.false_or, List.isEmpty_reverse]

end DocAudit.Reading
