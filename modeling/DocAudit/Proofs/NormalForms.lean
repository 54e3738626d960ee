/-
The normal form of a line stands for all lines that are written alike.

Margins are cut off and letters put in lower case. Which of the two comes
first makes no difference (`lowerCase_trimMargins`): a margin is no letter
and is not passed over, so a sigma next to one sees the same as a sigma at
the end of the text, and nothing but a margin becomes one. A normal form
has therefore no margins and is in lower case, and is its own normal form.

Lines written alike (`Alike`) have other margins and other cases of their
ASCII letters. Since margins may be cut off last, the lower-cased text
decides, and in it the case of ASCII letters has left no trace, be they
next to a sigma or not (`lowerFrom_congr_ascii`).

A report on a file sees nothing of its lines but their normal forms, so
files whose lines are written alike have one report.
-/
import DocAudit.Proofs.LowerCased
import DocAudit.Proofs.Repair
import Mathlib.Data.List.Forall2

namespace DocAudit

open Text

namespace Line

-- ====================================================== the normal form

theorem isTrimmed_normalForm (s : List Char) : IsTrimmed isLineMargin (normalForm s) :=
  isTrimmed_lowerCase isLineMargin_of_mem_lowerAt (isTrimmed_trimBoth isLineMargin s)

/-- Margins may be cut off before lower-casing or after it. -/
theorem lowerCase_trimMargins (s : List Char) :
    lowerCase (trimMargins s) = trimMargins (lowerCase s) := by
  obtain ⟨before, after, hbefore, hafter, hcut⟩ := exists_trimBoth isLineMargin s
  have hlower : lowerCase s = before ++ normalForm s ++ after := by
    rw [List.append_assoc, normalForm, ← lowerCase_append_margins hafter,
      ← lowerCase_margins_append hbefore, trimMargins, ← List.append_assoc, hcut]
  calc lowerCase (trimMargins s)
      = trimMargins (normalForm s) := (isTrimmed_normalForm s).trimBoth_eq.symm
    _ = trimMargins (before ++ normalForm s ++ after) :=
        (trimBoth_surrounded hbefore hafter _).symm
    _ = trimMargins (lowerCase s) := by rw [hlower]

theorem normalForm_normalForm (s : List Char) : normalForm (normalForm s) = normalForm s := by
  show lowerCase (trimMargins (normalForm s)) = lowerCase (trimMargins s)
  rw [trimMargins, (isTrimmed_normalForm s).trimBoth_eq, normalForm, lowerCase_lowerCase]

-- ======================================================== lines alike

/-- Two lines that differ at most in their margins and in the case of
ASCII letters. -/
inductive Alike : List Char → List Char → Prop where
  | intro {before after before' after' s t : List Char}
      (margins : ∀ c ∈ before ++ after, isLineMargin c = true)
      (margins' : ∀ c ∈ before' ++ after', isLineMargin c = true)
      (letters : s.map Char.toLower = t.map Char.toLower) :
      Alike (before ++ s ++ after) (before' ++ t ++ after')

theorem normalForm_surrounded {before after : List Char}
    (h : ∀ c ∈ before ++ after, isLineMargin c = true) (s : List Char) :
    normalForm (before ++ s ++ after) = normalForm s := by
  obtain ⟨hbefore, hafter⟩ := List.forall_mem_append.1 h
  rw [normalForm, trimMargins, trimBoth_surrounded hbefore hafter]
  rfl

theorem Alike.normalForm_eq {line line' : List Char} (h : Alike line line') :
    normalForm line = normalForm line' := by
  obtain ⟨margins, margins', letters⟩ := h
  rw [normalForm_surrounded margins, normalForm_surrounded margins', normalForm, normalForm,
    lowerCase_trimMargins, lowerCase_trimMargins]
  exact congrArg trimMargins (lowerFrom_congr_ascii letters)

end Line

-- ========================================================== the report

/-- A report is made of the normal forms of the lines. -/
theorem FileReport.ofLines_congr {lines lines' : List (List Char)}
    (h : lines.map Line.normalForm = lines'.map Line.normalForm) (path : Path) :
    FileReport.ofLines path lines = FileReport.ofLines path lines' := by
  have hfound : (FileReport.ofLines path lines).diagnostics
      = (FileReport.ofLines path lines').diagnostics := by
    rw [CommentHistory.diagnostics_ofLines, CommentHistory.diagnostics_ofLines, h]
  have hending : (FileReport.ofLines path lines).ending
      = (FileReport.ofLines path lines').ending := by
    rw [CommentHistory.ending_ofLines, CommentHistory.ending_ofLines, h]
  exact congrArg₂ (FileReport.mk path) hfound hending

namespace Line

/-- A normal form is its own, it does not matter whether margins or
capitals go first, and files with lines written alike have one report. -/
theorem normalForm_canonical :
    (∀ s, normalForm (normalForm s) = normalForm s)
    ∧ (∀ s, lowerCase (trimMargins s) = trimMargins (lowerCase s))
    ∧ ∀ (path : Path) (lines lines' : List (List Char)), List.Forall₂ Alike lines lines' →
        FileReport.ofLines path lines = FileReport.ofLines path lines' := by
  refine ⟨normalForm_normalForm, lowerCase_trimMargins, ?_⟩
  intro path lines lines' h
  have hforms : lines.map normalForm = lines'.map normalForm := by
    induction h with
    | nil => rfl
    | cons hline _ ih => rw [List.map_cons, List.map_cons, hline.normalForm_eq, ih]
  exact FileReport.ofLines_congr hforms path

/-- An annotation, and a declaration whose name ends in a sigma. -/
def plainLines : List (List Char) :=
  ["  @DEPRECATED".toList, "class logo\u03a3".toList]

/-- The same lines with other margins and capitals; the sigma now stands
between a capital and a margin. -/
def shoutedLines : List (List Char) :=
  ["@Deprecated\r".toList, "\tClass LOGO\u03a3\x00 ".toList]

theorem shoutedLines_alike :
    List.Forall₂ Alike shoutedLines plainLines
      ∧ FileReport.ofLines ⟨.here, ["A.java"]⟩ shoutedLines
        = FileReport.ofLines ⟨.here, ["A.java"]⟩ plainLines := by
  have hfirst : Alike ([] ++ "@Deprecated".toList ++ "\r".toList)
      ("  ".toList ++ "@DEPRECATED".toList ++ []) :=
    .intro (List.all_eq_true.1 (by decide)) (List.all_eq_true.1 (by decide)) (by decide)
  have hsecond : Alike ("\t".toList ++ "Class LOGO\u03a3".toList ++ "\x00 ".toList)
      ([] ++ "class logo\u03a3".toList ++ []) :=
    .intro (List.all_eq_true.1 (by decide)) (List.forall_mem_nil _) (by decide)
  have halike : List.Forall₂ Alike shoutedLines plainLines :=
    .cons hfirst (.cons hsecond .nil)
  exact ⟨halike, normalForm_canonical.2.2 _ _ _ halike⟩

end Line

end DocAudit
