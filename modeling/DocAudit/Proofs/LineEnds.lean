/-
The choice of line ends does not matter.

`WrittenLines` are lines put into writing: each but perhaps the last has
one of the three ends, chosen line by line. One choice is left out, since
it is a choice of other lines: a return and then an empty line with a
feed are read as one end. Every other text is cut back into the lines it
was made of (`linesOf_written`), but for a last line that is empty and
has no end. That line is lost in writing, and it is no loss to the
report, which an empty line at the end does not change
(`ofLines_concat_nil`). So the report on a file is the report on the
lines written into it, `report_of_writtenLines`.
-/
import DocAudit.Proofs.CommentHistory
import DocAudit.Proofs.PhysicalLines

namespace DocAudit

namespace Text

-- ==================================================== lines in writing

/-- How a line ends. -/
inductive LineEnd where
  | lineFeed
  | carriageReturn
  | returnAndFeed
  deriving DecidableEq, Repr

/-- The characters of a line end. -/
def LineEnd.chars : LineEnd → List Char
  | lineFeed => ['\n']
  | carriageReturn => ['\r']
  | returnAndFeed => ['\r', '\n']

/-- A line and the end chosen for it. -/
structure EndedLine where
  chars : List Char
  stop : LineEnd
  deriving DecidableEq, Repr

/-- Do two lines in a row keep their ends apart? A return and the feed
of an empty line behind it would be one end. -/
def EndedLine.Apart (line next : EndedLine) : Prop :=
  ¬(line.stop = .carriageReturn ∧ next.chars = [] ∧ next.stop = .lineFeed)

instance (line next : EndedLine) : Decidable (line.Apart next) :=
  inferInstanceAs (Decidable (¬_))

/-- The text of lines with their ends, and of a last line without one. -/
def writtenText (ended : List EndedLine) (last : Option (List Char)) : List Char :=
  ended.flatMap (fun line => line.chars ++ line.stop.chars) ++ last.getD []

/-- Lines put into writing. -/
structure WrittenLines where
  /-- The lines that have an end. -/
  ended : List EndedLine
  /-- The last line, if its end is left out. -/
  last : Option (List Char)
  plain : ∀ line ∈ ended.map EndedLine.chars ++ last.toList, '\r' ∉ line ∧ '\n' ∉ line
  apart : ended.IsChain EndedLine.Apart

namespace WrittenLines

/-- The lines that were put into writing. -/
def lines (w : WrittenLines) : List (List Char) :=
  w.ended.map EndedLine.chars ++ w.last.toList

/-- The text they make. -/
def text (w : WrittenLines) : List Char :=
  writtenText w.ended w.last

end WrittenLines

-- ================================================ and read back from it

variable {ended : List EndedLine} {last : Option (List Char)}

theorem writtenText_cons (line : EndedLine) (rest : List EndedLine) :
    writtenText (line :: rest) last = line.chars ++ (line.stop.chars ++ writtenText rest last) := by
  simp [writtenText]

/-- A text that begins with a feed begins with an empty line that ends
there. -/
theorem head?_writtenText
    (hplain : ∀ line ∈ ended.map EndedLine.chars ++ last.toList, '\r' ∉ line ∧ '\n' ∉ line)
    (h : (writtenText ended last).head? = some '\n') :
    ∃ line rest, ended = line :: rest ∧ line.chars = [] ∧ line.stop = .lineFeed := by
  cases ended with
  | nil =>
      cases last with
      | none => simp [writtenText] at h
      | some line =>
          have hmem : '\n' ∈ line := List.mem_of_head? (by simpa [writtenText] using h)
          exact absurd hmem (hplain line (by simp)).2
  | cons line rest =>
      refine ⟨line, rest, rfl, ?_⟩
      rw [writtenText_cons] at h
      cases hchars : line.chars with
      | cons c chars =>
          obtain rfl : c = '\n' := by simpa [hchars] using h
          exact absurd (by simp [hchars]) (hplain line.chars (by simp)).2
      | nil =>
          refine ⟨rfl, ?_⟩
          cases hstop : line.stop with
          | lineFeed => rfl
          | carriageReturn => simp [hchars, hstop, LineEnd.chars] at h
          | returnAndFeed => simp [hchars, hstop, LineEnd.chars] at h

/-- The text is cut where its lines were put together; a last line that
is empty and has no end leaves nothing to cut. -/
theorem linesOf_written
    (hplain : ∀ line ∈ ended.map EndedLine.chars ++ last.toList, '\r' ∉ line ∧ '\n' ∉ line)
    (hapart : ended.IsChain EndedLine.Apart) :
    LinesOf '\r' '\n' (writtenText ended last)
      (ended.map EndedLine.chars ++ last.toList.filter fun line => line ≠ []) := by
  induction ended with
  | nil =>
      cases last with
      | none => exact .none
      | some line =>
          obtain ⟨hreturn, hfeed⟩ := hplain line (by simp)
          by_cases hline : line = []
          · subst hline
            exact .none
          · simpa [writtenText, hline] using LinesOf.last hline hreturn hfeed
  | cons line rest ih =>
      rw [List.map_cons, List.cons_append, List.forall_mem_cons] at hplain
      obtain ⟨⟨hreturn, hfeed⟩, hrest⟩ := hplain
      have hlines := ih hrest (List.isChain_of_isChain_cons hapart)
      rw [writtenText_cons, List.map_cons, List.cons_append]
      cases hstop : line.stop with
      | lineFeed => exact .atFeed hreturn hfeed hlines
      | returnAndFeed => exact .atReturnFeed hreturn hfeed hlines
      | carriageReturn =>
          refine .atReturn hreturn hfeed ?_ hlines
          -- a feed right behind the return would be that of an empty line
          intro hhead
          obtain ⟨next, rest', rfl, hnext⟩ := head?_writtenText hrest hhead
          exact (List.isChain_cons_cons.1 hapart).1 ⟨hstop, hnext⟩

end Text

-- ============================================================ the report

/-- An empty line is counted, and that is all. -/
theorem Reading.read_nil (r : Reading) :
    r.read [] = (none, { r with lineNumber := r.lineNumber + 1 }) := by
  have hnormal : Line.normalForm [] = [] := rfl
  have hflags : r.state.flags [] = false := by cases r.state <;> rfl
  simp only [Reading.read, hnormal, hflags, CommentHistory.next_nil, Bool.or_false]
  rfl

/-- An empty line at the end of a file changes nothing about it. -/
theorem FileReport.ofLines_concat_nil (path : Path) (lines : List (List Char)) :
    ofLines path (lines ++ [[]]) = ofLines path lines := by
  unfold ofLines
  rw [Reading.readAll_append, Reading.readAll, Reading.read_nil]
  rfl

namespace Disk

open Text

/-- The report on a file is the report on the lines written into it,
whichever ends they were given. -/
theorem report_of_writtenLines (d : Disk) (p : Path) (w : WrittenLines)
    (h : d.read p = .ok (encodeUtf8 w.text)) :
    d.report p = .ok (.ofLines p w.lines) := by
  have hcut : linesOfBytes (encodeUtf8 w.text)
      = w.ended.map EndedLine.chars ++ w.last.toList.filter fun line => line ≠ [] := by
    rw [linesOfBytes, decodeUtf8_encodeUtf8]
    exact (linesOf_iff (by decide) _ _).1 (linesOf_written w.plain w.apart)
  have hsame : FileReport.ofLines p (linesOfBytes (encodeUtf8 w.text))
      = FileReport.ofLines p w.lines := by
    rw [hcut, WrittenLines.lines]
    cases hlast : w.last with
    | none => rfl
    | some line =>
        by_cases hline : line = []
        · subst hline
          rw [Option.toList_some, FileReport.ofLines_concat_nil]
          simp
        · simp [hline]
  rw [report, h]
  exact congrArg Except.ok hsame

/-- Five lines with ends of all three kinds, of which the first two meet
in two returns and a feed; the last line is empty and has no end. -/
def mixedEnds : WrittenLines where
  ended := [⟨"class A".toList, .carriageReturn⟩, ⟨[], .returnAndFeed⟩,
    ⟨"// ß".toList, .lineFeed⟩, ⟨"class B".toList, .carriageReturn⟩]
  last := some []
  plain := by simp
  apart := by decide

/-- A disk with `mixedEnds` in a file. -/
def mixedDisk : Disk where
  tree :=
    { here := ["w"]
      entries := [(["w"], .directory), (["w", "A.java"], .file (encodeUtf8 mixedEnds.text))]
      proper := by decide }

/-- Of the five lines the first is reported, and the fourth has a
comment. -/
theorem mixedDisk_report :
    mixedDisk.report ⟨.here, ["A.java"]⟩
        = .ok (.ofLines ⟨.here, ["A.java"]⟩
            ["class A".toList, [], "// ß".toList, "class B".toList, []])
      ∧ (mixedDisk.report ⟨.here, ["A.java"]⟩).map (·.diagnostics.map (·.line)) = .ok [1] := by
  have hread : mixedDisk.read ⟨.here, ["A.java"]⟩ = .ok (encodeUtf8 mixedEnds.text) := by
    decide
  have hreport := report_of_writtenLines mixedDisk ⟨.here, ["A.java"]⟩ mixedEnds hread
  refine ⟨hreport, ?_⟩
  rw [hreport]
  decide

end Disk

end DocAudit
