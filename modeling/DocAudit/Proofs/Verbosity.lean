/-
How much a run says changes nothing else. The verbosity of a run decides
which log records are shown, in what form, and whether a note is made on
each file that is done; it has no part in what is found, in the report,
in the exit code, or in the failure that puts an end to the run.

# One course

An audit takes one course, whoever listens: each listener hears of it
what was asked for (`Disk.courseBelow_eq_filter`). Handing over what has
been heard can fail on findings only (`stopped_eq_filter`), and a verbose
run hears of the same findings as any other; so all runs of a scan stop
at the same place, if at all, and end alike (`Scan.run_alike`).

# Less and more

A piece that is shown is one line (`Run.writtenErrors_eq`). A quiet run hears
what one by default hears and writes its lines in the same form, so it
shows what that one shows but for the records below warnings, which there
are those of level `info` (`Scan.shown_quiet`). That goes for runs that fail as
well, up to the point where they do.
-/
import DocAudit.Proofs.Accounting
import DocAudit.Proofs.Formats

namespace DocAudit

/-- The course of an audit as some listeners hear of it is that for all of
them, less what they did not ask for. -/
theorem Disk.courseBelow_eq_filter (d : Disk) (settings : Settings) (subs : Subscriptions)
    (root : Path) :
    d.courseBelow settings subs root
      = { events := (d.courseBelow settings .all root).events.filter subs.wants
          result := (d.courseBelow settings .all root).result.map fun full =>
            { full with events := full.events.filter subs.wants } } := by
  have hrecords : ∀ records : List Log.Record,
      (records.map Event.log).filter subs.wants = records.map Event.log := by
    intro records
    apply List.filter_eq_self.2
    intro e he
    obtain ⟨record, -, rfl⟩ := List.mem_map.1 he
    rfl
  have hbegun : ∀ (level : Log.Level) (message : String) (rest : List Event),
      (Audit.record level message :: rest).filter subs.wants
        = Audit.record level message :: rest.filter subs.wants :=
    fun _ _ _ => rfl
  unfold courseBelow
  generalize Discovery.searchBelow d settings root = searched
  obtain ⟨found, stopped⟩ := searched
  cases stopped with
  | some failure =>
      simp only [hbegun, hrecords]
      rfl
  | none =>
      simp only []
      generalize d.outcomesUntil settings.workers found.files = scanned
      obtain ⟨outcomes, stopped⟩ := scanned
      cases stopped with
      | some failure =>
          simp only [List.filter_append, hbegun, hrecords, List.filter_flatMap,
            ← Audit.eventsOf_eq_filter]
          rfl
      | none =>
          simp only []
          rw [Audit.ofOutcomes_eq_filter settings subs]
          simp only [Except.map, List.filter_append, hbegun, hrecords]
          rfl

-- ================================================================ lines

/-- Is a piece shown at a verbosity? -/
def Piece.isShown (v : Log.Verbosity) : Piece → Bool
  | .log record => v.shows record
  | .console _ => true

/-- Is a piece a record of level `info`? -/
def Piece.isInfo : Piece → Bool
  | .log record => record.level = .info
  | .console _ => false

/-- The line of a piece that is shown. -/
def Console.shownLine (c : Console) (v : Log.Verbosity) : Piece → String
  | .log record => v.line record
  | .console text => c.line text

/-- A piece is one line, if it is shown. -/
theorem Console.flatMap_writePiece (c : Console) (v : Log.Verbosity) (pieces : List Piece) :
    pieces.flatMap (c.writePiece v) = (pieces.filter (Piece.isShown v)).map (c.shownLine v) := by
  induction pieces with
  | nil => rfl
  | cons piece rest ih =>
      rw [List.flatMap_cons, ih]
      cases piece with
      | console text => rfl
      | log record =>
          cases h : v.shows record <;>
            simp [Console.writePiece, Log.Verbosity.write, Piece.isShown, Console.shownLine, h]

/-- Of the pieces shown by default, a quiet run leaves out the records of
level `info`. -/
theorem Piece.isShown_quiet (piece : Piece) :
    piece.isShown { quiet := true } = (piece.isShown {} && !piece.isInfo) := by
  cases piece with
  | console text => rfl
  | log record =>
      obtain ⟨level, logger, message⟩ := record
      cases level <;> rfl

namespace Command

open CommandLine

-- ============================================================== stopping

/-- Handing over events stops where handing over their findings does. -/
theorem stopped_eq_filter (n : Terminal.Numbering) (events : List Event) :
    (handOverAll n [] events).2
      = (handOverAll n [] (events.filter fun e => e.finding?.isSome)).2 := by
  induction events generalizing n with
  | nil => rfl
  | cons e rest ih =>
      cases e with
      | log | scanned | unreadable =>
          rw [handOverAll_cons rfl]
          exact ih n
      | finding x =>
          rw [List.filter_cons_of_pos rfl]
          generalize hstep : handOver n (.finding x) = step
          obtain ⟨next, shown⟩ := step
          cases shown with
          | error failure => rw [handOverAll, handOverAll, hstep]
          | ok pieces =>
              rw [handOverAll_cons hstep, handOverAll_cons hstep]
              exact ih next

/-- What a scan hears stops all its runs alike. -/
theorem Scan.stopped_alike (s : Scan) (v w : Log.Verbosity) (events : List Event) :
    (handOverAll {} [] (events.filter (s.subscriptions v).wants)).2
      = (handOverAll {} [] (events.filter (s.subscriptions w).wants)).2 := by
  rw [stopped_eq_filter, stopped_eq_filter _ (events.filter (s.subscriptions w).wants),
    List.filter_filter, List.filter_filter]
  congr 2
  apply List.filter_congr
  intro e _
  cases e <;> rfl

/-- Runs of a scan write the same report and end alike. -/
theorem Scan.run_alike (s : Scan) (d : Disk) (v w : Log.Verbosity) :
    (s.run d v).stdout = (s.run d w).stdout ∧ (s.run d v).ending = (s.run d w).ending := by
  unfold Scan.run
  rw [Disk.courseBelow_eq_filter d s.settings (s.subscriptions v),
    Disk.courseBelow_eq_filter d s.settings (s.subscriptions w)]
  generalize d.courseBelow s.settings .all s.root = full
  have hstopped := s.stopped_alike v w full.events
  unfold Scan.runOf
  simp only []
  generalize handOverAll {} [] (full.events.filter (s.subscriptions v).wants) = handed at hstopped ⊢
  generalize handOverAll {} [] (full.events.filter (s.subscriptions w).wants) = handed' at hstopped ⊢
  obtain ⟨stderr, stopped⟩ := handed
  obtain ⟨stderr', stopped'⟩ := handed'
  cases hstopped
  cases stopped with
  | some failure => exact ⟨rfl, rfl⟩
  | none =>
      -- the report is made of parts that no listener has a say in
      cases full.result with
      | error failure => exact ⟨rfl, rfl⟩
      | ok audit => exact ⟨rfl, rfl⟩

/-- A quiet run is handed what one by default is. -/
theorem Scan.stderr_quiet (s : Scan) (d : Disk) :
    (s.run d { quiet := true }).stderr = (s.run d {}).stderr := by
  rw [Scan.run, Scan.run, Scan.stderr_runOf, Scan.stderr_runOf]
  rfl

-- =============================================================== result

/-- The pieces on the error stream that are shown. -/
def Run.shown (r : Run) : List Piece :=
  r.stderr.filter (Piece.isShown r.verbosity)

theorem Run.writtenErrors_eq (r : Run) (c : Console) :
    r.writtenErrors c = r.shown.map (c.shownLine r.verbosity) :=
  c.flatMap_writePiece r.verbosity r.stderr

/-- Run quietly, a scan shows what it shows by default, less the records
of level `info`. -/
theorem Scan.shown_quiet (s : Scan) (d : Disk) :
    (s.run d { quiet := true }).shown = (s.run d {}).shown.filter fun p => !p.isInfo := by
  unfold Run.shown
  rw [s.stderr_quiet, Scan.run, Scan.verbosity_runOf, Scan.run, Scan.verbosity_runOf,
    List.filter_filter]
  apply List.filter_congr
  intro piece _
  rw [Piece.isShown_quiet, Bool.and_comm]

/-- However much a run is asked to say, it writes the same report and ends
alike, with the same exit code or by the same failure. The report of a run
that completes is the document and the end of the line, or an empty line
and the summary. By default the error stream has the findings and the
records from level `info` on; a quiet run has these without the records of
that level, in the same order and the same words, also if it fails. -/
theorem verbosity_keeps_result (s : Scan) (d : Disk) (c : Console) :
    (∀ asked, s.runAsked d asked = s.run d asked)
      ∧ (∀ v, (s.run d v).ending = (s.run d {}).ending
        ∧ (s.run d v).written c = (s.run d {}).written c)
      ∧ (∀ exitCode, (s.run d {}).ending = .ok exitCode →
        ∃ audit, d.auditBelow s.settings (s.subscriptions {}) s.root = .ok audit
          ∧ (s.format = .json → ∃ text, Document.render d s.root audit = .ok text
            ∧ (s.run d {}).written c = [text ++ "\n"])
          ∧ (s.format = .terminal → (s.run d {}).written c = ["\n", c.render ("Complete. Fail: "
            ++ toString audit.totals.flagged ++ "/" ++ toString audit.totals.processed ++ " ("
            ++ toString audit.totals.percent ++ "%)") ++ "\n"]))
      ∧ (s.run d {}).writtenErrors c = (s.run d {}).shown.map (c.shownLine {})
      ∧ (s.run d { quiet := true }).writtenErrors c
        = ((s.run d {}).shown.filter fun p => !p.isInfo).map (c.shownLine {}) := by
  refine ⟨?_, ?_, ?_, ?_, ?_⟩
  · intro asked
    rw [Scan.runAsked, inherited_contextOf]
  · intro v
    obtain ⟨hstdout, hending⟩ := s.run_alike d v {}
    exact ⟨hending, congrArg (List.map c.writeLine) hstdout⟩
  · intro exitCode h
    obtain ⟨audit, haudit, -, -, hreport⟩ := Scan.run_eq_ok h
    refine ⟨audit, haudit, ?_, ?_⟩
    · intro hformat
      obtain ⟨text, hrender, hstdout⟩ := Scan.report_json hformat hreport
      exact ⟨text, hrender, by rw [Run.written, hstdout]; rfl⟩
    · intro hformat
      obtain ⟨text, hsummary, hstdout⟩ := Scan.report_terminal hformat hreport
      rw [Run.written, hstdout, Totals.summary_eq_ok hsummary]
      rfl
  · rw [Run.writtenErrors_eq, Scan.run, Scan.verbosity_runOf]
  · -- quiet or not, the line of a record is the same
    rw [Run.writtenErrors_eq, s.shown_quiet, Scan.run, Scan.verbosity_runOf]
    rfl

/-- A scan of `halfRead` that is to fail ends the same way verbose and
quiet, with the same summary; the quiet one does without the record on its
beginning. -/
theorem halfRead_verbosity :
    (∀ v ∈ [{}, { verbose := true }, { quiet := true }],
        (Scan.run ⟨⟨.here, []⟩, .terminal, {}, true⟩ halfRead v).ending = .ok 1
        ∧ (Scan.run ⟨⟨.here, []⟩, .terminal, {}, true⟩ halfRead v).written ⟨id⟩
          = ["\n", "Complete. Fail: 1/1 (100%)\n"])
      ∧ (Scan.run ⟨⟨.here, []⟩, .terminal, {}, true⟩ halfRead { quiet := true }).writtenErrors ⟨id⟩
        = ["1) No comment found: A.java: 1\n", "2) No comment found: A.java: 2\n",
          "jccs: cannot read B.java: Permission denied\n"] := by
  obtain ⟨hending, hsummary, hlines⟩ :
      (Scan.run ⟨⟨.here, []⟩, .terminal, {}, true⟩ halfRead {}).ending = .ok 1
        ∧ (Scan.run ⟨⟨.here, []⟩, .terminal, {}, true⟩ halfRead {}).written ⟨id⟩
          = ["\n", "Complete. Fail: 1/1 (100%)\n"]
        ∧ ((Scan.run ⟨⟨.here, []⟩, .terminal, {}, true⟩ halfRead {}).shown.filter
            fun p => !p.isInfo).map (Console.shownLine ⟨id⟩ {})
          = ["1) No comment found: A.java: 1\n", "2) No comment found: A.java: 2\n",
            "jccs: cannot read B.java: Permission denied\n"] := by
    decide +kernel
  obtain ⟨-, hresult, -, -, hquiet⟩ :=
    verbosity_keeps_result ⟨⟨.here, []⟩, .terminal, {}, true⟩ halfRead ⟨id⟩
  refine ⟨fun v _ => ?_, hquiet.trans hlines⟩
  exact ⟨(hresult v).1.trans hending, (hresult v).2.trans hsummary⟩

end Command

end DocAudit
