/-
The two formats tell the same. A scan reports on the terminal while it
goes on: each finding gets the next number and its text is handed to the
console at once, between the log records, and the summary comes at the
end. The document is made of the finished audit. Run with the same
settings otherwise, both have the same findings in the same order, the
same counters and the same exit code.

# Three ways to count

The terminal counts the findings it is handed (`texts_handOverAll`), the
document lists those of the reports, and the exit code looks at the files
with findings. All three come from one row of outcomes: the findings
handed out are those of the reports (`Audit.findings_flatMap_eventsOf`),
and there is a file with findings exactly if there is a finding
(`Totals.flagged_pos_iff`).

# Paths

The document names a file by its path below the root. Two paths may be
named alike, when a link leads from one to the other (`twiceNamed_told_alike`).
So the path shown on the terminal tells the one in the document, and the
one in the document only that some path told like that is shown.
-/
import DocAudit.Command
import DocAudit.Proofs.RunningTotals

namespace DocAudit

/-- A field of an object. -/
def Json.field? (key : String) : Json → Option Json
  | .obj fields => fields.lookup key
  | _ => none

/-- The summary has the three counters of the run. -/
theorem Totals.summary_eq_ok {t : Totals} {text : String} (h : t.summary = .ok text) :
    text = "Complete. Fail: " ++ toString t.flagged ++ "/" ++ toString t.processed ++ " ("
      ++ toString t.percent ++ "%)" := by
  simp only [Totals.summary, bind_eq_ok, writeNumber_eq_ok, pure, Except.pure,
    Except.ok.injEq] at h
  obtain ⟨_, ⟨-, rfl⟩, _, ⟨-, rfl⟩, _, ⟨-, rfl⟩, rfl⟩ := h
  rfl

-- ============================================================= document

namespace Document

/-- A finding is written by its reported path and its line. -/
theorem finding_eq_ok {d : Disk} {root : Path} {x : Diagnostic} {item : Json}
    (h : finding d root x = .ok item) :
    ∃ q, d.reportedPath x.path root = .ok q ∧ item.field? "path" = some (.str q)
      ∧ item.field? "line" = some (.int x.line) := by
  obtain ⟨q, hpath, hitem⟩ := bind_eq_ok.1 h
  cases hitem
  exact ⟨q, hpath, rfl, rfl⟩

/-- The fields of a document that count, and its findings one by one. -/
theorem ofAudit_eq_ok {d : Disk} {root : Path} {a : Audit} {document : Json}
    (h : ofAudit d root a = .ok document) :
    ∃ items, List.Forall₂ (fun x item => finding d root x = .ok item) a.diagnostics items
      ∧ document.field? "diagnostics" = some (.arr items)
      ∧ document.field? "total_diagnostics" = some (.int a.totals.findings)
      ∧ document.field? "files_with_error" = some (.int a.totals.flagged)
      ∧ document.field? "files_processed" = some (.int a.totals.processed)
      ∧ document.field? "percent" = some (.int a.totals.percent) := by
  obtain ⟨items, hfindings, h⟩ := bind_eq_ok.1 h
  obtain ⟨failures, -, h⟩ := bind_eq_ok.1 h
  cases h
  exact ⟨items, mapM_eq_ok.1 hfindings, rfl, rfl, rfl, rfl, rfl⟩

end Document

-- ================================================================ texts

/-- The text that a console is handed. -/
def Piece.text? : Piece → Option String
  | .console text => some text
  | .log _ => none

namespace Command

/-- Findings that are all handed over become texts in order, under
consecutive numbers. -/
theorem texts_handOverAll (n : Nat) (events : List Event)
    (h : (handOverAll ⟨n⟩ [] events).2 = none) :
    ((handOverAll ⟨n⟩ [] events).1.filterMap Piece.text?).map Except.ok
      = (events.filterMap Event.finding?).mapIdx fun k x =>
          Terminal.findingText (n + k + 1) x := by
  induction events generalizing n with
  | nil => rfl
  | cons e rest ih =>
      cases e with
      | log | scanned | unreadable =>
          rw [handOverAll_cons rfl] at h ⊢
          exact ih n h
      | finding x =>
          cases htext : Terminal.findingText (n + 1) x with
          | error failure =>
              have hstep : handOver ⟨n⟩ (.finding x) = (⟨n + 1⟩, .error failure) := by
                simp [handOver, Terminal.Numbering.text, htext, Except.map]
              simp [handOverAll, hstep] at h
          | ok text =>
              have hstep : handOver ⟨n⟩ (.finding x) = (⟨n + 1⟩, .ok [.console text]) := by
                simp [handOver, Terminal.Numbering.text, htext, Except.map]
              have hnumber : ∀ k : Nat, ((n + 1 : Nat) : Int) + k + 1 = n + (k + 1 : Nat) + 1 := by
                omega
              rw [handOverAll_cons hstep] at h ⊢
              have hrest := ih (n + 1) h
              simp only [hnumber] at hrest
              show Except.ok text :: ((handOverAll ⟨n + 1⟩ [] rest).1.filterMap Piece.text?).map _
                = (x :: rest.filterMap Event.finding?).mapIdx _
              rw [hrest, List.mapIdx_cons, Int.natCast_zero, Int.add_zero, htext]

-- ================================================================= runs

section Runs

variable {s : Scan} {d : Disk} {v : Log.Verbosity} {audit : Audit} {stdout : List ReportLine}

theorem Scan.report_terminal (hformat : s.format = .terminal)
    (h : s.report d audit = (stdout, none)) :
    ∃ text, audit.totals.summary = .ok text ∧ stdout = [.plain "", .console text] := by
  unfold Scan.report at h
  rw [hformat] at h
  cases hsummary : audit.totals.summary with
  | error failure =>
      simp only [hsummary] at h
      cases h
  | ok text =>
      simp only [hsummary] at h
      cases h
      exact ⟨text, rfl, rfl⟩

theorem Scan.report_json (hformat : s.format = .json) (h : s.report d audit = (stdout, none)) :
    ∃ text, Document.render d s.root audit = .ok text ∧ stdout = [.plain text] := by
  unfold Scan.report at h
  rw [hformat] at h
  cases hdocument : Document.render d s.root audit with
  | error failure =>
      simp only [hdocument] at h
      cases h
  | ok text =>
      simp only [hdocument] at h
      cases h
      exact ⟨text, rfl, rfl⟩

/-- A scan that completes has audited the files below its root, handed
over all that happened and made its report. -/
theorem Scan.run_eq_ok {exitCode : Nat} (h : (s.run d v).ending = .ok exitCode) :
    ∃ audit, d.auditBelow s.settings (s.subscriptions v) s.root = .ok audit
      ∧ exitCode = s.exitCode audit
      ∧ handOverAll {} [] audit.events = ((s.run d v).stderr, none)
      ∧ s.report d audit = ((s.run d v).stdout, none) := by
  rw [Disk.auditBelow_eq_result]
  unfold Scan.run at h ⊢
  have hevents := @Disk.events_of_result d s.settings (s.subscriptions v) s.root
  generalize d.courseBelow s.settings (s.subscriptions v) s.root = course at h hevents ⊢
  obtain ⟨events, result⟩ := course
  unfold Scan.runOf at h ⊢
  generalize hhanded : handOverAll {} [] events = handed at h ⊢
  obtain ⟨stderr, stopped⟩ := handed
  cases stopped with
  | some failure => cases h
  | none =>
      cases result with
      | error failure => cases h
      | ok audit =>
          obtain rfl := hevents rfl
          simp only [] at h ⊢
          generalize hreport : s.report d audit = report at h ⊢
          obtain ⟨stdout, stopped⟩ := report
          cases stopped with
          | some failure => cases h
          | none =>
              cases h
              exact ⟨audit, rfl, rfl, hhanded, hreport⟩

end Runs

-- =============================================================== result

/-- Texts of findings, numbered from one on. -/
def Numbered (texts : List String) (found : List Diagnostic) : Prop :=
  texts.map Except.ok = found.mapIdx fun k x => Terminal.findingText (k + 1) x

/-- The `k`-th finding has a path and a line. -/
def Shows (found : List Diagnostic) (k : Nat) (p : Path) (line : Int) : Prop :=
  ∃ x, found[k]? = some x ∧ x.path = p ∧ x.line = line

/-- The `k`-th finding of a document has a reported path and a line. -/
def Tells (items : List Json) (k : Nat) (q : String) (line : Int) : Prop :=
  ∃ item, items[k]? = some item ∧ item.field? "path" = some (.str q)
    ∧ item.field? "line" = some (.int line)

/-- Lists related item by item have related items at each place. -/
theorem getElem?_of_forall₂ {α β : Type} {R : α → β → Prop} {xs : List α} {ys : List β}
    (h : List.Forall₂ R xs ys) (k : Nat) :
    (∀ x, xs[k]? = some x → ∃ y, ys[k]? = some y ∧ R x y)
      ∧ ∀ y, ys[k]? = some y → ∃ x, xs[k]? = some x ∧ R x y := by
  induction h generalizing k with
  | nil => exact ⟨nofun, nofun⟩
  | @cons x y xs ys hxy _ ih =>
      cases k with
      | zero =>
          refine ⟨?_, ?_⟩
          · rintro _ ⟨⟩
            exact ⟨y, rfl, hxy⟩
          · rintro _ ⟨⟩
            exact ⟨x, rfl, hxy⟩
      | succ k => exact ih k

section Told

variable {d : Disk} {root : Path} {found : List Diagnostic} {items : List Json}

/-- A finding that is shown is told by the path reported for it. -/
theorem Shows.told (hitems : List.Forall₂ (fun x item => Document.finding d root x = .ok item)
      found items) {k : Nat} {p : Path} {line : Int} (h : Shows found k p line) :
    ∃ q, d.reportedPath p root = .ok q ∧ Tells items k q line := by
  obtain ⟨x, hx, rfl, rfl⟩ := h
  obtain ⟨item, hitem, hfinding⟩ := (getElem?_of_forall₂ hitems k).1 x hx
  obtain ⟨q, hq, hpath, hline⟩ := Document.finding_eq_ok hfinding
  exact ⟨q, hq, item, hitem, hpath, hline⟩

/-- A finding that is told is shown by a path reported like that. -/
theorem Tells.shown (hitems : List.Forall₂ (fun x item => Document.finding d root x = .ok item)
      found items) {k : Nat} {q : String} {line : Int} (h : Tells items k q line) :
    ∃ p, Shows found k p line ∧ d.reportedPath p root = .ok q := by
  obtain ⟨item, hitem, hpath, hline⟩ := h
  obtain ⟨x, hx, hfinding⟩ := (getElem?_of_forall₂ hitems k).2 item hitem
  obtain ⟨q', hq', hpath', hline'⟩ := Document.finding_eq_ok hfinding
  rw [hpath] at hpath'
  rw [hline] at hline'
  cases hpath'
  cases hline'
  exact ⟨x.path, ⟨x, hx, rfl, rfl⟩, hq'⟩

end Told

/-- The exit code tells if there is a finding. -/
theorem Scan.exitCode_eq {s : Scan} {d : Disk} {subs : Subscriptions} {audit : Audit}
    (h : d.auditBelow s.settings subs s.root = .ok audit) :
    s.exitCode audit = if s.fail && 0 < audit.diagnostics.length then 1 else 0 := by
  obtain ⟨found, outcomes, -, -, rfl⟩ := Disk.auditBelow_eq_ok.1 h
  have hpos : 0 < (Totals.ofOutcomes outcomes).flagged ↔ 0 < ((outcomes.filterMap
      Outcome.report?).flatMap FileReport.diagnostics).length :=
    (Totals.flagged_pos_iff outcomes).trans Int.natCast_pos
  show (if s.fail && decide (0 < (Totals.ofOutcomes outcomes).flagged) then 1 else 0) = _
  rw [decide_eq_decide.2 hpos]
  rfl

section Formats

variable {d : Disk} {root : Path} {settings : Settings} {fail : Bool} {v : Log.Verbosity}
  {exitCode : Nat}

/-- A run on the terminal shows the findings of the audit, and its
counters. -/
theorem Scan.run_terminal
    (h : (Scan.run ⟨root, .terminal, settings, fail⟩ d v).ending = .ok exitCode) :
    ∃ audit, d.auditBelow settings {} root = .ok audit
      ∧ Numbered ((Scan.run ⟨root, .terminal, settings, fail⟩ d v).stderr.filterMap Piece.text?)
        audit.diagnostics
      ∧ (Scan.run ⟨root, .terminal, settings, fail⟩ d v).stdout
        = [.plain "", .console ("Complete. Fail: " ++ toString audit.totals.flagged ++ "/"
          ++ toString audit.totals.processed ++ " (" ++ toString audit.totals.percent ++ "%)")]
      ∧ exitCode = if fail && 0 < audit.diagnostics.length then 1 else 0 := by
  obtain ⟨audit, haudit, hexit, hhanded, hreport⟩ := Scan.run_eq_ok h
  obtain ⟨text, hsummary, hstdout⟩ := Scan.report_terminal rfl hreport
  rw [Scan.exitCode_eq haudit] at hexit
  obtain ⟨found, outcomes, hfound, houtcomes, rfl⟩ := Disk.auditBelow_eq_ok.1 haudit
  refine ⟨_, Disk.auditBelow_eq_ok.2 ⟨found, outcomes, hfound, houtcomes, rfl⟩, ?_, ?_, hexit⟩
  · have hnumbered := texts_handOverAll 0 _ (congrArg Prod.snd hhanded)
    rw [show (handOverAll ⟨0⟩ [] _).1 = _ from congrArg Prod.fst hhanded, List.filterMap_append,
      Disk.findings_opening, List.filterMap_append, Audit.findings_flatMap_eventsOf rfl,
      show [Audit.closing (Totals.ofOutcomes outcomes)].filterMap Event.finding? = [] from rfl,
      List.nil_append, List.append_nil] at hnumbered
    simp only [Int.natCast_zero, Int.zero_add] at hnumbered
    exact hnumbered
  · rw [hstdout, Totals.summary_eq_ok hsummary]

/-- A run for the document writes that of the audit. -/
theorem Scan.run_json (h : (Scan.run ⟨root, .json, settings, fail⟩ d v).ending = .ok exitCode) :
    ∃ audit text, d.auditBelow settings {} root = .ok audit
      ∧ Document.render d root audit = .ok text
      ∧ (Scan.run ⟨root, .json, settings, fail⟩ d v).stdout = [.plain text]
      ∧ exitCode = if fail && 0 < audit.diagnostics.length then 1 else 0 := by
  obtain ⟨audit, haudit, hexit, -, hreport⟩ := Scan.run_eq_ok h
  obtain ⟨text, hrender, hstdout⟩ := Scan.report_json rfl hreport
  rw [Scan.exitCode_eq haudit] at hexit
  obtain ⟨found, outcomes, hfound, houtcomes, rfl⟩ := Disk.auditBelow_eq_ok.1 haudit
  exact ⟨_, text, Disk.auditBelow_eq_ok.2 ⟨found, outcomes, hfound, houtcomes, rfl⟩, hrender,
    hstdout, hexit⟩

end Formats

/-- Two runs of the same scan, one for each format, tell the same if both
complete. The texts on the terminal are the findings of the audit,
numbered from one on, and they are as many as the document counts and
lists. Each has the line of its fellow in the document, which names it by
the path reported for the one shown; and what the document names is shown
by some path that is reported like that. The summary has the counters of
the document. The exit code is the same: one if a finding is a reason to
fail and there is one, and zero otherwise. -/
theorem formats_agree (d : Disk) (root : Path) (settings : Settings) (fail : Bool)
    (v : Log.Verbosity) {terminal json : Run} {exitT exitJ : Nat}
    (hterminal : terminal = Scan.run ⟨root, .terminal, settings, fail⟩ d v)
    (hjson : json = Scan.run ⟨root, .json, settings, fail⟩ d v)
    (hcompleteT : terminal.ending = .ok exitT) (hcompleteJ : json.ending = .ok exitJ) :
    ∃ (audit : Audit) (document : Json) (text : String) (items : List Json),
      d.auditBelow settings {} root = .ok audit
      ∧ Numbered (terminal.stderr.filterMap Piece.text?) audit.diagnostics
      ∧ json.stdout = [.plain text] ∧ document.render = .ok text
      ∧ document.field? "total_diagnostics" = some (.int audit.diagnostics.length)
      ∧ document.field? "diagnostics" = some (.arr items)
      ∧ items.length = audit.diagnostics.length
      ∧ (∀ k p line, Shows audit.diagnostics k p line →
        ∃ q, d.reportedPath p root = .ok q ∧ Tells items k q line)
      ∧ (∀ k q line, Tells items k q line →
        ∃ p, Shows audit.diagnostics k p line ∧ d.reportedPath p root = .ok q)
      ∧ document.field? "files_with_error" = some (.int audit.totals.flagged)
      ∧ document.field? "files_processed" = some (.int audit.totals.processed)
      ∧ document.field? "percent" = some (.int audit.totals.percent)
      ∧ terminal.stdout = [.plain "", .console ("Complete. Fail: "
        ++ toString audit.totals.flagged ++ "/" ++ toString audit.totals.processed ++ " ("
        ++ toString audit.totals.percent ++ "%)")]
      ∧ exitJ = exitT
      ∧ exitT = if fail && 0 < audit.diagnostics.length then 1 else 0 := by
  subst hterminal hjson
  obtain ⟨audit, haudit, hnumbered, hsummary, hexitT⟩ := Scan.run_terminal hcompleteT
  obtain ⟨_, text, haudit', hrender, hstdout, hexitJ⟩ := Scan.run_json hcompleteJ
  -- both formats report on one audit
  obtain rfl := Except.ok.inj (haudit.symm.trans haudit')
  obtain ⟨document, hofAudit, hdocument⟩ := bind_eq_ok.1 hrender
  obtain ⟨items, hitems, hlist, hcount, hflagged, hprocessed, hpercent⟩ :=
    Document.ofAudit_eq_ok hofAudit
  have hfindings : audit.totals.findings = audit.diagnostics.length := by
    obtain ⟨found, outcomes, -, -, rfl⟩ := Disk.auditBelow_eq_ok.1 haudit
    rfl
  rw [hfindings] at hcount
  exact ⟨audit, document, text, items, haudit, hnumbered, hstdout, hdocument, hcount, hlist,
    hitems.length_eq.symm, fun _ _ _ h => h.told hitems, fun _ _ _ h => h.shown hitems, hflagged,
    hprocessed, hpercent, hsummary, hexitJ.trans hexitT.symm, hexitT⟩

/-- A directory with two files, one with two findings and one that cannot
be read. -/
def halfRead : Disk where
  tree :=
    { here := ["w"]
      entries := [(["w"], .directory), (["w", "B.java"], .file []),
        (["w", "A.java"], .file ("class A\nclass B\n".toList.map (·.toNat.toUInt8)))]
      proper := by decide }
  unreadable := [("B.java", .coded 13 "Permission denied")]

/-- Both runs over `halfRead` fail if they are to, and the document counts
findings. -/
theorem halfRead_formats_agree :
    ∃ (audit : Audit) (document : Json) (text : String),
      (Scan.run ⟨⟨.here, []⟩, .terminal, {}, true⟩ halfRead {}).ending = .ok 1
      ∧ (Scan.run ⟨⟨.here, []⟩, .json, {}, true⟩ halfRead {}).ending = .ok 1
      ∧ (Scan.run ⟨⟨.here, []⟩, .json, {}, true⟩ halfRead {}).stdout = [.plain text]
      ∧ document.render = .ok text
      ∧ document.field? "total_diagnostics" = some (.int audit.diagnostics.length)
      ∧ 0 < audit.diagnostics.length := by
  obtain ⟨hterminal, hjson⟩ :
      (Scan.run ⟨⟨.here, []⟩, .terminal, {}, true⟩ halfRead {}).ending = .ok 1
        ∧ (Scan.run ⟨⟨.here, []⟩, .json, {}, true⟩ halfRead {}).ending = .ok 1 := by
    decide +kernel
  obtain ⟨audit, document, text, -, -, -, hstdout, hdocument, hcount, -, -, -, -, -, -, -, -, -,
    hexit⟩ := formats_agree halfRead ⟨.here, []⟩ {} true {} rfl rfl hterminal hjson
  have hfindings : 0 < audit.diagnostics.length := by
    by_contra hnone
    simp [hnone] at hexit
  exact ⟨audit, document, text, hterminal, hjson, hstdout, hdocument, hcount, hfindings⟩

/-- A directory with a file and a link to it, each with a finding. -/
def twiceNamed : Disk where
  tree :=
    { here := ["w"]
      entries := [(["w"], .directory), (["w", "A.java"], .link "B.java"),
        (["w", "B.java"], .file ("class B\n".toList.map (·.toNat.toUInt8)))]
      proper := by decide }

/-- Both formats complete on `twiceNamed`, but the document tells the link by
the path of the file, for that is where it leads. So the first finding of
the document is reported as `B.java` is, and it is not `B.java` that the
terminal shows first. -/
theorem twiceNamed_told_alike :
    ∃ (audit : Audit) (document : Json) (items : List Json),
      (Scan.run ⟨⟨.here, []⟩, .terminal, {}, false⟩ twiceNamed {}).ending = .ok 0
      ∧ (Scan.run ⟨⟨.here, []⟩, .json, {}, false⟩ twiceNamed {}).ending = .ok 0
      ∧ (Scan.run ⟨⟨.here, []⟩, .terminal, {}, false⟩ twiceNamed {}).stderr.filterMap Piece.text?
        = ["1) No comment found: A.java: 1", "2) No comment found: B.java: 1"]
      ∧ twiceNamed.auditBelow {} {} ⟨.here, []⟩ = .ok audit
      ∧ Document.ofAudit twiceNamed ⟨.here, []⟩ audit = .ok document
      ∧ document.field? "diagnostics" = some (.arr items)
      ∧ ¬ ∀ k p line, Shows audit.diagnostics k p line
        ↔ ∃ q, twiceNamed.reportedPath p ⟨.here, []⟩ = .ok q ∧ Tells items k q line := by
  obtain ⟨hterminal, hjson, htexts, hfound, hlink, hfile⟩ :
      (Scan.run ⟨⟨.here, []⟩, .terminal, {}, false⟩ twiceNamed {}).ending = .ok 0
        ∧ (Scan.run ⟨⟨.here, []⟩, .json, {}, false⟩ twiceNamed {}).ending = .ok 0
        ∧ (Scan.run ⟨⟨.here, []⟩, .terminal, {}, false⟩ twiceNamed {}).stderr.filterMap Piece.text?
          = ["1) No comment found: A.java: 1", "2) No comment found: B.java: 1"]
        ∧ (twiceNamed.auditBelow {} {} ⟨.here, []⟩).map Audit.diagnostics
          = .ok [⟨⟨.here, ["A.java"]⟩, 1, missingComment⟩, ⟨⟨.here, ["B.java"]⟩, 1, missingComment⟩]
        ∧ twiceNamed.reportedPath ⟨.here, ["A.java"]⟩ ⟨.here, []⟩ = .ok "B.java"
        ∧ twiceNamed.reportedPath ⟨.here, ["B.java"]⟩ ⟨.here, []⟩ = .ok "B.java" := by
    decide +kernel
  obtain ⟨audit, text, haudit, hrender, -, -⟩ := Scan.run_json hjson
  obtain ⟨document, hofAudit, -⟩ := bind_eq_ok.1 hrender
  obtain ⟨items, hitems, hlist, -⟩ := Document.ofAudit_eq_ok hofAudit
  refine ⟨audit, document, items, hterminal, hjson, htexts, haudit, hofAudit, hlist, ?_⟩
  intro hsame
  rw [haudit] at hfound
  have hdiagnostics := Except.ok.inj hfound
  -- the link is shown first and told as the file, so the file would be shown first as well
  have hshown : Shows audit.diagnostics 0 ⟨.here, ["A.java"]⟩ 1 := by
    rw [hdiagnostics]
    exact ⟨_, rfl, rfl, rfl⟩
  obtain ⟨q, hq, htold⟩ := hshown.told hitems
  obtain rfl := Except.ok.inj (hlink.symm.trans hq)
  obtain ⟨x, hx, hpath, -⟩ := (hsame 0 ⟨.here, ["B.java"]⟩ 1).2 ⟨_, hfile, htold⟩
  rw [hdiagnostics] at hx
  cases hx
  exact absurd hpath (by decide)

end Command

end DocAudit
