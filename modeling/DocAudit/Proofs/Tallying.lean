/-
What an audit comes to, told from the outcomes alone. The audit counts
outcomes one after the other and keeps its lists last first; at the end
the totals are sizes of lists, the lists are parts of the row of
outcomes, and the events are those of each outcome in turn
(`ofOutcomes_eq`). One step is `add_eq`, and a whole run follows by
induction on the outcomes (`foldl_add`).

So nothing but the events depends on what is subscribed to, and a
subscriber to findings gets exactly the findings, in order
(`findings_flatMap_eventsOf`).
-/
import DocAudit.Proofs.Scheduling

namespace DocAudit

/-- The report on a file, if it could be read. -/
def Outcome.report? : Outcome → Option FileReport
  | .scanned report => some report
  | .unreadable _ => none

/-- The file that could not be read, if it is one. -/
def Outcome.unreadable? : Outcome → Option Unreadable
  | .scanned _ => none
  | .unreadable u => some u

theorem Outcome.mem_reports {outcomes : List Outcome} {report : FileReport} :
    report ∈ outcomes.filterMap Outcome.report? ↔ .scanned report ∈ outcomes := by
  rw [List.mem_filterMap]
  constructor
  · rintro ⟨o, ho, hreport⟩
    cases o with
    | scanned r =>
        cases hreport
        exact ho
    | unreadable u => cases hreport
  · exact fun ho => ⟨_, ho, rfl⟩

theorem Outcome.mem_unreadable {outcomes : List Outcome} {u : Unreadable} :
    u ∈ outcomes.filterMap Outcome.unreadable? ↔ .unreadable u ∈ outcomes := by
  rw [List.mem_filterMap]
  constructor
  · rintro ⟨o, ho, hu⟩
    cases o with
    | scanned r => cases hu
    | unreadable u' =>
        cases hu
        exact ho
  · exact fun ho => ⟨_, ho, rfl⟩

/-- The finding that an event tells of. -/
def Event.finding? : Event → Option Diagnostic
  | .finding x => some x
  | .log _ => none
  | .scanned _ _ => none
  | .unreadable _ => none

-- =============================================================== totals

/-- Counts one outcome. -/
def Totals.count (t : Totals) : Outcome → Totals
  | .scanned report => t.countFile report.diagnostics.length
  | .unreadable _ => t.countUnreadable

/-- The totals of a row of outcomes. -/
def Totals.ofOutcomes (outcomes : List Outcome) : Totals where
  processed := (outcomes.filterMap Outcome.report?).length
  flagged := (outcomes.filterMap Outcome.report?).countP FileReport.hasFindings
  findings := ((outcomes.filterMap Outcome.report?).flatMap FileReport.diagnostics).length
  unreadable := (outcomes.filterMap Outcome.unreadable?).length

/-- Counting one more outcome in front. -/
theorem Totals.foldl_count (outcomes : List Outcome) (t : Totals) :
    outcomes.foldl Totals.count t
      = { processed := t.processed + (Totals.ofOutcomes outcomes).processed
          flagged := t.flagged + (Totals.ofOutcomes outcomes).flagged
          findings := t.findings + (Totals.ofOutcomes outcomes).findings
          unreadable := t.unreadable + (Totals.ofOutcomes outcomes).unreadable } := by
  induction outcomes generalizing t with
  | nil => simp [Totals.ofOutcomes]
  | cons o rest ih =>
      rw [List.foldl_cons, ih]
      cases o with
      | unreadable u =>
          simp only [Totals.count, Totals.countUnreadable, Totals.ofOutcomes, Outcome.report?,
            Outcome.unreadable?, List.filterMap_cons, List.length_cons, Totals.mk.injEq, true_and]
          omega
      | scanned report =>
          cases hfound : report.diagnostics with
          | nil =>
              simp only [Totals.count, Totals.countFile, Totals.ofOutcomes, Outcome.report?,
                Outcome.unreadable?, List.filterMap_cons, List.length_cons, List.countP_cons,
                FileReport.hasFindings, List.flatMap_cons, hfound, Totals.mk.injEq]
              simp
              omega
          | cons first more =>
              simp only [Totals.count, Totals.countFile, Totals.ofOutcomes, Outcome.report?,
                Outcome.unreadable?, List.filterMap_cons, List.length_cons, List.countP_cons,
                FileReport.hasFindings, List.flatMap_cons, hfound, Totals.mk.injEq]
              simp
              omega

-- ============================================================= tallying

namespace Audit

/-- Each outcome goes to its own list, its events to the front. -/
theorem add_eq (subs : Subscriptions) (t : Tally) (o : Outcome) :
    t.add subs o
      = { totals := t.totals.count o
          reports := o.report?.toList ++ t.reports
          unreadable := o.unreadable?.toList ++ t.unreadable
          events := (eventsOf subs o).reverse ++ t.events } := by
  cases o <;> rfl

theorem foldl_add (subs : Subscriptions) (t : Tally) (outcomes : List Outcome) :
    outcomes.foldl (Tally.add subs) t
      = { totals := outcomes.foldl Totals.count t.totals
          reports := (outcomes.filterMap Outcome.report?).reverse ++ t.reports
          unreadable := (outcomes.filterMap Outcome.unreadable?).reverse ++ t.unreadable
          events := (outcomes.flatMap (eventsOf subs)).reverse ++ t.events } := by
  induction outcomes generalizing t with
  | nil => rfl
  | cons o rest ih =>
      rw [List.foldl_cons, ih, add_eq]
      cases o <;> simp [Outcome.report?, Outcome.unreadable?, List.filterMap_cons]

/-- The audit of a row of outcomes. -/
theorem ofOutcomes_eq (settings : Settings) (subs : Subscriptions) (outcomes : List Outcome) :
    ofOutcomes settings subs outcomes
      = { settings
          totals := Totals.ofOutcomes outcomes
          reports := outcomes.filterMap Outcome.report?
          unreadable := outcomes.filterMap Outcome.unreadable?
          events := outcomes.flatMap (eventsOf subs)
            ++ [closing (Totals.ofOutcomes outcomes)] } := by
  have htotals : outcomes.foldl Totals.count {} = Totals.ofOutcomes outcomes := by
    rw [Totals.foldl_count]
    simp
  unfold ofOutcomes
  rw [foldl_add, htotals]
  simp

theorem findings_eventsOf {subs : Subscriptions} (hsubs : subs.findings = true) (o : Outcome) :
    (eventsOf subs o).filterMap Event.finding?
      = o.report?.toList.flatMap FileReport.diagnostics := by
  cases o with
  | unreadable u =>
      cases hu : subs.unreadable <;>
        simp [eventsOf, hu, record, Event.finding?, Outcome.report?, List.filterMap_cons]
  | scanned report =>
      have hown : (report.diagnostics.map Event.finding).filterMap Event.finding?
          = report.diagnostics := by
        rw [List.filterMap_map]
        exact List.filterMap_some
      cases hf : subs.files <;>
        simp [eventsOf, hsubs, hf, hown, Event.finding?, Outcome.report?, List.filterMap_cons]

/-- A subscriber to findings gets them all, in order. -/
theorem findings_flatMap_eventsOf {subs : Subscriptions} (hsubs : subs.findings = true)
    (outcomes : List Outcome) :
    (outcomes.flatMap (eventsOf subs)).filterMap Event.finding?
      = (outcomes.filterMap Outcome.report?).flatMap FileReport.diagnostics := by
  induction outcomes with
  | nil => rfl
  | cons o rest ih =>
      rw [List.flatMap_cons, List.filterMap_append, ih, findings_eventsOf hsubs]
      cases o <;> simp [Outcome.report?, List.filterMap_cons]

end Audit

-- ======================================================= audits of roots

namespace Disk

variable {d : Disk} {settings : Settings} {subs : Subscriptions} {root : Path}

/-- What is logged before the first file is scanned. -/
def opening (root : Path) (found : Discovery.Found) : List Event :=
  Audit.record .info ("beginning scan of " ++ root.text)
    :: (found.records.map .log
      ++ [Audit.record .debug
        ("discovered " ++ toString found.files.length ++ " candidate file(s)")])

theorem findings_opening (root : Path) (found : Discovery.Found) :
    (opening root found).filterMap Event.finding? = [] := by
  have hrecords : (found.records.map Event.log).filterMap Event.finding? = [] := by
    rw [List.filterMap_map, List.filterMap_eq_nil_iff]
    exact fun _ _ => rfl
  simp [opening, Audit.record, Event.finding?, List.filterMap_cons, hrecords]

/-- An audit of a root is that of the outcomes of the files found. -/
theorem auditBelow_eq_ok {a : Audit} :
    d.auditBelow settings subs root = .ok a
      ↔ ∃ found outcomes, Discovery.filesBelow d settings root = .ok found
        ∧ d.outcomesInTurn found.files = .ok outcomes
        ∧ a = { settings
                totals := Totals.ofOutcomes outcomes
                reports := outcomes.filterMap Outcome.report?
                unreadable := outcomes.filterMap Outcome.unreadable?
                events := opening root found ++ (outcomes.flatMap (Audit.eventsOf subs)
                  ++ [Audit.closing (Totals.ofOutcomes outcomes)]) } := by
  unfold auditBelow
  cases hfound : Discovery.filesBelow d settings root with
  | error failure =>
      constructor
      · nofun
      · rintro ⟨_, _, hno, -⟩
        cases hno
  | ok found =>
      show (do
        let audit ← d.audit settings subs found.files
        return { audit with events := opening root found ++ audit.events }) = _ ↔ _
      rw [audit_eq_map]
      cases houtcomes : d.outcomesInTurn found.files with
      | error failure =>
          constructor
          · nofun
          · rintro ⟨_, _, hf, ho, -⟩
            cases hf
            rw [houtcomes] at ho
            cases ho
      | ok outcomes =>
          constructor
          · intro h
            cases h
            exact ⟨found, outcomes, rfl, houtcomes, by rw [Audit.ofOutcomes_eq]⟩
          · rintro ⟨_, _, hf, ho, rfl⟩
            cases hf
            rw [houtcomes] at ho
            cases ho
            show Except.ok _ = _
            rw [Audit.ofOutcomes_eq]

end Disk

end DocAudit
