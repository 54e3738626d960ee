/-
An audit accounts for every file. Whatever files it is given, and whoever
listens, each file ends up in one of the two lists, once and in its turn;
the counters are sizes of these lists; and what is heard along the way is
one block for each file, again in turn.

# Places

That nothing is lost or told twice is a matter of places: the reports
stand at some places of the row of files and the unreadable files at the
others (`places`). Both rows of places go up, and together they are
all places there are.

# Listeners

A listener to fewer kinds of events hears what a listener to all of them
hears, less the kinds not asked for (`eventsOf_eq_filter`). Nothing else in
the audit depends on listeners, the log included.
-/
import DocAudit.Proofs.CommentHistory
import DocAudit.Proofs.Tallying

namespace DocAudit

-- =============================================================== places

/-- The places of a list at which a partial function has a value. -/
def places {α β : Type} (f : α → Option β) (items : List α) : List Nat :=
  (List.range items.length).filter fun i => (items[i]?.bind f).isSome

theorem places_cons {α β : Type} (f : α → Option β) (item : α) (rest : List α) :
    places f (item :: rest)
      = (if (f item).isSome then [0] else []) ++ (places f rest).map (· + 1) := by
  unfold places
  rw [List.length_cons, List.range_succ_eq_map, List.filter_cons, List.filter_map]
  have hfirst : ((item :: rest)[0]?.bind f).isSome = (f item).isSome := rfl
  rw [hfirst]
  split <;> rfl

theorem pairwise_places {α β : Type} (f : α → Option β) (items : List α) :
    (places f items).Pairwise (· < ·) :=
  List.pairwise_lt_range.filter _

/-- The values, in order, belong to the places. -/
theorem forall₂_places {α β γ : Type} {R : γ → α → Prop} {keys : List γ} {items : List α}
    (h : List.Forall₂ R keys items) (f : α → Option β) :
    List.Forall₂ (fun i value => ∃ key item, keys[i]? = some key ∧ R key item ∧ f item = some value)
      (places f items) (items.filterMap f) := by
  induction h with
  | nil => exact .nil
  | @cons key item keys items hfirst _ ih =>
      have hrest : List.Forall₂
          (fun i value => ∃ k x, (key :: keys)[i]? = some k ∧ R k x ∧ f x = some value)
          ((places f items).map (· + 1)) (items.filterMap f) :=
        List.forall₂_map_left_iff.2 ih
      rw [places_cons, List.filterMap_cons]
      cases hvalue : f item with
      | none => exact hrest
      | some value => exact .cons ⟨key, item, rfl, hfirst, hvalue⟩ hrest

/-- Every outcome is a report or an unreadable file, and not both. -/
theorem Outcome.isSome_unreadable? (o : Outcome) : o.unreadable?.isSome = !o.report?.isSome := by
  cases o <;> rfl

/-- The places of reports and of unreadable files are all places. -/
theorem perm_places (outcomes : List Outcome) :
    (places Outcome.report? outcomes ++ places Outcome.unreadable? outcomes).Perm
      (List.range outcomes.length) := by
  have hother : places Outcome.unreadable? outcomes
      = (List.range outcomes.length).filter
          fun i => !(outcomes[i]?.bind Outcome.report?).isSome := by
    unfold places
    apply List.filter_congr
    intro i hi
    rw [List.getElem?_eq_getElem (List.mem_range.1 hi)]
    exact Outcome.isSome_unreadable? _
  rw [hother]
  exact List.filter_append_perm _ _

-- =============================================================== events

/-- All kinds of events. -/
def Subscriptions.all : Subscriptions :=
  ⟨true, true, true⟩

/-- Is an event of a kind that is asked for? Log records always come. -/
def Subscriptions.wants (subs : Subscriptions) : Event → Bool
  | .log _ => true
  | .finding _ => subs.findings
  | .scanned _ _ => subs.files
  | .unreadable _ => subs.unreadable

/-- The record of a log event. -/
def Event.record? : Event → Option Log.Record
  | .log record => some record
  | .finding _ => none
  | .scanned _ _ => none
  | .unreadable _ => none

/-- Is an event one that listeners are told of, and not a log record? -/
def Event.isTold (e : Event) : Bool :=
  e.record?.isNone

/-- What listeners to everything are told of one outcome: each finding,
then that the file is done; or that it cannot be read. -/
def Outcome.block : Outcome → List Event
  | .scanned report =>
      report.diagnostics.map .finding ++ [.scanned report.path report.diagnostics.length]
  | .unreadable u => [.unreadable u]

/-- No record is held back from anyone. -/
theorem records_filter_wants (subs : Subscriptions) (events : List Event) :
    (events.filter subs.wants).filterMap Event.record? = events.filterMap Event.record? := by
  rw [List.filterMap_filter]
  apply List.filterMap_congr
  intro e _
  cases e with
  | log record => rfl
  | _ => exact ite_self none

namespace Audit

/-- Who asks for less is told less, and what is told comes in the same
order. -/
theorem eventsOf_eq_filter (subs : Subscriptions) (o : Outcome) :
    eventsOf subs o = (eventsOf .all o).filter subs.wants := by
  cases o with
  | unreadable u =>
      cases h : subs.unreadable <;>
        simp [eventsOf, record, Subscriptions.all, List.filter_cons, Subscriptions.wants, h]
  | scanned report =>
      have hfindings : (report.diagnostics.map Event.finding).filter subs.wants
          = if subs.findings then report.diagnostics.map Event.finding else [] := by
        cases h : subs.findings <;>
          simp [List.filter_map, Function.comp_def, Subscriptions.wants, h]
      cases h : subs.files <;>
        simp [eventsOf, Subscriptions.all, hfindings, Subscriptions.wants, h]

theorem told_eventsOf (o : Outcome) : (eventsOf .all o).filter Event.isTold = o.block := by
  cases o with
  | unreadable u => rfl
  | scanned report =>
      have hfindings : (report.diagnostics.map Event.finding).filter Event.isTold
          = report.diagnostics.map Event.finding := by
        apply List.filter_eq_self.2
        intro e he
        obtain ⟨x, -, rfl⟩ := List.mem_map.1 he
        rfl
      show (report.diagnostics.map Event.finding ++ [_]).filter Event.isTold = _
      rw [List.filter_append, hfindings]
      rfl

/-- An audit for some listeners is the audit for all of them, less what
they did not ask for. -/
theorem ofOutcomes_eq_filter (settings : Settings) (subs : Subscriptions)
    (outcomes : List Outcome) :
    ofOutcomes settings subs outcomes
      = { ofOutcomes settings .all outcomes with
          events := (ofOutcomes settings .all outcomes).events.filter subs.wants } := by
  rw [ofOutcomes_eq, ofOutcomes_eq]
  simp only [List.filter_append, List.filter_flatMap, ← eventsOf_eq_filter]
  rfl

/-- Listeners to everything are told a block for each outcome. -/
theorem told_ofOutcomes (settings : Settings) (outcomes : List Outcome) :
    (ofOutcomes settings .all outcomes).events.filter Event.isTold
      = outcomes.flatMap Outcome.block := by
  rw [ofOutcomes_eq]
  simp only [List.filter_append, List.filter_flatMap, told_eventsOf]
  exact List.append_nil _

end Audit

-- =============================================================== result

/-- Findings are made in the order of the lines. -/
theorem FileReport.pairwise_lines_ofLines (path : Path) (lines : List (List Char)) :
    ((ofLines path lines).diagnostics.map Diagnostic.line).Pairwise (· < ·) := by
  have hfound := CommentHistory.found_readAll (Reading.start path) lines
  show ((Reading.readAll [] (Reading.start path) lines).1.reverse.map Diagnostic.line).Pairwise _
  rw [hfound, List.map_map, List.pairwise_map]
  apply (List.pairwise_lt_range.filter _).imp
  intro i k hik
  show ((Reading.start path).lineNumber + (i + 1) : Int) < (Reading.start path).lineNumber + (k + 1)
  omega

namespace Disk

variable {d : Disk} {settings : Settings} {subs : Subscriptions} {files : List Path}

theorem audit_eq_ok {a : Audit} :
    d.audit settings subs files = .ok a
      ↔ ∃ outcomes, List.Forall₂ d.HasOutcome files outcomes
        ∧ a = Audit.ofOutcomes settings subs outcomes := by
  rw [audit_eq_map]
  cases houtcomes : d.outcomesInTurn files with
  | error failure =>
      constructor
      · nofun
      · intro h
        obtain ⟨outcomes, hall, -⟩ := h
        rw [outcomesInTurn_eq_ok.2 hall] at houtcomes
        cases houtcomes
  | ok outcomes =>
      have hall := outcomesInTurn_eq_ok.1 houtcomes
      constructor
      · intro h
        cases h
        exact ⟨outcomes, hall, rfl⟩
      · intro h
        obtain ⟨others, hothers, rfl⟩ := h
        rw [outcomesInTurn_eq_ok.2 hothers] at houtcomes
        cases houtcomes
        rfl

/-- Findings of a file that was read come in the order of its lines. -/
theorem pairwise_lines_of_report {p : Path} {report : FileReport} (h : d.report p = .ok report) :
    (report.diagnostics.map Diagnostic.line).Pairwise (· < ·) := by
  unfold Disk.report at h
  split at h
  · cases h
    exact FileReport.pairwise_lines_ofLines _ _
  · cases h

/-- The reports stand at the places of the files that can be read. -/
theorem reports_at_places {outcomes : List Outcome} (h : List.Forall₂ d.HasOutcome files outcomes) :
    List.Forall₂ (fun i report => ∃ p, files[i]? = some p ∧ d.report p = .ok report)
      (places Outcome.report? outcomes) (outcomes.filterMap Outcome.report?) := by
  apply (forall₂_places h Outcome.report?).imp
  intro i report hplace
  obtain ⟨p, o, hp, houtcome, hreport⟩ := hplace
  cases houtcome with
  | scanned hread =>
      cases hreport
      exact ⟨p, hp, hread⟩
  | unreadable => cases hreport

/-- The unreadable files stand at the places of the others. -/
theorem unreadable_at_places {outcomes : List Outcome}
    (h : List.Forall₂ d.HasOutcome files outcomes) :
    List.Forall₂ (fun i u => ∃ p fault, files[i]? = some p
        ∧ d.report p = .error (.fault fault) ∧ u = ⟨p, fault⟩)
      (places Outcome.unreadable? outcomes) (outcomes.filterMap Outcome.unreadable?) := by
  apply (forall₂_places h Outcome.unreadable?).imp
  intro i u hplace
  obtain ⟨p, o, hp, houtcome, hu⟩ := hplace
  cases houtcome with
  | scanned => cases hu
  | unreadable hread =>
      cases hu
      exact ⟨p, _, hp, hread, rfl⟩

/-- An audit that completes accounts for its files. The reports are those
of the files that could be read, the unreadable files are the others, both
in the order of the files, and each place in the row of files belongs to
one of them. The counters are the sizes of these lists. Listeners are told
one block for each file, in order, less the kinds they did not ask for;
for whichever kinds those are, the rest of the audit is the same and so is
the log. -/
theorem audit_accounts {a : Audit} (h : d.audit settings subs files = .ok a) :
    ∃ (outcomes : List Outcome) (readable failing : List Nat) (full : Audit),
      List.Forall₂ d.HasOutcome files outcomes
      ∧ readable.Pairwise (· < ·) ∧ failing.Pairwise (· < ·)
      ∧ (readable ++ failing).Perm (List.range files.length)
      ∧ List.Forall₂ (fun i report => ∃ p, files[i]? = some p ∧ d.report p = .ok report)
        readable a.reports
      ∧ List.Forall₂ (fun i u => ∃ p fault, files[i]? = some p
          ∧ d.report p = .error (.fault fault) ∧ u = ⟨p, fault⟩) failing a.unreadable
      ∧ a.totals.processed = a.reports.length ∧ a.totals.unreadable = a.unreadable.length
      ∧ a.totals.processed + a.totals.unreadable = files.length
      ∧ a.totals.flagged = a.reports.countP FileReport.hasFindings
      ∧ a.totals.findings = a.diagnostics.length
      ∧ (∀ report ∈ a.reports, (report.diagnostics.map Diagnostic.line).Pairwise (· < ·))
      ∧ d.audit settings .all files = .ok full
      ∧ full.events.filter Event.isTold = outcomes.flatMap Outcome.block
      ∧ a = { full with events := full.events.filter subs.wants }
      ∧ a.events.filterMap Event.record? = full.events.filterMap Event.record? := by
  obtain ⟨outcomes, hall, ha⟩ := audit_eq_ok.1 h
  have hfull : d.audit settings .all files = .ok (Audit.ofOutcomes settings .all outcomes) :=
    audit_eq_ok.2 ⟨outcomes, hall, rfl⟩
  have hless := ha.trans (Audit.ofOutcomes_eq_filter settings subs outcomes)
  have hlogged : a.events.filterMap Event.record?
      = (Audit.ofOutcomes settings .all outcomes).events.filterMap Event.record? := by
    rw [hless]
    exact records_filter_wants subs _
  have hreports := reports_at_places hall
  have hunreadable := unreadable_at_places hall
  have hperm := perm_places outcomes
  rw [← hall.length_eq] at hperm
  have hcount : (outcomes.filterMap Outcome.report?).length
      + (outcomes.filterMap Outcome.unreadable?).length = files.length := by
    rw [← hreports.length_eq, ← hunreadable.length_eq, ← List.length_append, hperm.length_eq,
      List.length_range]
  have hlines : ∀ report ∈ outcomes.filterMap Outcome.report?,
      (report.diagnostics.map Diagnostic.line).Pairwise (· < ·) := by
    intro report hmem
    obtain ⟨p, -, houtcome⟩ :=
      (mem_outcomes_iff (outcomesInTurn_eq_ok.2 hall)).1 (Outcome.mem_reports.1 hmem)
    cases outcome_eq_ok.1 houtcome with
    | scanned hread => exact pairwise_lines_of_report hread
  obtain ⟨hreportsOf, hunreadableOf, htotalsOf⟩ : a.reports = outcomes.filterMap Outcome.report?
      ∧ a.unreadable = outcomes.filterMap Outcome.unreadable?
      ∧ a.totals = Totals.ofOutcomes outcomes := by
    rw [ha, Audit.ofOutcomes_eq]
    exact ⟨rfl, rfl, rfl⟩
  rw [← hreportsOf] at hreports hcount hlines
  rw [← hunreadableOf] at hunreadable hcount
  have hprocessed : a.totals.processed = a.reports.length := by
    rw [htotalsOf, hreportsOf]
    rfl
  have hfailed : a.totals.unreadable = a.unreadable.length := by
    rw [htotalsOf, hunreadableOf]
    rfl
  refine ⟨outcomes, _, _, _, hall, pairwise_places _ _, pairwise_places _ _, hperm, hreports,
    hunreadable, hprocessed, hfailed, ?_, ?_, ?_, hlines, hfull,
    Audit.told_ofOutcomes settings outcomes, hless, hlogged⟩
  · omega
  · rw [htotalsOf, hreportsOf]
    rfl
  · rw [htotalsOf, Audit.diagnostics, hreportsOf]
    rfl

/-- A file with a finding, one without and one that cannot be read. -/
def trio : Disk where
  tree :=
    { here := ["w"]
      entries := [(["w"], .directory), (["w", "C.java"], .file []), (["w", "B.java"], .file []),
        (["w", "A.java"], .file ("class A\n".toList.map (·.toNat.toUInt8)))]
      proper := by decide }
  unreadable := [("B.java", .coded 13 "Permission denied")]

/-- The files of `trio`, the first of them twice. -/
def trioFiles : List Path :=
  [⟨.here, ["A.java"]⟩, ⟨.here, ["B.java"]⟩, ⟨.here, ["A.java"]⟩, ⟨.here, ["C.java"]⟩]

/-- Four places are accounted for, and who asks for unreadable files only
hears of the one there is. -/
theorem trio_accounts :
    ∃ (a full : Audit) (outcomes : List Outcome),
      trio.audit {} { unreadable := true } trioFiles = .ok a
      ∧ trio.audit {} .all trioFiles = .ok full
      ∧ a.totals.processed + a.totals.unreadable = 4
      ∧ full.events.filter Event.isTold = outcomes.flatMap Outcome.block
      ∧ a = { full with events := full.events.filter (Subscriptions.wants { unreadable := true }) }
      ∧ a.events.filter Event.isTold
        = [.unreadable ⟨⟨.here, ["B.java"]⟩, ⟨.coded 13 "Permission denied", "B.java"⟩⟩] := by
  have htold : (trio.audit {} { unreadable := true } trioFiles).map
        (fun a => a.events.filter Event.isTold)
      = .ok [.unreadable ⟨⟨.here, ["B.java"]⟩, ⟨.coded 13 "Permission denied", "B.java"⟩⟩] := by
    decide +kernel
  cases h : trio.audit {} { unreadable := true } trioFiles with
  | error failure =>
      rw [h] at htold
      cases htold
  | ok a =>
      rw [h] at htold
      obtain ⟨outcomes, -, -, full, -, -, -, -, -, -, -, -, hcount, -, -, -, hfull, hblocks, hless,
        -⟩ := audit_accounts h
      exact ⟨a, full, outcomes, rfl, hfull, hcount, hblocks, hless, Except.ok.inj htold⟩

end Disk

end DocAudit
