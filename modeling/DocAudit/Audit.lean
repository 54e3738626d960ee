/-
An audit: the files of a run, scanned and counted. Along the way it emits
events, in the order in which things happen: log records, each finding, a
note when a file is done, and a note on each file that could not be read.
Log records always come; the other kinds come only to those who subscribe
to them, and nothing else depends on who does.
-/
import DocAudit.Discovery
import DocAudit.Outcome
import DocAudit.Totals

namespace DocAudit

/-- Something that happens during an audit. -/
inductive Event where
  | log (record : Log.Record)
  | finding (d : Diagnostic)
  /-- A file is done, with so many findings. -/
  | scanned (path : Path) (findings : Nat)
  | unreadable (u : Unreadable)
  deriving DecidableEq, Repr

/-- The kinds of events that are asked for. -/
structure Subscriptions where
  findings : Bool := false
  files : Bool := false
  unreadable : Bool := false
  deriving DecidableEq, Repr

/-- The result of an audit. -/
structure Audit where
  settings : Settings
  totals : Totals
  reports : List FileReport
  unreadable : List Unreadable
  /-- What happened, in order. -/
  events : List Event
  deriving DecidableEq, Repr

namespace Audit

/-- All findings, file by file. -/
def diagnostics (a : Audit) : List Diagnostic :=
  a.reports.flatMap FileReport.diagnostics

/-- The part of the program that audits, by its name in the log. -/
def logger : String := "jccs.audit"

/-- A log record of the audit itself. -/
def record (level : Log.Level) (message : String) : Event :=
  .log ⟨level, logger, message⟩

-- =========================================================== tallying

/-- An audit under way; lists are kept last first. -/
structure Tally where
  totals : Totals := {}
  reports : List FileReport := []
  unreadable : List Unreadable := []
  events : List Event := []
  deriving DecidableEq, Repr

/-- The events that one outcome causes. -/
def eventsOf (subs : Subscriptions) : Outcome → List Event
  | .scanned report =>
      (if subs.findings then report.diagnostics.map .finding else [])
        ++ (if subs.files then [.scanned report.path report.diagnostics.length] else [])
  | .unreadable u =>
      record .error ("cannot read " ++ u.path.text ++ ": " ++ u.fault.reason)
        :: (if subs.unreadable then [.unreadable u] else [])

/-- Counts one outcome. -/
def Tally.add (subs : Subscriptions) (t : Tally) (o : Outcome) : Tally :=
  let events := (eventsOf subs o).reverse ++ t.events
  match o with
  | .scanned report =>
      { t with
        totals := t.totals.countFile report.diagnostics.length
        reports := report :: t.reports
        events := events }
  | .unreadable u =>
      { t with
        totals := t.totals.countUnreadable
        unreadable := u :: t.unreadable
        events := events }

/-- The record that ends an audit. -/
def closing (t : Totals) : Event :=
  record .debug
    ("processed " ++ toString t.processed ++ " file(s), " ++ toString t.flagged
      ++ " with missing comments, " ++ toString t.unreadable ++ " unreadable")

/-- Counts outcomes in turn. -/
def ofOutcomes (settings : Settings) (subs : Subscriptions) (outcomes : List Outcome) : Audit :=
  let t := outcomes.foldl (Tally.add subs) {}
  { settings
    totals := t.totals
    reports := t.reports.reverse
    unreadable := t.unreadable.reverse
    events := t.events.reverse ++ [closing t.totals] }

end Audit

-- ============================================================= audits

namespace Disk

/-- Audits given files. -/
def audit (d : Disk) (settings : Settings) (subs : Subscriptions) (files : List Path) :
    Except Failure Audit := do
  let outcomes ← d.outcomes settings.workers files
  return Audit.ofOutcomes settings subs outcomes

/-- Audits the files below a root. -/
def auditBelow (d : Disk) (settings : Settings) (subs : Subscriptions) (root : Path) :
    Except Failure Audit := do
  let found ← Discovery.filesBelow d settings root
  let audit ← d.audit settings subs found.files
  let opening :=
    Audit.record .info ("beginning scan of " ++ root.text)
      :: (found.records.map .log
        ++ [Audit.record .debug
          ("discovered " ++ toString found.files.length ++ " candidate file(s)")])
  return { audit with events := opening ++ audit.events }

end Disk

end DocAudit
