/-
The course of an audit. An audit that fails has done something before: it
has begun, the search has left records, files may have been scanned. The
course has all that happened, in order, and the result, which is the
audit or the failure that put an end to it.
-/
import DocAudit.Audit

namespace DocAudit

/-- What happened during an audit, and what it came to. -/
structure Course where
  events : List Event
  result : Except Failure Audit
  deriving Repr

namespace Disk

/-- The course of an audit of the files below a root. -/
def courseBelow (d : Disk) (settings : Settings) (subs : Subscriptions) (root : Path) : Course :=
  let (found, stopped) := Discovery.searchBelow d settings root
  let begun := Audit.record .info ("beginning scan of " ++ root.text) :: found.records.map .log
  match stopped with
  | some failure => ⟨begun, .error failure⟩
  | none =>
      let begun := begun ++ [Audit.record .debug
        ("discovered " ++ toString found.files.length ++ " candidate file(s)")]
      let (outcomes, stopped) := d.outcomesUntil settings.workers found.files
      match stopped with
      | some failure => ⟨begun ++ outcomes.flatMap (Audit.eventsOf subs), .error failure⟩
      | none =>
          let audit := Audit.ofOutcomes settings subs outcomes
          ⟨begun ++ audit.events, .ok { audit with events := begun ++ audit.events }⟩

/-- An audit is what its course comes to. -/
theorem auditBelow_eq_result (d : Disk) (settings : Settings) (subs : Subscriptions)
    (root : Path) :
    d.auditBelow settings subs root = (d.courseBelow settings subs root).result := by
  unfold auditBelow courseBelow
  rw [Discovery.filesBelow_eq_searchBelow]
  generalize Discovery.searchBelow d settings root = searched
  obtain ⟨found, stopped⟩ := searched
  cases stopped with
  | some failure => rfl
  | none =>
      simp only [completed, bind, Except.bind, audit, outcomes_eq_outcomesUntil]
      generalize d.outcomesUntil settings.workers found.files = scanned
      obtain ⟨outcomes, stopped⟩ := scanned
      cases stopped <;> rfl

/-- An audit that comes to its end has all that happened. -/
theorem events_of_result {d : Disk} {settings : Settings} {subs : Subscriptions} {root : Path}
    {a : Audit} (h : (d.courseBelow settings subs root).result = .ok a) :
    (d.courseBelow settings subs root).events = a.events := by
  unfold courseBelow at h ⊢
  generalize Discovery.searchBelow d settings root = searched at h ⊢
  obtain ⟨found, stopped⟩ := searched
  cases stopped with
  | some failure => cases h
  | none =>
      simp only [] at h ⊢
      generalize d.outcomesUntil settings.workers found.files = scanned at h ⊢
      obtain ⟨outcomes, stopped⟩ := scanned
      cases stopped with
      | some failure => cases h
      | none =>
          cases h
          rfl

end Disk

end DocAudit
