/-
A pool does what a single worker does. Files are scanned by as many
workers as there are, which pick up tasks and finish them in any order;
the outcomes are handed over in the order of the files. Whatever the
workers do, what is handed over is what scanning the files one after the
other would give.

# The pool at work

`Status` is a pool between two actions: tasks that wait, tasks that run,
tasks in the order in which they were finished, and the answers handed
over. `Action` says what may happen next. Any waiting task may be picked
up while a worker is free, any running task may finish, and the answer
that is due may be handed over as soon as its slot is filled.

# Why the order does not matter

A slot depends on whether its task has been finished, not on when
(`getElem?_slotsAfter`). So an answer handed over is the one a single
worker would have given, in every state that can be reached
(`Reached.sound`). No task is lost or done twice, so a pool with a worker
never gets stuck (`Reached.exists_action`); each action brings it nearer to
its end (`effort_lt`), and at the end all answers have been handed over.
-/
import DocAudit.Audit
import Mathlib.Data.List.Forall2

namespace DocAudit

namespace Pool

variable {α β : Type} {task : α → β} {jobs : List α} {threads : Nat}

-- ================================================================ slots

theorem length_finish (slots : List (Option β)) (n : Nat) :
    (finish task jobs slots n).length = slots.length := by
  unfold finish
  split <;> simp

/-- Finishing a task fills its own slot and no other. -/
theorem getElem?_finish {slots : List (Option β)} (hlen : slots.length = jobs.length) (n : Nat)
    {i : Nat} {job : α} (hjob : jobs[i]? = some job) :
    (finish task jobs slots n)[i]? = if n = i then some (some (task job)) else slots[i]? := by
  obtain ⟨hi, -⟩ := List.getElem?_eq_some_iff.1 hjob
  by_cases hn : n = i
  · subst hn
    simp only [finish, hjob, if_true]
    rw [List.getElem?_set_self (by omega)]
  · rw [if_neg hn]
    unfold finish
    split
    · rw [List.getElem?_set_ne hn]
    · rfl

theorem length_slotsAfter (task : α → β) (jobs : List α) (schedule : List Nat) :
    (slotsAfter task jobs schedule).length = jobs.length := by
  unfold slotsAfter
  suffices h : ∀ slots : List (Option β),
      (schedule.foldl (finish task jobs) slots).length = slots.length by
    rw [h, List.length_map]
  induction schedule with
  | nil => exact fun _ => rfl
  | cons n rest ih =>
      intro slots
      rw [List.foldl_cons, ih, length_finish]

theorem slotsAfter_concat (schedule : List Nat) (n : Nat) :
    slotsAfter task jobs (schedule ++ [n]) = finish task jobs (slotsAfter task jobs schedule) n := by
  unfold slotsAfter
  rw [List.foldl_append]
  rfl

/-- A slot is filled if its task has been finished, whenever that was. -/
theorem getElem?_slotsAfter (task : α → β) (schedule : List Nat) {i : Nat} {job : α}
    (hjob : jobs[i]? = some job) :
    (slotsAfter task jobs schedule)[i]?
      = some (if i ∈ schedule then some (task job) else none) := by
  -- from the end of the schedule, since the task finished last is set last
  induction hrev : schedule.reverse generalizing schedule with
  | nil =>
      obtain rfl := List.reverse_eq_nil_iff.1 hrev
      rw [if_neg List.not_mem_nil, slotsAfter, List.foldl_nil, List.getElem?_map, hjob]
      rfl
  | cons n before ih =>
      obtain rfl := List.reverse_eq_cons_iff.1 hrev
      rw [slotsAfter_concat, getElem?_finish (length_slotsAfter ..) n hjob,
        ih before.reverse (List.reverse_reverse _)]
      by_cases hn : n = i
      · simp [hn]
      · simp [hn, Ne.symm hn]

/-- A pool that has finished every task has the answers in the order of
the jobs. -/
theorem run_eq_map {schedule : List Nat} (h : ∀ n < jobs.length, n ∈ schedule) :
    run task jobs schedule = jobs.map task := by
  have hslots : slotsAfter task jobs schedule = (jobs.map task).map some := by
    apply List.ext_getElem?
    intro i
    cases hjob : jobs[i]? with
    | none =>
        rw [List.getElem?_eq_none_iff] at hjob
        rw [List.getElem?_eq_none (by rw [length_slotsAfter]; exact hjob),
          List.getElem?_eq_none (by simpa using hjob)]
    | some job =>
        obtain ⟨hi, -⟩ := List.getElem?_eq_some_iff.1 hjob
        rw [getElem?_slotsAfter task schedule hjob, if_pos (h i hi)]
        simp [hjob]
  unfold run
  rw [hslots, List.filterMap_map]
  simp

-- ============================================================== actions

/-- A pool between two actions; tasks are numbered as the jobs are. -/
structure Status (β : Type) where
  waiting : List Nat
  running : List Nat
  /-- Tasks in the order in which they were finished. -/
  finished : List Nat
  /-- The answers handed over, in order. -/
  yielded : List β

/-- Before anything is picked up. -/
def Status.start (jobs : List α) : Status β :=
  ⟨List.range jobs.length, [], [], []⟩

/-- What a pool with so many threads may do next. -/
inductive Action (task : α → β) (jobs : List α) (threads : Nat) :
    Status β → Status β → Prop where
  | pickUp {s : Status β} {n : Nat} (hwaiting : n ∈ s.waiting)
      (hfree : s.running.length < threads) :
      Action task jobs threads s
        { s with waiting := s.waiting.erase n, running := n :: s.running }
  | finish {s : Status β} {n : Nat} (hrunning : n ∈ s.running) :
      Action task jobs threads s
        { s with running := s.running.erase n, finished := s.finished ++ [n] }
  /-- The answer that is due is handed over once it is there. -/
  | yield {s : Status β} {answer : β}
      (hready : (slotsAfter task jobs s.finished)[s.yielded.length]? = some (some answer)) :
      Action task jobs threads s { s with yielded := s.yielded ++ [answer] }

/-- The states of a pool at work. -/
inductive Reached (task : α → β) (jobs : List α) (threads : Nat) : Status β → Prop where
  | start : Reached task jobs threads (.start jobs)
  | next {s s' : Status β} (h : Reached task jobs threads s)
      (haction : Action task jobs threads s s') : Reached task jobs threads s'

/-- What holds between two actions. -/
structure Sound (task : α → β) (jobs : List α) (threads : Nat) (s : Status β) : Prop where
  /-- Each task is in one stage. -/
  once : (s.waiting ++ (s.running ++ s.finished)).Perm (List.range jobs.length)
  busy : s.running.length ≤ threads
  /-- What has been handed over comes first in what one worker gives. -/
  serial : s.yielded <+: jobs.map task

/-- No action spoils what holds between them. -/
theorem Sound.action {s s' : Status β} (h : Sound task jobs threads s)
    (haction : Action task jobs threads s s') : Sound task jobs threads s' := by
  cases haction with
  | @pickUp n hwaiting hfree =>
      refine ⟨?_, hfree, h.serial⟩
      have hperm := (List.perm_cons_erase hwaiting).append_right (s.running ++ s.finished)
      exact (List.perm_middle.trans hperm.symm).trans h.once
  | @finish n hrunning =>
      refine ⟨?_, ?_, h.serial⟩
      · refine List.Perm.trans (List.Perm.append_left _ ?_) h.once
        have hperm := (List.perm_cons_erase hrunning).append_right s.finished
        have hlast : (s.running.erase n ++ (s.finished ++ [n])).Perm
            (n :: (s.running.erase n ++ s.finished)) := by
          rw [← List.append_assoc]
          exact List.perm_append_singleton n _
        exact hlast.trans hperm.symm
      · exact Nat.le_trans List.length_erase_le h.busy
  | @yield answer hready =>
      refine ⟨h.once, h.busy, ?_⟩
      -- the slot that is due holds the answer of the job with its number
      have hi : s.yielded.length < jobs.length := by
        rw [← length_slotsAfter task jobs s.finished]
        exact (List.getElem?_eq_some_iff.1 hready).1
      have hjob := List.getElem?_eq_getElem hi
      rw [getElem?_slotsAfter task _ hjob] at hready
      split at hready
      · have hanswer : task jobs[s.yielded.length] = answer := by simpa using hready
        obtain ⟨rest, hrest⟩ := h.serial
        have hdue : rest[0]? = some answer := by
          have hget := congrArg (fun l => l[s.yielded.length]?) hrest
          simp only [List.getElem?_append_right (Nat.le_refl _), Nat.sub_self, List.getElem?_map,
            hjob, Option.map_some, hanswer] at hget
          exact hget
        cases rest with
        | nil => cases hdue
        | cons first rest =>
            obtain rfl : first = answer := by simpa using hdue
            exact ⟨rest, by rw [List.append_assoc]; exact hrest⟩
      · cases hready

theorem Reached.sound {s : Status β} (h : Reached task jobs threads s) :
    Sound task jobs threads s := by
  induction h with
  | start => exact ⟨by simp [Status.start], Nat.zero_le _, List.nil_prefix⟩
  | next _ haction ih => exact ih.action haction

-- ============================================================= progress

/-- Everything has been handed over. -/
def Status.IsDone (jobs : List α) (s : Status β) : Prop :=
  s.yielded.length = jobs.length

/-- At the end the answers are those of a single worker. -/
theorem Reached.yielded_eq {s : Status β} (h : Reached task jobs threads s)
    (hdone : s.IsDone jobs) : s.yielded = jobs.map task :=
  h.sound.serial.eq_of_length (by rw [List.length_map]; exact hdone)

/-- A pool with a worker can go on until everything has been handed
over. -/
theorem Reached.exists_action {s : Status β} (h : Reached task jobs threads s)
    (hthreads : 0 < threads) (hdone : ¬s.IsDone jobs) :
    ∃ s', Action task jobs threads s s' := by
  have hsound := h.sound
  cases hrunning : s.running with
  | cons n rest => exact ⟨_, .finish (n := n) (by simp [hrunning])⟩
  | nil =>
      cases hwaiting : s.waiting with
      | cons n rest =>
          exact ⟨_, .pickUp (n := n) (by simp [hwaiting]) (by simpa [hrunning] using hthreads)⟩
      | nil =>
          -- all tasks are finished, so the answer that is due is there
          have hperm := hsound.once
          rw [hwaiting, hrunning, List.nil_append, List.nil_append] at hperm
          have hlen : s.yielded.length ≤ jobs.length := by
            simpa using hsound.serial.length_le
          have hi : s.yielded.length < jobs.length := Nat.lt_of_le_of_ne hlen hdone
          have hmem : s.yielded.length ∈ s.finished :=
            hperm.mem_iff.2 (List.mem_range.2 hi)
          have hready := getElem?_slotsAfter task s.finished (List.getElem?_eq_getElem hi)
          rw [if_pos hmem] at hready
          exact ⟨_, .yield hready⟩

/-- What is still to be done: a waiting task is to be picked up and
finished, a running one to be finished, and an answer to be handed
over. -/
def effort (jobs : List α) (s : Status β) : Nat :=
  2 * s.waiting.length + s.running.length + (jobs.length - s.yielded.length)

/-- Every action lessens the effort. -/
theorem effort_lt {s s' : Status β} (haction : Action task jobs threads s s') :
    effort jobs s' < effort jobs s := by
  unfold effort
  cases haction with
  | pickUp hwaiting =>
      have hlen := List.length_erase_of_mem hwaiting
      have hpos := List.length_pos_of_mem hwaiting
      simp only [List.length_cons]
      omega
  | finish hrunning =>
      have hlen := List.length_erase_of_mem hrunning
      have hpos := List.length_pos_of_mem hrunning
      simp only
      omega
  | yield hready =>
      have hi := (List.getElem?_eq_some_iff.1 hready).1
      rw [length_slotsAfter] at hi
      simp only [List.length_append, List.length_singleton]
      omega

end Pool

-- ============================================================= outcomes

/-- A function that may fail succeeds on a list if it does on each of its
items. -/
theorem mapM_eq_ok {ε γ δ : Type} {f : γ → Except ε δ} {items : List γ} {values : List δ} :
    items.mapM f = .ok values ↔ List.Forall₂ (fun item value => f item = .ok value) items values := by
  constructor
  · induction items generalizing values with
    | nil =>
        intro h
        cases h
        exact .nil
    | cons item rest ih =>
        intro h
        rw [List.mapM_cons] at h
        cases hitem : f item with
        | error e =>
            rw [hitem] at h
            cases h
        | ok value =>
            cases hrest : rest.mapM f with
            | error e =>
                rw [hitem, hrest] at h
                cases h
            | ok more =>
                rw [hitem, hrest] at h
                cases h
                exact .cons hitem (ih hrest)
  · intro h
    induction h with
    | nil => rfl
    | cons hitem _ ih =>
        rw [List.mapM_cons, hitem, ih]
        rfl

namespace Disk

variable {d : Disk}

/-- What scanning a file may come to. -/
inductive HasOutcome (d : Disk) (p : Path) : Outcome → Prop where
  | scanned {report : FileReport} (h : d.report p = .ok report) :
      HasOutcome d p (.scanned report)
  | unreadable {fault : Fault} (h : d.report p = .error (.fault fault)) :
      HasOutcome d p (.unreadable ⟨p, fault⟩)

theorem outcome_eq_ok {p : Path} {o : Outcome} : d.outcome p = .ok o ↔ d.HasOutcome p o := by
  constructor
  · intro h
    unfold outcome at h
    split at h
    · rename_i hreport
      cases h
      exact .scanned hreport
    · rename_i hreport
      cases h
      exact .unreadable hreport
    · cases h
  · intro h
    cases h with
    | scanned hreport => simp [outcome, hreport]
    | unreadable hreport => simp [outcome, hreport]

/-- One outcome for each file, in the order of the files. -/
theorem outcomesInTurn_eq_ok {files : List Path} {outcomes : List Outcome} :
    d.outcomesInTurn files = .ok outcomes ↔ List.Forall₂ d.HasOutcome files outcomes := by
  unfold outcomesInTurn
  rw [mapM_eq_ok, List.forall₂_map_left_iff]
  simp only [id_eq, outcome_eq_ok]

/-- The outcomes of files are those of each. -/
theorem mem_outcomes_iff {paths : List Path} {outcomes : List Outcome} {o : Outcome}
    (h : d.outcomesInTurn paths = .ok outcomes) :
    o ∈ outcomes ↔ ∃ p ∈ paths, d.outcome p = .ok o := by
  have hall := outcomesInTurn_eq_ok.1 h
  clear h
  induction hall with
  | nil => simp
  | @cons p first paths outcomes hfirst _ ih =>
      rw [← outcome_eq_ok] at hfirst
      simp [ih, hfirst, eq_comm]

/-- A pool that finishes every task scans as one worker does. -/
theorem outcomesByPool_eq (files : List Path) {schedule : List Nat}
    (h : ∀ n < files.length, n ∈ schedule) :
    d.outcomesByPool files schedule = d.outcomesInTurn files := by
  unfold outcomesByPool outcomesInTurn
  rw [Pool.run_eq_map h]

/-- The number of workers does not matter. -/
theorem outcomes_eq_inTurn (workers : Int) (files : List Path) :
    d.outcomes workers files = d.outcomesInTurn files := by
  unfold outcomes
  split
  · rfl
  · exact outcomesByPool_eq files fun n hn => List.mem_range.2 hn

theorem audit_eq_map (settings : Settings) (subs : Subscriptions) (files : List Path) :
    d.audit settings subs files
      = (d.outcomesInTurn files).map (Audit.ofOutcomes settings subs) := by
  unfold audit
  rw [outcomes_eq_inTurn]
  cases d.outcomesInTurn files <;> rfl

-- =============================================================== result

/-- How many threads a pool has for so many workers. -/
def threads (workers : Int) (files : List Path) : Nat :=
  (min workers files.length).toNat

/-- Scanning by a pool refines scanning in turn. In every state that the
pool can get to, the answers handed over are the first ones of a single
worker; a pool goes on until it has handed over all of them, and gets
there. So the outcomes are one for each file, in order, and the audit of
the files differs for two numbers of workers in nothing but that
number. -/
theorem parallel_refines_serial (d : Disk) (files : List Path) (workers : Int) :
    (∀ s, Pool.Reached d.outcome files (threads workers files) s →
        s.yielded <+: files.map d.outcome ∧ s.finished.Nodup
          ∧ (s.IsDone files → s.yielded = files.map d.outcome
            ∧ ∀ (settings : Settings) (subs : Subscriptions), settings.workers = workers →
              d.audit settings subs files
                = (s.yielded.mapM id).map (Audit.ofOutcomes settings subs)))
      ∧ (1 < workers → 1 < files.length →
        ∀ s, Pool.Reached d.outcome files (threads workers files) s →
          (s.IsDone files ∨ ∃ s', Pool.Action d.outcome files (threads workers files) s s')
            ∧ ∀ s', Pool.Action d.outcome files (threads workers files) s s' →
              Pool.effort files s' < Pool.effort files s)
      ∧ (∀ schedule : List Nat, schedule.Perm (List.range files.length) →
        d.outcomesByPool files schedule = d.outcomesInTurn files)
      ∧ d.outcomes workers files = d.outcomesInTurn files
      ∧ (∀ outcomes, d.outcomes workers files = .ok outcomes
        ↔ List.Forall₂ d.HasOutcome files outcomes)
      ∧ ∀ (settings : Settings) (subs : Subscriptions),
        d.audit { settings with workers } subs files
        = (d.audit { settings with workers := 1 } subs files).map
          fun a => { a with settings := { settings with workers } } := by
  refine ⟨?_, ?_, ?_, outcomes_eq_inTurn workers files, ?_, ?_⟩
  · intro s hs
    have hsound := hs.sound
    refine ⟨hsound.serial, ?_, ?_⟩
    · have hnodup := hsound.once.nodup_iff.2 List.nodup_range
      exact (List.nodup_append.1 (List.nodup_append.1 hnodup).2.1).2.1
    · intro hdone
      have hall := hs.yielded_eq hdone
      refine ⟨hall, fun settings subs _ => ?_⟩
      rw [audit_eq_map, hall]
      rfl
  · intro hworkers hfiles s hs
    have hthreads : 0 < threads workers files := by
      unfold threads
      omega
    refine ⟨?_, fun s' => Pool.effort_lt⟩
    by_cases hdone : s.IsDone files
    · exact .inl hdone
    · exact .inr (hs.exists_action hthreads hdone)
  · intro schedule hperm
    exact outcomesByPool_eq files fun n hn => hperm.mem_iff.2 (List.mem_range.2 hn)
  · intro outcomes
    rw [outcomes_eq_inTurn, outcomesInTurn_eq_ok]
  · intro settings subs
    rw [audit_eq_map, audit_eq_map]
    cases d.outcomesInTurn files <;> rfl

/-- Two files, the second of which cannot be read. -/
def pair : Disk where
  tree :=
    { here := ["w"]
      entries := [(["w"], .directory), (["w", "A.java"], .file []), (["w", "B.java"], .file [])]
      proper := by decide }
  unreadable := [("B.java", .coded 13 "Permission denied")]

/-- The files of `pair`. -/
def pairFiles : List Path :=
  [⟨.here, ["A.java"]⟩, ⟨.here, ["B.java"]⟩]

/-- Two workers take the two files up at once and the second is finished
first; still its outcome comes second. -/
theorem pair_refines_serial :
    ∃ s, Pool.Reached pair.outcome pairFiles (threads 2 pairFiles) s ∧ s.finished = [1, 0]
      ∧ s.IsDone pairFiles ∧ s.yielded = pairFiles.map pair.outcome
      ∧ pair.audit { workers := 2 } {} pairFiles
        = (s.yielded.mapM id).map (Audit.ofOutcomes { workers := 2 } {})
      ∧ pair.outcomes 2 pairFiles
        = .ok [.scanned ⟨⟨.here, ["A.java"]⟩, [], .outside⟩,
          .unreadable ⟨⟨.here, ["B.java"]⟩, ⟨.coded 13 "Permission denied", "B.java"⟩⟩] := by
  have htaken : Pool.Reached pair.outcome pairFiles (threads 2 pairFiles) ⟨[], [1, 0], [], []⟩ :=
    (Pool.Reached.start.next (.pickUp (n := 0) (by decide) (by decide))).next
      (.pickUp (n := 1) (by decide) (by decide))
  have hfinished : Pool.Reached pair.outcome pairFiles (threads 2 pairFiles) ⟨[], [], [1, 0], []⟩ :=
    (htaken.next (.finish (n := 1) (by decide))).next (.finish (n := 0) (by decide))
  have hdone : Pool.Reached pair.outcome pairFiles (threads 2 pairFiles)
      ⟨[], [], [1, 0], pairFiles.map pair.outcome⟩ :=
    (hfinished.next (.yield rfl)).next (.yield rfl)
  obtain ⟨hstates, -, -, -, hlist, -⟩ := parallel_refines_serial pair pairFiles 2
  obtain ⟨-, -, hend⟩ := hstates _ hdone
  obtain ⟨hall, haudit⟩ := hend rfl
  refine ⟨_, hdone, rfl, rfl, hall, haudit _ _ rfl, ?_⟩
  exact (hlist _).2 (.cons (.scanned rfl) (.cons (.unreadable rfl) .nil))

end Disk

end DocAudit
