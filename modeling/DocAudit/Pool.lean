/-
A pool of workers. Each task has a slot of its own, numbered as the jobs
are; whenever a task is finished its answer goes into that slot. The
order in which tasks finish is the schedule. The answers are read off
the slots, so they come in the order of the jobs.
-/
namespace DocAudit.Pool

variable {α β : Type}

/-- Finishes the task with a number. -/
def finish (task : α → β) (jobs : List α) (slots : List (Option β)) (n : Nat) :
    List (Option β) :=
  match jobs[n]? with
  | some job => slots.set n (some (task job))
  | none => slots

/-- The slots after a schedule has been worked off. -/
def slotsAfter (task : α → β) (jobs : List α) (schedule : List Nat) : List (Option β) :=
  schedule.foldl (finish task jobs) (jobs.map fun _ => none)

/-- The answers of a pool that works off a schedule. -/
def run (task : α → β) (jobs : List α) (schedule : List Nat) : List β :=
  (slotsAfter task jobs schedule).filterMap id

end DocAudit.Pool
