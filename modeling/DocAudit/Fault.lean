/-
What can go wrong with files. An obstacle lies in the tree itself: a name
is missing, a link leads nowhere. A refusal comes from the system, with a
number and a text or with a text alone. Either, together with the path it
is about, is a fault: an unreadable file or an unlistable directory
yields one, and the run goes on. A failure stops the operation at hand.
-/
import DocAudit.Text.Decimal
import DocAudit.Text.Quoted

namespace DocAudit

/-- Why a path leads to nothing. -/
inductive Obstacle where
  | missing
  | notDirectory
  | isDirectory
  | nameTooLong
  | tooManyLinks
  deriving DecidableEq, Repr

namespace Obstacle

/-- The system's number of an obstacle. -/
def code : Obstacle → Int
  | missing => 2
  | notDirectory => 20
  | isDirectory => 21
  | nameTooLong => 36
  | tooManyLinks => 40

/-- The system's words for an obstacle. -/
def text : Obstacle → String
  | missing => "No such file or directory"
  | notDirectory => "Not a directory"
  | isDirectory => "Is a directory"
  | nameTooLong => "File name too long"
  | tooManyLinks => "Too many levels of symbolic links"

end Obstacle

/-- How the system declines a request. -/
inductive Refusal where
  /-- With a number and a text, about the path asked for. -/
  | coded (code : Int) (text : String)
  /-- With a text alone, about no path. -/
  | bare (text : String)
  deriving DecidableEq, Repr

/-- A refusal and the path asked for. -/
structure Fault where
  refusal : Refusal
  path : String
  deriving DecidableEq, Repr

namespace Fault

/-- An obstacle met on a path. -/
def ofObstacle (o : Obstacle) (path : String) : Fault :=
  ⟨.coded o.code o.text, path⟩

/-- The number, if the refusal has one. -/
def code? (f : Fault) : Option Int :=
  match f.refusal with
  | .coded code _ => some code
  | .bare _ => none

/-- The whole message. -/
def message (f : Fault) : String :=
  match f.refusal with
  | .coded code text =>
      "[Errno " ++ toString code ++ "] " ++ text ++ ": " ++ Text.quote f.path
  | .bare text => text

/-- The short form: the system's words, or the whole message where it
has none. -/
def reason (f : Fault) : String :=
  match f.refusal with
  | .coded _ text => if text = "" then f.message else text
  | .bare text => text

/-- The path as log records name it; a refusal with a text alone is
about none. -/
def subject (f : Fault) : String :=
  match f.refusal with
  | .coded _ _ => f.path
  | .bare _ => "None"

end Fault

/-- Why an operation stopped. -/
inductive Failure where
  /-- A file or directory could not be used. -/
  | fault (f : Fault)
  /-- A path holds U+0000. -/
  | nul
  /-- Links that lead to one another keep a path from being resolved. -/
  | linkLoop (path : String)
  /-- A number has too many digits to be written. -/
  | numberTooLong
  deriving DecidableEq, Repr

/-- The message of a failure. -/
def Failure.message : Failure → String
  | fault f => f.message
  | nul => "embedded null byte"
  | linkLoop path => "Symlink loop from " ++ Text.quote path
  | numberTooLong =>
      "Exceeds the limit (" ++ toString Text.maxDigits ++ " digits) for integer string conversion; "
        ++ "use sys.set_int_max_str_digits() to increase the limit"

-- =========================================================== in turn

/-- Two operations in turn bring something if both do. -/
theorem bind_eq_ok {ε α β : Type} {x : Except ε α} {f : α → Except ε β} {b : β} :
    x >>= f = .ok b ↔ ∃ a, x = .ok a ∧ f a = .ok b := by
  cases x with
  | error e => simp [bind, Except.bind]
  | ok a => simp [bind, Except.bind]

/-- Two operations in turn fail as the first that fails does. -/
theorem bind_eq_error {ε α β : Type} {x : Except ε α} {f : α → Except ε β} {e : ε} :
    x >>= f = .error e ↔ x = .error e ∨ ∃ a, x = .ok a ∧ f a = .error e := by
  cases x with
  | error e => simp [bind, Except.bind]
  | ok a => simp [bind, Except.bind]

theorem map_eq_ok {ε α β : Type} {x : Except ε α} {f : α → β} {b : β} :
    x.map f = .ok b ↔ ∃ a, x = .ok a ∧ f a = b := by
  cases x with
  | error e => simp [Except.map]
  | ok a => simp [Except.map]

theorem map_eq_error {ε α β : Type} {x : Except ε α} {f : α → β} {e : ε} :
    x.map f = .error e ↔ x = .error e := by
  cases x with
  | error e => simp [Except.map]
  | ok a => simp [Except.map]

-- ================================================== as far as it goes

/-- What an operation comes to that has been followed as far as it goes:
what it has brought, unless a failure put an end to it. -/
def completed {α : Type} : α × Option Failure → Except Failure α
  | (a, none) => .ok a
  | (_, some failure) => .error failure

/-- Results up to the first failure, and that failure if there is one. -/
def untilFailure {α : Type} : List (Except Failure α) → List α × Option Failure
  | [] => ([], none)
  | .error failure :: _ => ([], some failure)
  | .ok a :: rest =>
      let (more, stopped) := untilFailure rest
      (a :: more, stopped)

theorem mapM_id_eq_untilFailure {α : Type} (xs : List (Except Failure α)) :
    xs.mapM id = completed (untilFailure xs) := by
  induction xs with
  | nil => rfl
  | cons x rest ih =>
      rw [List.mapM_cons]
      cases x with
      | error failure => rfl
      | ok a =>
          show (do
            let more ← rest.mapM id
            return a :: more) = completed (a :: (untilFailure rest).1, (untilFailure rest).2)
          rw [ih]
          generalize untilFailure rest = ended
          obtain ⟨more, stopped⟩ := ended
          cases stopped <;> rfl

-- ============================================================ numbers

/-- Writes a number. -/
def writeNumber (n : Int) : Except Failure String :=
  match Text.decimal? n with
  | some digits => .ok digits
  | none => .error .numberTooLong

theorem writeNumber_of_writable {n : Int} (h : Text.isWritable n = true) :
    writeNumber n = .ok (toString n) := by
  rw [writeNumber, Text.decimal?, if_pos h]

theorem writeNumber_of_not_writable {n : Int} (h : Text.isWritable n = false) :
    writeNumber n = .error .numberTooLong := by
  rw [writeNumber, Text.decimal?, h, if_neg Bool.false_ne_true]

theorem writeNumber_eq_ok {n : Int} {text : String} :
    writeNumber n = .ok text ↔ Text.isWritable n = true ∧ text = toString n := by
  cases hfits : Text.isWritable n with
  | false =>
      rw [writeNumber_of_not_writable hfits]
      constructor
      · intro h
        cases h
      · intro h
        cases h.1
  | true =>
      rw [writeNumber_of_writable hfits]
      constructor
      · intro h
        cases h
        exact ⟨rfl, rfl⟩
      · intro h
        rw [h.2]

theorem eq_numberTooLong_of_writeNumber {n : Int} {failure : Failure}
    (h : writeNumber n = .error failure) : failure = .numberTooLong := by
  unfold writeNumber at h
  split at h
  · cases h
  · cases h
    rfl

/-- The reason of a fault, put together: the whole message is needed
where the system has no words, and cannot be had if the code is too long.
A log does not fail on that, a report does. -/
def Fault.statedReason (f : Fault) : Except Failure String :=
  match f.refusal with
  | .coded code text =>
      if text = "" then do
        let code ← writeNumber code
        return "[Errno " ++ code ++ "] " ++ text ++ ": " ++ Text.quote f.path
      else .ok text
  | .bare text => .ok text

end DocAudit
