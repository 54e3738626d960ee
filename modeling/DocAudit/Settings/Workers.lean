/-
The number of workers, from what a user types: nothing or blanks for the
default, `auto` for twice the number of processors, or a positive whole
number. Whatever is asked for, there are never more than the limit.
-/
import DocAudit.Settings.Basic
import DocAudit.Text.Blank
import DocAudit.Text.Decimal

namespace DocAudit.Settings

open Text

/-- The most workers a run has. -/
def maxWorkers : Int := 32

/-- The default number, one at least, within the limit. -/
def defaultWorkers (default limit : Int) : Int :=
  min (max 1 default) limit

/-- Twice the number of processors, within the limit; an unknown number
counts as one. -/
def autoWorkers (processors : Option Int) (limit : Int) : Int :=
  let known :=
    match processors with
    | some n => if n = 0 then 1 else n
    | none => 1
  min (known * 2) limit

/-- The number of workers asked for. -/
def workerCount (given : Option String) (default limit : Int) (processors : Option Int) :
    Except SettingsError Int :=
  match given with
  | none => .ok (defaultWorkers default limit)
  | some text =>
      let word := lowerCase (strip text.toList)
      if word.isEmpty then .ok (defaultWorkers default limit)
      else if word = "auto".toList then .ok (autoWorkers processors limit)
      else match integer? word with
        | none => .error (.malformedWorkers text)
        | some n => if n ≤ 0 then .error .workersNotPositive else .ok (min n limit)

end DocAudit.Settings
