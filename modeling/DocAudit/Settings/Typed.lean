/-
Settings from what a user types. The names to skip are checked first,
then the extension, then the number of workers; the first fault found is
the one reported.
-/
import DocAudit.Settings.Workers

namespace DocAudit.Settings

open Text

/-- The names to skip, without the blanks around them. -/
def skipNames (given : List String) : Except SettingsError (List String) :=
  let names := given.map fun n => strip n.toList
  if names.any List.isEmpty then .error .emptySkipName
  else .ok (NameSet.ofList (names.map String.ofList))

/-- An extension in lower case: a dot and something behind it, no path
separator. -/
def extensionOf (given : String) : Except SettingsError String :=
  let ext := lowerCase (strip given.toList)
  if !".".toList.isPrefixOf ext || ext.length < 2 then .error (.malformedExtension given)
  else if ext.contains '/' || ext.contains '\\' then .error .extensionHasSeparator
  else .ok (String.ofList ext)

/-- Settings as typed. -/
structure Typed where
  extension : String := defaultExtension
  workers : Option String := none
  skipDirs : List String := []
  followLinks : Bool := true
  deriving DecidableEq, Repr

/-- Checks settings as typed, on a machine with so many processors. -/
def ofTyped (typed : Typed) (processors : Option Int) : Except SettingsError Settings := do
  let skipDirs ← skipNames typed.skipDirs
  let extension ← extensionOf typed.extension
  let workers ← workerCount typed.workers 1 maxWorkers processors
  return { extension, workers, skipDirs, followLinks := typed.followLinks }

end DocAudit.Settings
