/-
What a run looks for and where: the extension of file names, the number
of workers, the names of directories to pass by, and whether links to
directories are followed. Extensions are compared in lower case with the
end of the whole file name.
-/
import DocAudit.NameSet
import DocAudit.Path
import DocAudit.Text.LowerCase
import DocAudit.Text.Quoted

namespace DocAudit

/-- The extension looked for unless another is given. -/
def defaultExtension : String := ".java"

/-- The settings of a run. -/
structure Settings where
  extension : String := defaultExtension
  workers : Int := 1
  /-- Names of directories that are not entered. -/
  skipDirs : List String := []
  followLinks : Bool := true
  deriving DecidableEq, Repr

/-- Does a path's file name end in an extension, case aside? -/
def Path.hasExtension (p : Path) (extension : String) : Bool :=
  (Text.lowerCase extension.toList).isSuffixOf (Text.lowerCase p.name.toList)

/-- Why settings are not accepted. -/
inductive SettingsError where
  | emptySkipName
  | malformedExtension (given : String)
  | extensionHasSeparator
  | malformedWorkers (given : String)
  | workersNotPositive
  deriving DecidableEq, Repr

/-- The message of a settings error. -/
def SettingsError.message : SettingsError → String
  | emptySkipName => "`skip-dir` must not be empty."
  | malformedExtension given =>
      "`extension` must look like '.java', got " ++ Text.quote given ++ "."
  | extensionHasSeparator => "`extension` must not contain path separators."
  | malformedWorkers given =>
      "`workers` must be a positive integer or 'auto', got " ++ Text.quote given ++ "."
  | workersNotPositive => "`workers` must be > 0."

end DocAudit
