/-
The options of the command and what can be wrong with their use.
-/
import DocAudit.CommandLine.Options
import DocAudit.Fault
import DocAudit.Settings.Typed

namespace DocAudit.CommandLine

/-- Options before the command. -/
inductive GlobalChoice where
  | version
  | verbose
  | quiet
  deriving DecidableEq, Repr

/-- Options of the scan command. -/
inductive ScanChoice where
  | format (text : String)
  | extension (text : String)
  | workers (text : String)
  | skipDir (name : String)
  | followLinks (on : Bool)
  | fail (on : Bool)
  deriving DecidableEq, Repr

/-- A reader of options: it finds the options before the command, and
those of the scan command, in arguments, and leaves the plain ones. -/
structure OptionReader where
  globals : List String → Except OptionError (List GlobalChoice × List String)
  scan : List String → Except OptionError (List ScanChoice × List String)

-- ======================================================== usual reader

/-- The options before the command. -/
def globalTable : OptionTable GlobalChoice where
  long := [("--version", .flag .version), ("--verbose", .flag .verbose), ("--quiet", .flag .quiet)]
  short := [('v', .verbose), ('q', .quiet)]
  mixed := false

/-- The options of the scan command, before or behind its path. -/
def scanTable : OptionTable ScanChoice where
  long :=
    [("--format", .valued .format), ("--extension", .valued .extension),
     ("--workers", .valued .workers), ("--skip-dir", .valued .skipDir),
     ("--follow-symlinks", .flag (.followLinks true)),
     ("--no-follow-symlinks", .flag (.followLinks false)),
     ("--fail", .flag (.fail true)), ("--no-fail", .flag (.fail false))]
  short := []
  mixed := true

/-- The reader that goes by the two tables. -/
def usualReader : OptionReader where
  globals := readOptions globalTable
  scan := readOptions scanTable

-- ============================================================== misuse

/-- Why a command line is not accepted. -/
inductive UsageError where
  | noArguments
  | missingCommand
  | option (e : OptionError)
  | noSuchCommand (name : String)
  | verboseAndQuiet
  | missingPath
  | pathMissing (given : String)
  /-- The path holds U+0000. -/
  | pathNul
  | extraArguments (args : List String)
  | unsupportedFormat
  | settings (e : SettingsError)
  deriving DecidableEq, Repr

/-- The message of a usage error. -/
def UsageError.message : UsageError → String
  | noArguments => ""
  | missingCommand => "Missing command."
  | option (.unknown name) => "No such option: " ++ Text.expose name
  | option (.needsValue name) => "Option " ++ Text.quote name ++ " requires an argument."
  | option (.takesNoValue name) => "Option " ++ Text.quote name ++ " does not take a value."
  | noSuchCommand name => "No such command " ++ Text.quote name ++ "."
  | verboseAndQuiet => "Invalid value: Choose at most one: --verbose or --quiet."
  | missingPath => "Missing argument 'path'."
  | pathMissing given =>
      "Invalid value for 'path': path " ++ Text.quote given ++ " does not exist."
  | pathNul => "Invalid value for 'path': Value error, " ++ Failure.nul.message
  | extraArguments args =>
      "Got unexpected extra argument(s) (" ++ Text.expose (" ".intercalate args) ++ ")"
  | unsupportedFormat => "Invalid value: Unsupported format. Use: terminal, json."
  | settings e => "Invalid value: " ++ e.message

end DocAudit.CommandLine
