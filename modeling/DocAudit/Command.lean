/-
The command as a function: from a disk and the arguments to a run, which
is what is handed over to the two streams and how it ends. Arguments are
checked from the outside in: the options before the command, the
command's name, its own options, the path, the format, the settings. How
options are read off the arguments is up to a reader of options.

On the error stream, log records and findings stand in the order in which
they arise. The other stream has the summary, or the whole document. A
run that a failure puts an end to keeps what it has handed over by then.
-/
import DocAudit.CommandLine.Context
import DocAudit.CommandLine.Usage
import DocAudit.Course
import DocAudit.Report.Document
import DocAudit.Report.Terminal
import DocAudit.Streams

namespace DocAudit.Command

open CommandLine

/-- What a run leaves behind. -/
structure Run where
  /-- How much is written of the log. -/
  verbosity : Log.Verbosity := {}
  stdout : List ReportLine := []
  stderr : List Piece := []
  /-- The exit code, or the failure that put an end to the run. -/
  ending : Except Failure Nat
  deriving Repr

/-- What is written on the output stream, line by line. -/
def Run.written (r : Run) (c : Console) : List String :=
  r.stdout.map c.writeLine

/-- What is written on the error stream, piece by piece. -/
def Run.writtenErrors (r : Run) (c : Console) : List String :=
  r.stderr.flatMap (c.writePiece r.verbosity)

/-- The form of the report. -/
inductive Format where
  | terminal
  | json
  deriving DecidableEq, Repr

/-- The report form that a text names, case and blanks aside. -/
def Format.ofText? (text : String) : Option Format :=
  let word := Text.lowerCase (Text.strip text.toList)
  if word = "terminal".toList then some .terminal
  else if word = "json".toList then some .json
  else none

/-- The part of the program that runs commands, by its name in the
log. -/
def logger : String := "jccs.cli"

-- ============================================================ streams

/-- What one event hands over to the error stream. -/
def handOver (n : Terminal.Numbering) :
    Event → Terminal.Numbering × Except Failure (List Piece)
  | .log record => (n, .ok [.log record])
  | .finding d =>
      let (n, text) := n.text d
      (n, text.map fun text => [.console text])
  | .scanned path findings =>
      (n, .ok [.log ⟨.debug, logger,
        path.text ++ ": " ++ toString findings ++ " undocumented declaration(s)"⟩])
  | .unreadable _ => (n, .ok [])

/-- What events hand over to the error stream, in turn, and the failure
that put an end to it; `out` is what has been handed over (last first). -/
def handOverAll (n : Terminal.Numbering) (out : List Piece) :
    List Event → List Piece × Option Failure
  | [] => (out.reverse, none)
  | e :: rest =>
      match handOver n e with
      | (n, .ok pieces) => handOverAll n (pieces.reverse ++ out) rest
      | (_, .error failure) => (out.reverse, some failure)

/-- What has been handed over stays in front. -/
theorem handOverAll_out (n : Terminal.Numbering) (out : List Piece) (events : List Event) :
    handOverAll n out events
      = (out.reverse ++ (handOverAll n [] events).1, (handOverAll n [] events).2) := by
  induction events generalizing n out with
  | nil => simp [handOverAll]
  | cons e rest ih =>
      rw [handOverAll, handOverAll]
      obtain ⟨n, shown⟩ := handOver n e
      cases shown with
      | error failure => simp
      | ok pieces =>
          simp only []
          rw [ih, ih _ (_ ++ [])]
          simp

/-- Handing over goes on behind an event that has been handed over. -/
theorem handOverAll_cons {n next : Terminal.Numbering} {e : Event} {pieces : List Piece}
    (h : handOver n e = (next, .ok pieces)) (rest : List Event) :
    handOverAll n [] (e :: rest)
      = (pieces ++ (handOverAll next [] rest).1, (handOverAll next [] rest).2) := by
  rw [handOverAll, h]
  simp only []
  rw [handOverAll_out]
  simp

-- =============================================================== scan

/-- The scan command, its arguments read and checked. -/
structure Scan where
  root : Path
  format : Format
  settings : Settings
  /-- Is a finding a reason to fail? -/
  fail : Bool
  deriving DecidableEq, Repr

/-- The events that a scan asks for. -/
def Scan.subscriptions (s : Scan) (v : Log.Verbosity) : Subscriptions where
  findings := s.format = .terminal
  files := v.verbose

/-- The report on an audit, as far as it goes. -/
def Scan.report (s : Scan) (d : Disk) (audit : Audit) : List ReportLine × Option Failure :=
  match s.format with
  | .json =>
      match Document.render d s.root audit with
      | .ok text => ([.plain text], none)
      | .error failure => ([], some failure)
  | .terminal =>
      match audit.totals.summary with
      | .ok text => ([.plain "", .console text], none)
      | .error failure => ([.plain ""], some failure)

/-- The exit code of a scan that comes to its end. -/
def Scan.exitCode (s : Scan) (audit : Audit) : Nat :=
  if s.fail && audit.totals.flagged > 0 then 1 else 0

/-- The run of a scan whose audit has taken a course. -/
def Scan.runOf (s : Scan) (d : Disk) (v : Log.Verbosity) (course : Course) : Run :=
  let (stderr, stopped) := handOverAll {} [] course.events
  match stopped, course.result with
  | some failure, _ => { verbosity := v, stderr, ending := .error failure }
  | none, .error failure => { verbosity := v, stderr, ending := .error failure }
  | none, .ok audit =>
      let (stdout, stopped) := s.report d audit
      { verbosity := v, stdout, stderr, ending := completed (s.exitCode audit, stopped) }

theorem Scan.verbosity_runOf (s : Scan) (d : Disk) (v : Log.Verbosity) (course : Course) :
    (s.runOf d v course).verbosity = v := by
  unfold Scan.runOf
  obtain ⟨stderr, stopped⟩ := handOverAll {} [] course.events
  cases stopped with
  | some failure => rfl
  | none => cases course.result <;> rfl

/-- However a run ends, what has been handed over stays. -/
theorem Scan.stderr_runOf (s : Scan) (d : Disk) (v : Log.Verbosity) (course : Course) :
    (s.runOf d v course).stderr = (handOverAll {} [] course.events).1 := by
  unfold Scan.runOf
  obtain ⟨stderr, stopped⟩ := handOverAll {} [] course.events
  cases stopped with
  | some failure => rfl
  | none => cases course.result <;> rfl

/-- Runs a scan. -/
def Scan.run (s : Scan) (d : Disk) (v : Log.Verbosity) : Run :=
  s.runOf d v (d.courseBelow s.settings (s.subscriptions v) s.root)

/-- Runs a scan below a command that has been asked for a verbosity. -/
def Scan.runAsked (s : Scan) (d : Disk) (asked : Log.Verbosity) : Run :=
  s.run d (inherited [contextOf asked])

-- ========================================================== arguments

/-- The options of a scan as typed; of an option given twice the last
counts. -/
structure ScanOptions where
  format : String := "terminal"
  typed : Settings.Typed := {}
  fail : Bool := false
  deriving DecidableEq, Repr

/-- Takes one more choice into account. -/
def ScanOptions.choose (o : ScanOptions) : ScanChoice → ScanOptions
  | .format text => { o with format := text }
  | .extension text => { o with typed := { o.typed with extension := text } }
  | .workers text => { o with typed := { o.typed with workers := some text } }
  | .skipDir name => { o with typed := { o.typed with skipDirs := o.typed.skipDirs ++ [name] } }
  | .followLinks on => { o with typed := { o.typed with followLinks := on } }
  | .fail on => { o with fail := on }

/-- Reads the arguments of a scan. -/
def readScan (reader : OptionReader) (d : Disk) (processors : Option Int) (args : List String) :
    Except UsageError Scan := do
  let (choices, plain) ← (reader.scan args).mapError .option
  let options := choices.foldl ScanOptions.choose {}
  match plain with
  | [] => throw .missingPath
  | given :: extra =>
      let root := Path.ofText given
      if root.hasNul then throw .pathNul
      if !d.pathExists root then throw (.pathMissing given)
      if !extra.isEmpty then throw (.extraArguments extra)
      match Format.ofText? options.format with
      | none => throw .unsupportedFormat
      | some format =>
          let settings ← (Settings.ofTyped options.typed processors).mapError .settings
          return { root, format, settings, fail := options.fail }

-- ====================================================== whole command

/-- The run that prints the version. -/
def versionRun : Run :=
  { stdout := [.plain Tool.version], ending := .ok 0 }

/-- Reads the options before the command. -/
def readGlobals (reader : OptionReader) (args : List String) :
    Except UsageError (List GlobalChoice × List String) :=
  (reader.globals args).mapError .option

/-- Runs the command. A name that is no command, but begins like an
option, is read as an option once more before it is refused. -/
def run (reader : OptionReader) (d : Disk) (processors : Option Int) (args : List String) :
    Except UsageError Run := do
  if args.isEmpty then throw .noArguments
  let (globals, rest) ← readGlobals reader args
  if globals.contains .version then return versionRun
  match rest with
  | [] => throw .missingCommand
  | name :: args =>
      if name = "scan" then
        let asked : Log.Verbosity := ⟨globals.contains .verbose, globals.contains .quiet⟩
        if asked.verbose && asked.quiet then throw .verboseAndQuiet
        let scan ← readScan reader d processors args
        return scan.runAsked d asked
      else
        let (globals, _) ← readGlobals reader rest
        if globals.contains .version then return versionRun
        throw (.noSuchCommand name)

end DocAudit.Command
