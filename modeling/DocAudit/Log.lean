/-
Log records and who gets to see them. A run has a verbosity, which fixes
the least level shown and the form of the line. Asked to be both verbose
and quiet, it is verbose.
-/
namespace DocAudit.Log

/-- How grave a record is. -/
inductive Level where
  | debug
  | info
  | warning
  | error
  | critical
  deriving DecidableEq, Repr

namespace Level

/-- The rank of a level, the gravest highest. -/
def rank : Level → Nat
  | debug => 0
  | info => 1
  | warning => 2
  | error => 3
  | critical => 4

/-- The name of a level. -/
def name : Level → String
  | debug => "DEBUG"
  | info => "INFO"
  | warning => "WARNING"
  | error => "ERROR"
  | critical => "CRITICAL"

end Level

/-- One record, with the part of the program that made it. -/
structure Record where
  level : Level
  /-- The part's name, empty for the program as a whole. -/
  logger : String
  message : String
  deriving DecidableEq, Repr

/-- Where a record comes from, as its line names it. -/
def Record.origin (r : Record) : String :=
  if r.logger = "" then "root" else r.logger

/-- How much a run says. -/
structure Verbosity where
  verbose : Bool := false
  quiet : Bool := false
  deriving DecidableEq, Repr

namespace Verbosity

/-- The least level shown. -/
def level (v : Verbosity) : Level :=
  if v.verbose then .debug else if v.quiet then .warning else .info

/-- Is a record shown? -/
def shows (v : Verbosity) (r : Record) : Bool :=
  v.level.rank ≤ r.level.rank

/-- The line of a record; a verbose run names its level and origin. -/
def line (v : Verbosity) (r : Record) : String :=
  if v.verbose then
    "jccs [" ++ r.level.name ++ "] " ++ r.origin ++ ": " ++ r.message ++ "\n"
  else "jccs: " ++ r.message ++ "\n"

/-- What a run writes for a record. -/
def write (v : Verbosity) (r : Record) : List String :=
  if v.shows r then [v.line r] else []

end Verbosity

end DocAudit.Log
