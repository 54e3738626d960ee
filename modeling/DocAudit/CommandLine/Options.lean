/-
Reading options off a command line. An argument that begins with a dash
and has more than that is an option: a long one by its name, with a value
after `=` or in the next argument if it takes one, or else a cluster of
one-letter flags. `--` ends the options. All else are plain arguments;
options may stand behind them only where the table says so.

This is one way to read options, for running the program; the command
itself takes any.
-/
namespace DocAudit.CommandLine

/-- What an option does, in terms of the choices it stands for. -/
inductive OptionForm (κ : Type) where
  | flag (choice : κ)
  | valued (choice : String → κ)

/-- The options of a command. -/
structure OptionTable (κ : Type) where
  /-- Long options, by their full names. -/
  long : List (String × OptionForm κ)
  /-- One-letter flags. -/
  short : List (Char × κ)
  /-- May options follow plain arguments? -/
  mixed : Bool

/-- Why options cannot be read. -/
inductive OptionError where
  | unknown (name : String)
  | needsValue (name : String)
  | takesNoValue (name : String)
  deriving DecidableEq, Repr

/-- Is an argument an option? -/
def isOption (arg : String) : Bool :=
  "-".toList.isPrefixOf arg.toList && arg != "-"

/-- The name of an option and what follows its first `=`. -/
def splitValue (arg : String) : String × Option String :=
  let cs := arg.toList
  let name := cs.takeWhile (· != '=')
  let value :=
    match cs.dropWhile (· != '=') with
    | [] => none
    | _ :: value => some (String.ofList value)
  (String.ofList name, value)

variable {κ : Type}

/-- Reads a cluster of one-letter flags; `chosen` are the choices so far
(last first). -/
def readCluster (table : OptionTable κ) (chosen : List κ) :
    List Char → Except OptionError (List κ)
  | [] => .ok chosen
  | c :: rest =>
      match table.short.lookup c with
      | some choice => readCluster table (choice :: chosen) rest
      | none => .error (.unknown (String.ofList ['-', c]))

/-- Reads arguments; `chosen` are the choices and `plain` the plain
arguments so far (last first). -/
def readFrom (table : OptionTable κ) (chosen : List κ) (plain : List String) :
    List String → Except OptionError (List κ × List String)
  | [] => .ok (chosen.reverse, plain.reverse)
  | arg :: rest =>
      if arg = "--" then .ok (chosen.reverse, plain.reverse ++ rest)
      else if isOption arg then
        let (name, value) := splitValue arg
        match table.long.lookup name, value with
        | some (.flag choice), none => readFrom table (choice :: chosen) plain rest
        | some (.flag _), some _ => .error (.takesNoValue name)
        | some (.valued choice), some value =>
            readFrom table (choice value :: chosen) plain rest
        | some (.valued choice), none =>
            match rest with
            | value :: rest => readFrom table (choice value :: chosen) plain rest
            | [] => .error (.needsValue name)
        | none, _ =>
            if "--".toList.isPrefixOf arg.toList then .error (.unknown name)
            else match readCluster table chosen (arg.toList.drop 1) with
              | .ok chosen => readFrom table chosen plain rest
              | .error e => .error e
      else if table.mixed then readFrom table chosen (arg :: plain) rest
      else .ok (chosen.reverse, plain.reverse ++ arg :: rest)

/-- The choices of a command line, and its plain arguments. -/
def readOptions (table : OptionTable κ) (args : List String) :
    Except OptionError (List κ × List String) :=
  readFrom table [] [] args

end DocAudit.CommandLine
