/-
Verbosity handed down through contexts. Contexts are nested, outermost
first, and each may carry a value. A command takes its verbosity from the
nearest one whose value is an object: a field that is there and counts as
a yes turns the setting on.
-/
import DocAudit.Json
import DocAudit.Log

namespace DocAudit.CommandLine

/-- The fields of the nearest object in a chain of contexts, innermost
first. -/
def nearestObject? : List Json → Option (List (String × Json))
  | [] => none
  | .obj fields :: _ => some fields
  | _ :: rest => nearestObject? rest

/-- Is a field there and a yes? -/
def isOn (fields : List (String × Json)) (key : String) : Bool :=
  match fields.lookup key with
  | some value => value.isTruthy
  | none => false

/-- The verbosity that a chain of contexts, outermost first, hands
down. -/
def inherited (contexts : List Json) : Log.Verbosity :=
  match nearestObject? contexts.reverse with
  | some fields => ⟨isOn fields "verbose", isOn fields "quiet"⟩
  | none => {}

/-- The context that holds a verbosity. -/
def contextOf (v : Log.Verbosity) : Json :=
  .obj [("verbose", .bool v.verbose), ("quiet", .bool v.quiet)]

/-- A verbosity is handed down as it is. -/
theorem inherited_contextOf (v : Log.Verbosity) : inherited [contextOf v] = v := by
  obtain ⟨verbose, quiet⟩ := v
  cases verbose <;> cases quiet <;> rfl

end DocAudit.CommandLine
