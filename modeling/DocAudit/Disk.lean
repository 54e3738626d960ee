/-
A tree together with the system's moods. On top of what the tree holds,
the system may decline to read certain files, to list certain directories
or to resolve certain paths; each is given by the path as it is written
in the request. It never declines to say what a path leads to: leave to
search a directory has no part here.
-/
import DocAudit.FileTree.RealPath

namespace DocAudit

/-- A tree and the requests on it that are declined. -/
structure Disk where
  tree : FileTree
  /-- Files that cannot be read. -/
  unreadable : List (String × Refusal) := []
  /-- Directories that cannot be listed. -/
  unlistable : List (String × Refusal) := []
  /-- Paths that cannot be resolved. -/
  unresolvable : List String := []
  deriving DecidableEq, Repr

namespace Disk

/-- The content of a file. A pipe, which would keep its reader waiting
for somebody to write, is read as empty. -/
def read (d : Disk) (p : Path) : Except Failure (List UInt8) :=
  match d.unreadable.lookup p.text with
  | some refusal => .error (.fault ⟨refusal, p.text⟩)
  | none =>
      if p.hasNul then .error .nul
      else match d.tree.find p with
        | .ok (.file content) => .ok content
        | .ok .directory => .error (.fault (.ofObstacle .isDirectory p.text))
        | .ok _ => .ok []
        | .error why => .error (.fault (.ofObstacle why p.text))

/-- Does a path lead to a file? A path that leads to nothing does not;
only a name or a path that is too long cannot be answered. -/
def isFile (d : Disk) (p : Path) : Except Failure Bool :=
  if p.hasNul then .ok false
  else match d.tree.find p with
    | .ok (.file _) => .ok true
    | .ok _ => .ok false
    | .error .nameTooLong => .error (.fault (.ofObstacle .nameTooLong p.text))
    | .error _ => .ok false

/-- Does a path lead to anything? -/
def pathExists (d : Disk) (p : Path) : Bool :=
  match d.tree.find p with
  | .ok _ => true
  | .error _ => false

/-- The absolute real path of a path, or the path itself where the system
declines to resolve it. A real path that still runs into a circle of
links is a failure. -/
def resolve (d : Disk) (p : Path) : Except Failure Path :=
  if p.text ∈ d.unresolvable then .ok p
  else match d.tree.realPath p with
    | .error failure => .error failure
    | .ok real =>
        if real.hasNul then .error .nul
        else match d.tree.find real with
          | .error .tooManyLinks => .error (.linkLoop real.text)
          | _ => .ok real

/-- The path by which reports name a file: below the root where it lies
there, its name where it is the root, and as written elsewhere. -/
def reportedPath (d : Disk) (p root : Path) : Except Failure String := do
  let realFile ← d.resolve p
  let realRoot ← d.resolve root
  let same ← if realFile = realRoot then d.isFile realRoot else pure false
  if same then return p.name
  match realFile.relativeTo? realRoot with
  | some rest => return rest.text
  | none => return p.text

end Disk

end DocAudit
