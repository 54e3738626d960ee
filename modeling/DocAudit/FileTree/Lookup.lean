/-
Following a path through a tree. A path is a row of steps; each step
needs a directory to stand on, a name in it may be a link, and a link in
the way is replaced by the steps of its target. At most forty links are
followed on one path; a name has at most 255 bytes and a whole path at
most 4095, as it is written.

`advance` walks up to the next link, `locateFrom` goes on from link to
link; the number of links still allowed bounds the latter, so loops need
no special care.
-/
import DocAudit.Fault
import DocAudit.FileTree.Basic
import DocAudit.Path

namespace DocAudit

/-- One step of a path. -/
inductive Step where
  /-- Nowhere: an empty piece or `.`. -/
  | stay
  /-- To the directory above. -/
  | up
  /-- To an entry. -/
  | into (name : String)
  deriving DecidableEq, Repr

namespace Step

/-- The step that one piece of a path makes. -/
def ofName (name : String) : Step :=
  if name = "" || name = "." then stay
  else if name = ".." then up
  else into name

/-- The steps of a target text. A slash at its end makes a last step
that needs a directory. -/
def ofText (text : String) : List Step :=
  (Path.pieces text).map ofName

end Step

/-- The steps of a written path. -/
def Path.steps (p : Path) : List Step :=
  p.names.map Step.ofName

namespace FileTree

/-- Where a written path starts. -/
def startOf (t : FileTree) (p : Path) : Place :=
  if p.anchor = .here then t.here else []

/-- Where a link's target starts, for a link in `dir`. -/
def targetStart (dir : Place) (target : String) : Place :=
  if "/".toList.isPrefixOf target.toList then [] else dir

/-- The most bytes a name may have. -/
def maxNameBytes : Nat := 255

/-- The most bytes a path may have. -/
def maxPathBytes : Nat := 4095

/-- Is a path too long, as it is written? -/
def isTooLong (written : String) : Bool :=
  maxPathBytes < written.utf8ByteSize

/-- The most links that are followed on one path. -/
def maxLinks : Nat := 40

/-- How far one gets without following a link. -/
inductive Progress where
  | arrived (place : Place)
  | stopped (why : Obstacle)
  /-- A link in `dir` has to be followed, and then `rest`. -/
  | linkAhead (dir : Place) (target : String) (rest : List Step)
  deriving DecidableEq, Repr

/-- Walks to the end of the steps or to the next link. -/
def advance (t : FileTree) (place : Place) : List Step → Progress
  | [] => .arrived place
  | step :: rest =>
      if t.node? place ≠ some .directory then .stopped .notDirectory
      else match step with
        | .stay => advance t place rest
        | .up => advance t place.dropLast rest
        | .into name =>
            if maxNameBytes < name.utf8ByteSize then .stopped .nameTooLong
            else match t.node? (place ++ [name]) with
              | none => .stopped .missing
              | some (.link target) => .linkAhead place target rest
              | some _ => advance t (place ++ [name]) rest

/-- Follows steps, replacing links by their targets while `links` more
are allowed. -/
def locateFrom (t : FileTree) : Nat → Place → List Step → Except Obstacle Place
  | 0, place, steps =>
      match advance t place steps with
      | .arrived found => .ok found
      | .stopped why => .error why
      | .linkAhead _ _ _ => .error .tooManyLinks
  | links + 1, place, steps =>
      match advance t place steps with
      | .arrived found => .ok found
      | .stopped why => .error why
      | .linkAhead dir target rest =>
          locateFrom t links (targetStart dir target) (Step.ofText target ++ rest)

/-- The place that a path leads to, links followed to the end. -/
def locate (t : FileTree) (p : Path) : Except Obstacle Place :=
  if isTooLong p.text then .error .nameTooLong
  else t.locateFrom maxLinks (t.startOf p) p.steps

/-- What a path leads to, links followed to the end. -/
def find (t : FileTree) (p : Path) : Except Obstacle Node :=
  match t.locate p with
  | .ok place =>
      match t.node? place with
      | some node => .ok node
      | none => .error .missing
  | .error why => .error why

/-- Does a path lead to a directory? -/
def isDirectory (t : FileTree) (p : Path) : Bool :=
  match t.find p with
  | .ok .directory => true
  | _ => false

/-- Does a link stand at a place? -/
def isLinkAt (t : FileTree) (place : Place) : Bool :=
  match t.node? place with
  | some (.link _) => true
  | _ => false

end FileTree

end DocAudit
