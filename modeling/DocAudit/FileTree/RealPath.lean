/-
The real path behind a written one. Links are expanded from left to
right and `..` takes away the last name of the real path so far; names
that lead nowhere are kept as they are. A link that is met again while
it is being expanded stops the expansion: it and all that follows are
kept as text, and a piece of that text that begins at the top takes the
place of what stands before it.

A link is known again by its spelling, and a place below the current
directory is spelled differently when it is reached from the top; so a
circle entered by a relative path may be gone round once more before it
is noticed. What a link came to is kept, so each spelled link is expanded
once, and the depth of nested expansions is bounded by their number.
-/
import DocAudit.FileTree.Lookup

namespace DocAudit

/-- The links met so far by their spelling, each with its real path, or
with none while it is being expanded. -/
abbrev MetLinks := List (Path × Option Path)

/-- What steps expand to. -/
structure Trail where
  path : Path
  /-- A link met itself; what followed was kept as text. -/
  looped : Bool
  met : MetLinks
  deriving DecidableEq, Repr

/-- Where a link's target starts, for a link in the directory `p`. -/
def Path.atTarget (p : Path) (target : String) : Path :=
  if "/".toList.isPrefixOf target.toList then ⟨.top, []⟩ else p

/-- Where the real path of a path starts. -/
def Path.base (p : Path) : Path :=
  ⟨if p.anchor = .here then .here else .top, []⟩

namespace FileTree

/-- The place that a path names if `..` just takes a name away. -/
def textualPlace (t : FileTree) (p : Path) : Place :=
  p.names.foldl (fun place name => if name = ".." then place.dropLast else place ++ [name])
    (t.startOf p)

/-- The target of the link that a path without links in its way names. -/
def linkAt? (t : FileTree) (p : Path) : Option String :=
  if isTooLong p.text then none
  else match t.node? (t.textualPlace p) with
    | some (.link target) => some target
    | _ => none

/-- Expands pieces of a path behind the real path `p`; `follow` expands a
link's target. -/
def expandWith (t : FileTree) (follow : MetLinks → Path → String → Except Failure Trail)
    (met : MetLinks) (p : Path) : List String → Except Failure Trail
  | [] => .ok ⟨p, false, met⟩
  | piece :: rest =>
      match Step.ofName piece with
      | .stay => expandWith t follow met p rest
      | .up => expandWith t follow met p.up rest
      | .into name =>
          let next := p.below [name]
          if next.hasNul then .error .nul
          else match t.linkAt? next with
            | none => expandWith t follow met next rest
            | some target =>
                match met.lookup next with
                | some (some real) => expandWith t follow met real rest
                | some none => .ok ⟨next.followedBy ("/".intercalate rest), true, met⟩
                | none =>
                    match follow ((next, none) :: met) (p.atTarget target) target with
                    | .error failure => .error failure
                    | .ok ⟨q, true, met⟩ =>
                        .ok ⟨q.followedBy ("/".intercalate rest), true, met⟩
                    | .ok ⟨q, false, met⟩ =>
                        expandWith t follow ((next, some q) :: met) q rest

/-- Expands pieces of a path, with at most `depth` nested expansions. -/
def expand (t : FileTree) : Nat → MetLinks → Path → List String → Except Failure Trail
  | 0, met, p, pieces => t.expandWith (fun met q _ => .ok ⟨q, true, met⟩) met p pieces
  | depth + 1, met, p, pieces =>
      t.expandWith (fun met q target => expand t depth met q (Path.pieces target)) met p pieces

/-- Enough for all links in all their spellings: from the top, from the
current directory and from those above it. -/
def expansionDepth (t : FileTree) : Nat :=
  (t.here.length + 2) * t.linkCount + 1

/-- The absolute form of a path, by its text. -/
def absolute (t : FileTree) (p : Path) : Path where
  anchor := if p.anchor = .here then .top else p.anchor
  names := t.textualPlace p

/-- The real path of a written one. -/
def realPath (t : FileTree) (p : Path) : Except Failure Path :=
  match t.expand t.expansionDepth [] p.base p.names with
  | .ok trail => .ok (t.absolute trail.path)
  | .error failure => .error failure

end FileTree

end DocAudit
