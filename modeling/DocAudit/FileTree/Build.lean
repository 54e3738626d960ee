/-
Building a tree entry by entry. The directories that an entry needs are
made on the way, and a link on the way is followed. So is a link at the
end where a directory or a file is asked for: a file is then written at
the end of the links, even if nothing stands there yet.
-/
import DocAudit.FileTree.Lookup

namespace DocAudit.FileTree

/-- Puts a node at a place, in place of what stood there. What cannot be
an entry is left out. -/
def put (t : FileTree) (place : Place) (node : Node) : FileTree :=
  if h : isEntry (place, node) then
    { t with
      entries := t.entries.filter (·.1 ≠ place) ++ [(place, node)]
      proper := by
        intro e he
        rcases List.mem_append.1 he with he | he
        · exact t.proper e (List.mem_filter.1 he).1
        · rw [List.mem_singleton.1 he]
          exact h }
  else t

/-- A tree with nothing but the current directory and those above it. -/
def bare (here : Place) : FileTree :=
  (List.range here.length).foldl (fun t n => t.put (here.take (n + 1)) .directory)
    ⟨here, [], nofun⟩

/-- Enters a directory by name, making it if there is none. -/
def enter (t : FileTree) (dir : Place) (name : String) : FileTree × Place :=
  if name = ".." then (t, dir.dropLast)
  else match t.node? (dir ++ [name]) with
    | none => (t.put (dir ++ [name]) .directory, dir ++ [name])
    | some (.link _) =>
        match t.locateFrom maxLinks dir [.into name] with
        | .ok place => (t, place)
        | .error _ => (t, dir ++ [name])
    | some _ => (t, dir ++ [name])

/-- Enters directories one below the other. -/
def enterAll (t : FileTree) (dir : Place) (names : List String) : FileTree × Place :=
  names.foldl (fun (t, dir) name => t.enter dir name) (t, dir)

/-- Where a file is written that is asked for by a name in a directory,
following as many links at most. -/
def writingPlace? (t : FileTree) : Nat → Place → String → Option Place
  | links, dir, name =>
      match t.node? (dir ++ [name]), links with
      | some (.link _), 0 => none
      | some (.link target), links + 1 =>
          let steps := Step.ofText target
          match steps.getLast?, t.locateFrom links (targetStart dir target) steps.dropLast with
          | some (.into last), .ok parent => writingPlace? t links parent last
          | _, _ => none
      | _, _ => some (dir ++ [name])

/-- Adds an entry at a path. -/
def add (t : FileTree) (path : String) (node : Node) : FileTree :=
  let p := Path.ofText path
  match node with
  | .directory => (t.enterAll (t.startOf p) p.names).1
  | _ =>
      let (t, dir) := t.enterAll (t.startOf p) p.names.dropLast
      match node with
      | .file _ =>
          match t.writingPlace? maxLinks dir p.name with
          | some place => t.put place node
          | none => t
      | _ => t.put (dir ++ [p.name]) node

end DocAudit.FileTree
