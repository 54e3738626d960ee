/-
A tree of files as plain data: for each place, what stands there. A
place is the list of names from the top down; the top itself is a
directory and needs no entry. A link holds the text of its target and
nothing more, so links may lead anywhere, to nothing, or in circles.

A tree has no entry that a path could not name: a name is never empty,
`.` or `..`, and it holds no slash; and U+0000 stands neither in a name
nor in a target.
-/
import DocAudit.NameSet

namespace DocAudit

/-- What stands at a place. -/
inductive Node where
  | directory
  | file (content : List UInt8)
  | link (target : String)
  | pipe
  deriving DecidableEq, Repr

/-- Is a node a link? -/
def Node.isLink : Node → Bool
  | link _ => true
  | _ => false

/-- A place in the tree: the names from the top down, none of them a
link on the way. -/
abbrev Place := List String

/-- Can a name stand in a directory? -/
def isEntryName (name : String) : Bool :=
  name != "" && name != "." && name != ".." && !name.toList.contains '/'
    && !name.toList.contains '\x00'

/-- Can an entry stand in a tree? -/
def isEntry (e : Place × Node) : Bool :=
  e.1.all isEntryName
    && match e.2 with
      | .link target => !target.toList.contains '\x00'
      | _ => true

/-- A tree and the directory that relative paths start from. -/
structure FileTree where
  here : Place
  entries : List (Place × Node)
  proper : ∀ e ∈ entries, isEntry e = true
  deriving DecidableEq, Repr

namespace FileTree

/-- What stands at a place. -/
def node? (t : FileTree) (place : Place) : Option Node :=
  if place = [] then some .directory else t.entries.lookup place

/-- The name of an entry that lies directly in a directory. -/
def nameIn? (dir place : Place) : Option String :=
  match place.getLast? with
  | some name => if place = dir ++ [name] then some name else none
  | none => none

theorem eq_of_nameIn? {dir place : Place} {name : String} (h : nameIn? dir place = some name) :
    place = dir ++ [name] := by
  unfold nameIn? at h
  split at h
  · split at h
    · cases h
      assumption
    · cases h
  · cases h

theorem nameIn?_append (dir : Place) (name : String) : nameIn? dir (dir ++ [name]) = some name := by
  simp [nameIn?]

/-- The names in a directory, in order. -/
def namesIn (t : FileTree) (dir : Place) : List String :=
  NameSet.ofList (t.entries.filterMap fun e => nameIn? dir e.1)

/-- The number of links. -/
def linkCount (t : FileTree) : Nat :=
  t.entries.countP fun e => e.2.isLink

/-- A name in a directory is that of an entry. -/
theorem mem_namesIn {t : FileTree} {dir : Place} {name : String} :
    name ∈ t.namesIn dir ↔ ∃ node, (dir ++ [name], node) ∈ t.entries := by
  rw [namesIn, NameSet.mem_ofList, List.mem_filterMap]
  constructor
  · rintro ⟨⟨place, node⟩, hmem, hname⟩
    obtain rfl := eq_of_nameIn? hname
    exact ⟨node, hmem⟩
  · rintro ⟨node, hmem⟩
    exact ⟨_, hmem, nameIn?_append dir name⟩

/-- A directory has no more names than the tree has entries. -/
theorem length_namesIn_le (t : FileTree) (dir : Place) :
    (t.namesIn dir).length ≤ t.entries.length :=
  Nat.le_trans (NameSet.length_ofList_le _) (List.length_filterMap_le _ _)

/-- The names in a directory are entry names. -/
theorem isEntryName_of_mem_namesIn {t : FileTree} {dir : Place} {name : String}
    (h : name ∈ t.namesIn dir) : isEntryName name = true := by
  obtain ⟨node, hmem⟩ := mem_namesIn.1 h
  have hproper := t.proper _ hmem
  simp only [isEntry, Bool.and_eq_true, List.all_eq_true] at hproper
  exact hproper.1 name (by simp)

end FileTree

end DocAudit
