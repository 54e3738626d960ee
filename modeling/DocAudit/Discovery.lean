/-
Finding the files below a root. The walk is depth first: the files of a
directory, then its subdirectories, both in order of their names. A
directory that cannot be listed is logged and passed by. With links
followed, one directory may be met many times; each is gone into only the
first time, told by its real path, which also cuts circles short.

The walk keeps a stack of directories to go into, written as the names
below the root. A directory is known again by its real path, and a link
too long to be looked at is kept in a real path as it is written; so one
directory may have several. What ends the walk is that written paths get
longer on the way down, and a path that is too long cannot be listed: a
directory on the stack weighs more than all that can be put in its place.
-/
import DocAudit.Disk
import DocAudit.Log
import DocAudit.Settings.Basic

namespace DocAudit

namespace Discovery

/-- The part of the program that finds files, by its name in the log. -/
def logger : String := "jccs.scanner"

/-- Appends a name to a directory's written form. -/
def joinName (dir name : String) : String :=
  if "/".toList.isSuffixOf dir.toList then dir ++ name else dir ++ "/" ++ name

/-- How a directory below the root is written during the walk. -/
def walkPath (root : Path) (below : List String) : String :=
  below.foldl joinName root.text

-- ============================================================ listing

/-- A directory that has been listed. -/
structure Listing (t : FileTree) where
  /-- Its real place. -/
  place : Place
  isDirectory : t.node? place = some .directory
  /-- Its entries, in order. -/
  names : List String

/-- Lists the directory that a path leads to, `written` being its form
in the walk. -/
def list (d : Disk) (written : String) (p : Path) : Except Failure (Listing d.tree) :=
  match d.unlistable.lookup written with
  | some refusal => .error (.fault ⟨refusal, written⟩)
  | none =>
      if p.hasNul then .error .nul
      else if FileTree.isTooLong written then .error (.fault (.ofObstacle .nameTooLong written))
      else match d.tree.locate p with
        | .error why => .error (.fault (.ofObstacle why written))
        | .ok place =>
            if h : d.tree.node? place = some .directory then
              .ok ⟨place, h, d.tree.namesIn place⟩
            else .error (.fault (.ofObstacle .notDirectory written))

/-- What is listed is a directory that the path leads to. -/
theorem list_eq_ok {d : Disk} {written : String} {p : Path} {listing : Listing d.tree}
    (h : list d written p = .ok listing) :
    d.unlistable.lookup written = none ∧ p.hasNul = false ∧ FileTree.isTooLong written = false
      ∧ d.tree.locate p = .ok listing.place
      ∧ listing.names = d.tree.namesIn listing.place := by
  unfold list at h
  split at h
  · cases h
  · rename_i hgranted
    split at h
    · cases h
    · rename_i hnul
      split at h
      · cases h
      · rename_i hshort
        split at h
        · cases h
        · rename_i place hlocate
          split at h
          · cases h
            exact ⟨hgranted, by simpa using hnul, by simpa using hshort, hlocate, rfl⟩
          · cases h

-- ============================================================= yields

/-- What the walk has brought so far, last first. -/
structure Yield where
  /-- The real paths of the directories gone into. -/
  seen : List Path := []
  files : List Path := []
  records : List Log.Record := []
  deriving DecidableEq, Repr

namespace Yield

/-- Goes into a directory. -/
def enter (y : Yield) (real : Path) : Yield :=
  { y with seen := real :: y.seen }

/-- Adds a file. -/
def addFile (y : Yield) (p : Path) : Yield :=
  { y with files := p :: y.files }

/-- Adds a log record. -/
def log (y : Yield) (level : Log.Level) (message : String) : Yield :=
  { y with records := ⟨level, logger, message⟩ :: y.records }

end Yield

/-- Gathers the files of a directory that have the extension. One that
is no regular file is logged. -/
def gather (d : Disk) (extension : String) (dir : Path) (y : Yield) :
    List String → Except Failure Yield
  | [] => .ok y
  | name :: rest =>
      let p := dir.below [name]
      if p.hasExtension extension then
        match d.isFile p with
        | .error failure => .error failure
        | .ok true => gather d extension dir (y.addFile p) rest
        | .ok false =>
            gather d extension dir (y.log .debug ("skipping non-regular file " ++ p.text)) rest
      else gather d extension dir y rest

/-- Gathering files goes into no directory. -/
theorem seen_gather {d : Disk} {extension : String} {dir : Path} {y z : Yield}
    {names : List String} (h : gather d extension dir y names = .ok z) : z.seen = y.seen := by
  induction names generalizing y with
  | nil =>
      cases h
      rfl
  | cons name rest ih =>
      simp only [gather] at h
      split at h
      · split at h
        · cases h
        · exact (ih h).trans rfl
        · exact (ih h).trans rfl
      · exact ih h

-- =============================================================== walk

/-- A directory on the walk: how it is written there, its path and its
real place. -/
structure Stop where
  written : String
  dir : Path
  place : Place
  deriving DecidableEq, Repr

namespace Stop

/-- Is an entry a directory? A link is one if it leads to one. -/
def isDirectory (s : Stop) (d : Disk) (name : String) : Bool :=
  match d.tree.node? (s.place ++ [name]) with
  | some .directory => true
  | some (.link _) =>
      !FileTree.isTooLong (joinName s.written name) && d.tree.isDirectory (s.dir.below [name])
  | _ => false

/-- The subdirectories to go into, among the entries. -/
def enterable (s : Stop) (d : Disk) (settings : Settings) (names : List String) : List String :=
  names.filter fun name =>
    s.isDirectory d name && !settings.skipDirs.contains name
      && (settings.followLinks || !d.tree.isLinkAt (s.place ++ [name]))

/-- The entries that are no directories. -/
def nonDirectories (s : Stop) (d : Disk) (names : List String) : List String :=
  names.filter fun name => !s.isDirectory d name

end Stop

/-- What the walk finds when it turns to a directory. -/
inductive Meeting (t : FileTree) where
  | unlistable (fault : Fault)
  | seenBefore
  /-- A new directory, with its real path. -/
  | new (listing : Listing t) (real : Path)

/-- Lists the directory `below` the root and looks for its real path
among those seen. -/
def meet (d : Disk) (root : Path) (seen : List Path) (below : List String) :
    Except Failure (Meeting d.tree) :=
  match list d (walkPath root below) (root.below below) with
  | .error (.fault fault) => .ok (.unlistable fault)
  | .error failure => .error failure
  | .ok listing =>
      match d.tree.realPath (root.below below) with
      | .error failure => .error failure
      | .ok real => .ok (if real ∈ seen then .seenBefore else .new listing real)

/-- The listing and the real path of a new directory. -/
theorem meet_eq_new {d : Disk} {root : Path} {seen : List Path} {below : List String}
    {listing : Listing d.tree} {real : Path}
    (h : meet d root seen below = .ok (.new listing real)) :
    list d (walkPath root below) (root.below below) = .ok listing
      ∧ d.tree.realPath (root.below below) = .ok real ∧ real ∉ seen := by
  unfold meet at h
  split at h
  · cases h
  · cases h
  · rename_i hlist
    split at h
    · cases h
    · rename_i hreal
      split at h
      · cases h
      · rename_i hnew
        cases h
        exact ⟨hlist, hreal, hnew⟩

/-- One turn of the walk: gathers the files of the directory `below` the
root if it is new. Returns what the walk has brought and the names of the
subdirectories to go into next. -/
def turn (d : Disk) (settings : Settings) (root : Path) (y : Yield) (below : List String) :
    Except Failure (Yield × List String) :=
  match meet d root y.seen below with
  | .error failure => .error failure
  | .ok (.unlistable fault) =>
      .ok (y.log .warning ("cannot list " ++ fault.subject ++ ": " ++ fault.reason), [])
  | .ok .seenBefore =>
      .ok (y.log .debug ("skipping already visited directory " ++ walkPath root below), [])
  | .ok (.new listing real) =>
      let stop : Stop := ⟨walkPath root below, root.below below, listing.place⟩
      match gather d settings.extension stop.dir (y.enter real)
          (stop.nonDirectories d listing.names) with
      | .error failure => .error failure
      | .ok z => .ok (z, stop.enterable d settings listing.names)

/-- What a turn can come to. -/
inductive Turn (d : Disk) (settings : Settings) (root : Path) (y : Yield)
    (below : List String) : Yield → List String → Prop where
  | passBy {fault : Fault} (hmeet : meet d root y.seen below = .ok (.unlistable fault)) :
      Turn d settings root y below
        (y.log .warning ("cannot list " ++ fault.subject ++ ": " ++ fault.reason)) []
  | turnBack (hmeet : meet d root y.seen below = .ok .seenBefore) :
      Turn d settings root y below
        (y.log .debug ("skipping already visited directory " ++ walkPath root below)) []
  | goInto {listing : Listing d.tree} {real : Path} {z : Yield}
      (hmeet : meet d root y.seen below = .ok (.new listing real))
      (hgather : gather d settings.extension (root.below below) (y.enter real)
        (Stop.nonDirectories ⟨walkPath root below, root.below below, listing.place⟩ d
          listing.names) = .ok z) :
      Turn d settings root y below z
        (Stop.enterable ⟨walkPath root below, root.below below, listing.place⟩ d settings
          listing.names)

theorem turn_cases {d : Disk} {settings : Settings} {root : Path} {y z : Yield}
    {below inner : List String} (h : turn d settings root y below = .ok (z, inner)) :
    Turn d settings root y below z inner := by
  unfold turn at h
  split at h
  · cases h
  · rename_i hmeet
    cases h
    exact .passBy hmeet
  · rename_i hmeet
    cases h
    exact .turnBack hmeet
  · rename_i hmeet
    dsimp only at h
    split at h
    · cases h
    · rename_i hgather
      cases h
      exact .goInto hmeet hgather

-- ============================================================= weight

/-- The bytes by which a written directory may still grow. -/
def room (root : Path) (below : List String) : Nat :=
  FileTree.maxPathBytes + 1 - (walkPath root below).utf8ByteSize

/-- The directories of a full tree, in which each holds `width` others
down to a depth. -/
def fullSize (width : Nat) : Nat → Nat
  | 0 => 1
  | depth + 1 => 1 + width * fullSize width depth

theorem fullSize_le (width : Nat) {depth more : Nat} (h : depth ≤ more) :
    fullSize width depth ≤ fullSize width more := by
  induction more generalizing depth with
  | zero =>
      obtain rfl := Nat.le_zero.1 h
      exact Nat.le_refl _
  | succ more ih =>
      cases depth with
      | zero => exact Nat.le_add_right 1 _
      | succ depth =>
          exact Nat.add_le_add_left (Nat.mul_le_mul_left _ (ih (Nat.le_of_succ_le_succ h))) 1

/-- The weight of a stack of directories: each counts for all that may
ever lie below it. -/
def weight (t : FileTree) (root : Path) : List (List String) → Nat
  | [] => 0
  | below :: rest => fullSize t.entries.length (room root below) + weight t root rest

theorem weight_append (t : FileTree) (root : Path) (pending more : List (List String)) :
    weight t root (pending ++ more) = weight t root pending + weight t root more := by
  induction pending with
  | nil => exact (Nat.zero_add _).symm
  | cons below rest ih => rw [List.cons_append, weight, weight, ih, Nat.add_assoc]

/-- A name makes a written path longer. -/
theorem size_joinName_lt (dir : String) {name : String} (h : name ≠ "") :
    dir.utf8ByteSize < (joinName dir name).utf8ByteSize := by
  have hpos : 0 < name.utf8ByteSize := by
    rw [Nat.pos_iff_ne_zero, ne_eq, String.utf8ByteSize_eq_zero_iff]
    exact h
  unfold joinName
  split <;> simp only [String.utf8ByteSize_append] <;> omega

/-- A turn leaves no more names than the tree has entries, none of them
empty, and none at all for a path that is too long. -/
theorem inner_of_turn {d : Disk} {settings : Settings} {root : Path} {y z : Yield}
    {below inner : List String} (h : Turn d settings root y below z inner) :
    inner.length ≤ d.tree.entries.length ∧ (∀ name ∈ inner, isEntryName name = true)
      ∧ (inner ≠ [] → 0 < room root below) := by
  cases h with
  | passBy => exact ⟨Nat.zero_le _, nofun, fun h => absurd rfl h⟩
  | turnBack => exact ⟨Nat.zero_le _, nofun, fun h => absurd rfl h⟩
  | goInto hmeet =>
      obtain ⟨hlist, -, -⟩ := meet_eq_new hmeet
      obtain ⟨-, -, hshort, -, hnames⟩ := list_eq_ok hlist
      refine ⟨?_, fun name hname => ?_, fun _ => ?_⟩
      · refine Nat.le_trans (List.length_filter_le _ _) ?_
        rw [hnames]
        exact d.tree.length_namesIn_le _
      · have hmem := (List.mem_filter.1 hname).1
        rw [hnames] at hmem
        exact FileTree.isEntryName_of_mem_namesIn hmem
      · have hle : (walkPath root below).utf8ByteSize ≤ FileTree.maxPathBytes := by
          simpa [FileTree.isTooLong] using hshort
        unfold room
        omega

/-- An entry name is not empty. -/
theorem ne_empty_of_isEntryName {name : String} (h : isEntryName name = true) : name ≠ "" := by
  rintro rfl
  exact absurd h (by decide)

/-- Below a directory there is less room. -/
theorem room_append_lt {root : Path} {below : List String} {name : String} (h : name ≠ "")
    (hroom : 0 < room root below) : room root (below ++ [name]) < room root below := by
  have hsize := size_joinName_lt (walkPath root below) h
  have hpath : walkPath root (below ++ [name]) = joinName (walkPath root below) name := by
    unfold walkPath
    rw [List.foldl_append]
    rfl
  unfold room at *
  rw [hpath]
  omega

/-- The subdirectories of a directory weigh less than it does. -/
theorem weight_inner_lt {t : FileTree} {root : Path} {below inner : List String}
    (hlen : inner.length ≤ t.entries.length) (hname : ∀ name ∈ inner, isEntryName name = true)
    (hroom : inner ≠ [] → 0 < room root below) :
    weight t root (inner.map fun n => below ++ [n])
      < fullSize t.entries.length (room root below) := by
  cases hdepth : room root below with
  | zero =>
      -- without room there are none
      have hnil : inner = [] := by
        by_cases hnil : inner = []
        · exact hnil
        · have hpos := hroom hnil
          omega
      subst hnil
      exact Nat.zero_lt_one
  | succ depth =>
      have hshare : ∀ n ∈ inner, fullSize t.entries.length (room root (below ++ [n]))
          ≤ fullSize t.entries.length depth := by
        intro n hn
        have hpos : 0 < room root below := by omega
        have hless := room_append_lt (ne_empty_of_isEntryName (hname n hn)) hpos
        exact fullSize_le _ (by omega)
      have hsum : weight t root (inner.map fun n => below ++ [n])
          ≤ inner.length * fullSize t.entries.length depth := by
        clear hlen hname hroom
        induction inner with
        | nil => exact Nat.zero_le _
        | cons n rest ih =>
            have hfirst := hshare n (List.mem_cons_self ..)
            have hrest := ih fun m hm => hshare m (List.mem_cons_of_mem _ hm)
            rw [List.map_cons, weight, List.length_cons, Nat.succ_mul]
            omega
      have hall : inner.length * fullSize t.entries.length depth
          ≤ t.entries.length * fullSize t.entries.length depth := Nat.mul_le_mul_right _ hlen
      rw [fullSize]
      omega

/-- Every turn makes the stack lighter. -/
theorem weight_turn_lt {d : Disk} {settings : Settings} {root : Path} {y z : Yield}
    {below inner : List String} (h : Turn d settings root y below z inner)
    (rest : List (List String)) :
    weight d.tree root ((inner.map fun n => below ++ [n]) ++ rest)
      < weight d.tree root (below :: rest) := by
  obtain ⟨hlen, hname, hroom⟩ := inner_of_turn h
  have hless := weight_inner_lt hlen hname hroom
  rw [weight_append, weight]
  exact Nat.add_lt_add_right hless _

-- =============================================================== walk

/-- The walk: `y` is what it has brought, `pending` the directories to go
into, the next one first. -/
def walk (d : Disk) (settings : Settings) (root : Path) (y : Yield)
    (pending : List (List String)) : Except Failure Yield :=
  match pending with
  | [] => .ok y
  | below :: rest =>
      match h : turn d settings root y below with
      | .error failure => .error failure
      | .ok (z, inner) =>
          have := weight_turn_lt (turn_cases h) rest
          walk d settings root z ((inner.map fun n => below ++ [n]) ++ rest)
termination_by weight d.tree root pending

theorem walk_cons_ok {d : Disk} {settings : Settings} {root : Path} {y z : Yield}
    {below inner : List String} {rest : List (List String)}
    (h : turn d settings root y below = .ok (z, inner)) :
    walk d settings root y (below :: rest)
      = walk d settings root z ((inner.map fun n => below ++ [n]) ++ rest) := by
  rw [walk]
  split
  · rename_i hturn
    rw [h] at hturn
    cases hturn
  · rename_i hturn
    rw [h] at hturn
    cases hturn
    rfl

theorem walk_cons_error {d : Disk} {settings : Settings} {root : Path} {y : Yield}
    {below : List String} {rest : List (List String)} {failure : Failure}
    (h : turn d settings root y below = .error failure) :
    walk d settings root y (below :: rest) = .error failure := by
  rw [walk]
  split
  · rename_i hturn
    rw [h] at hturn
    cases hturn
    rfl
  · rename_i hturn
    rw [h] at hturn
    cases hturn

/-- What a search has found, in order. -/
structure Found where
  /-- The real paths of the directories gone into. -/
  directories : List Path
  files : List Path
  records : List Log.Record
  deriving DecidableEq, Repr

/-- Finds the files below a root. A root that is a file is found if it
has the extension. -/
def filesBelow (d : Disk) (settings : Settings) (root : Path) : Except Failure Found := do
  if ← d.isFile root then
    return ⟨[], if root.hasExtension settings.extension then [root] else [], []⟩
  let y ← walk d settings root {} [[]]
  return ⟨y.seen.reverse, y.files.reverse, y.records.reverse⟩

-- ================================================ as far as it goes

/-- Gathering as far as it goes: what has been gathered when it ends, and
the failure if it ends by one. -/
def gatherUntil (d : Disk) (extension : String) (dir : Path) (y : Yield) :
    List String → Yield × Option Failure
  | [] => (y, none)
  | name :: rest =>
      let p := dir.below [name]
      if p.hasExtension extension then
        match d.isFile p with
        | .error failure => (y, some failure)
        | .ok true => gatherUntil d extension dir (y.addFile p) rest
        | .ok false =>
            gatherUntil d extension dir (y.log .debug ("skipping non-regular file " ++ p.text)) rest
      else gatherUntil d extension dir y rest

theorem gather_eq_gatherUntil (d : Disk) (extension : String) (dir : Path) (y : Yield)
    (names : List String) :
    gather d extension dir y names = completed (gatherUntil d extension dir y names) := by
  induction names generalizing y with
  | nil => rfl
  | cons name rest ih =>
      rw [gather, gatherUntil]
      split
      · split
        · rfl
        · exact ih _
        · exact ih _
      · exact ih y

/-- A turn as far as it goes: what the walk has brought when it ends, and
the names of the subdirectories or the failure. -/
def turnUntil (d : Disk) (settings : Settings) (root : Path) (y : Yield) (below : List String) :
    Yield × Except Failure (List String) :=
  match meet d root y.seen below with
  | .error failure => (y, .error failure)
  | .ok (.unlistable fault) =>
      (y.log .warning ("cannot list " ++ fault.subject ++ ": " ++ fault.reason), .ok [])
  | .ok .seenBefore =>
      (y.log .debug ("skipping already visited directory " ++ walkPath root below), .ok [])
  | .ok (.new listing real) =>
      let stop : Stop := ⟨walkPath root below, root.below below, listing.place⟩
      match gatherUntil d settings.extension stop.dir (y.enter real)
          (stop.nonDirectories d listing.names) with
      | (z, some failure) => (z, .error failure)
      | (z, none) => (z, .ok (stop.enterable d settings listing.names))

theorem turn_eq_turnUntil (d : Disk) (settings : Settings) (root : Path) (y : Yield)
    (below : List String) :
    turn d settings root y below
      = (turnUntil d settings root y below).2.map
          fun inner => ((turnUntil d settings root y below).1, inner) := by
  unfold turn turnUntil
  cases meet d root y.seen below with
  | error failure => rfl
  | ok meeting =>
      cases meeting with
      | unlistable fault => rfl
      | seenBefore => rfl
      | new listing real =>
          dsimp only
          rw [gather_eq_gatherUntil]
          generalize gatherUntil d settings.extension _ _ _ = gathered
          obtain ⟨z, stopped⟩ := gathered
          cases stopped <;> rfl

theorem turn_of_turnUntil {d : Disk} {settings : Settings} {root : Path} {y z : Yield}
    {below inner : List String} (h : turnUntil d settings root y below = (z, .ok inner)) :
    turn d settings root y below = .ok (z, inner) := by
  rw [turn_eq_turnUntil, h]
  rfl

/-- The walk as far as it goes: what it has brought when it ends, and the
failure if it ends by one. -/
def walkUntil (d : Disk) (settings : Settings) (root : Path) (y : Yield)
    (pending : List (List String)) : Yield × Option Failure :=
  match pending with
  | [] => (y, none)
  | below :: rest =>
      match h : turnUntil d settings root y below with
      | (z, .error failure) => (z, some failure)
      | (z, .ok inner) =>
          have := weight_turn_lt (turn_cases (turn_of_turnUntil h)) rest
          walkUntil d settings root z ((inner.map fun n => below ++ [n]) ++ rest)
termination_by weight d.tree root pending

/-- A walk is what it comes to when followed as far as it goes. -/
theorem walk_eq_walkUntil (d : Disk) (settings : Settings) (root : Path) (y : Yield)
    (pending : List (List String)) :
    walk d settings root y pending = completed (walkUntil d settings root y pending) := by
  fun_induction walkUntil d settings root y pending with
  | case1 y => rw [walk, completed]
  | case2 y below rest z failure hturn =>
      have hfailed : turn d settings root y below = .error failure := by
        rw [turn_eq_turnUntil, hturn]
        rfl
      rw [walk_cons_error hfailed, completed]
  | case3 y below rest z inner hturn _ ih => rw [walk_cons_ok (turn_of_turnUntil hturn), ih]

/-- The search as far as it goes. -/
def searchBelow (d : Disk) (settings : Settings) (root : Path) : Found × Option Failure :=
  match d.isFile root with
  | .error failure => (⟨[], [], []⟩, some failure)
  | .ok true => (⟨[], if root.hasExtension settings.extension then [root] else [], []⟩, none)
  | .ok false =>
      let (y, stopped) := walkUntil d settings root {} [[]]
      (⟨y.seen.reverse, y.files.reverse, y.records.reverse⟩, stopped)

/-- A search is what it comes to when followed as far as it goes. -/
theorem filesBelow_eq_searchBelow (d : Disk) (settings : Settings) (root : Path) :
    filesBelow d settings root = completed (searchBelow d settings root) := by
  unfold filesBelow searchBelow
  cases d.isFile root with
  | error failure => rfl
  | ok isFile =>
      cases isFile with
      | true => rfl
      | false =>
          simp only [bind, Except.bind, walk_eq_walkUntil]
          generalize walkUntil d settings root {} [[]] = ended
          obtain ⟨y, stopped⟩ := ended
          cases stopped <;> rfl

end Discovery

end DocAudit
