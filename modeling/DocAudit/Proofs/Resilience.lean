/-
What an audit survives. Below a root that is a directory, all that can go
wrong with an entry is taken care of where it arises: a directory that
cannot be listed is logged, an entry that is no regular file is logged, a
file that cannot be read is recorded, and the walk goes on. There is one
exception. To tell whether an entry with the extension is a regular file
the system has to follow its path, and where a name on the way or the path
itself is too long this fails and ends the audit. So an audit completes
exactly if no such entry is met (`Unexaminable`).

# What cannot fail

No path on the walk holds U+0000: the root leads to a directory, and all
names below come from the tree. Real paths are found for all such paths,
whatever the links in their way (`exists_realPath`), and a file that has
been found is scanned or has a fault of its own.

# What is not lost

A run of the walk only adds to what it has brought, and nothing leaves the
stack without being turned to (`Run.keeps`). So what one turn brings or
logs is there in the end.
-/
import DocAudit.Proofs.NulFree
import DocAudit.Proofs.Tallying
import DocAudit.Proofs.Walk

namespace DocAudit

open FileTree

-- ============================================================ examining

namespace Disk

variable {d : Disk} {p : Path}

theorem find_eq_nameTooLong :
    d.tree.find p = .error .nameTooLong ↔ d.tree.locate p = .error .nameTooLong := by
  unfold find
  cases hlocate : d.tree.locate p with
  | error why => simp
  | ok place => cases hnode : d.tree.node? place <;> simp [hnode]

/-- Whether a path leads to a file can only not be told for length. -/
theorem isFile_eq_error (hp : p.hasNul = false) {failure : Failure} :
    d.isFile p = .error failure
      ↔ d.tree.locate p = .error .nameTooLong
        ∧ failure = .fault (.ofObstacle .nameTooLong p.text) := by
  rw [← find_eq_nameTooLong]
  unfold isFile
  rw [hp]
  cases hfind : d.tree.find p with
  | ok node => cases node <;> simp
  | error why => cases why <;> simp [eq_comm]

theorem isFile_eq_true (hp : p.hasNul = false) :
    d.isFile p = .ok true ↔ ∃ content, d.tree.find p = .ok (.file content) := by
  unfold isFile
  rw [hp]
  cases hfind : d.tree.find p with
  | ok node => cases node <;> simp
  | error why => cases why <;> simp

end Disk

namespace Discovery

variable {d : Disk} {settings : Settings} {root : Path}

/-- How a directory that cannot be listed is logged. -/
def cannotList (fault : Fault) : Log.Record :=
  ⟨.warning, logger, "cannot list " ++ fault.subject ++ ": " ++ fault.reason⟩

/-- How an entry with the extension is logged that is no regular file. -/
def notRegular (p : Path) : Log.Record :=
  ⟨.debug, logger, "skipping non-regular file " ++ p.text⟩

-- ============================================================ gathering

section Gathering

variable {extension : String} {dir : Path} {y : Yield} {names : List String}

/-- Gathering fails at an entry with the extension only. -/
theorem exists_of_gather_error {failure : Failure}
    (h : gather d extension dir y names = .error failure) :
    ∃ name ∈ names, (dir.below [name]).hasExtension extension = true
      ∧ d.isFile (dir.below [name]) = .error failure := by
  induction names generalizing y with
  | nil => cases h
  | cons name rest ih =>
      have hrest : ∀ z, gather d extension dir z rest = .error failure →
          ∃ n ∈ name :: rest, (dir.below [n]).hasExtension extension = true
            ∧ d.isFile (dir.below [n]) = .error failure := by
        intro z hz
        obtain ⟨n, hn, hfails⟩ := ih hz
        exact ⟨n, List.mem_cons_of_mem _ hn, hfails⟩
      simp only [gather] at h
      split at h
      · rename_i hext
        split at h
        · rename_i hfile
          cases h
          exact ⟨name, List.mem_cons_self .., hext, hfile⟩
        · exact hrest _ h
        · exact hrest _ h
      · exact hrest _ h

/-- Gathering drops no record. -/
theorem records_gather {z : Yield} (h : gather d extension dir y names = .ok z) :
    ∀ record ∈ y.records, record ∈ z.records := by
  induction names generalizing y with
  | nil =>
      cases h
      exact fun _ hrecord => hrecord
  | cons name rest ih =>
      intro record hrecord
      simp only [gather] at h
      split at h
      · split at h
        · cases h
        · exact ih h record hrecord
        · exact ih h record (List.mem_cons_of_mem _ hrecord)
      · exact ih h record hrecord

/-- Gathering that completes has examined every entry with the extension,
and logged those that are no files. -/
theorem examined_of_gather {z : Yield} (h : gather d extension dir y names = .ok z) {name : String}
    (hname : name ∈ names) (hext : (dir.below [name]).hasExtension extension = true) :
    d.isFile (dir.below [name]) = .ok true
      ∨ (d.isFile (dir.below [name]) = .ok false ∧ notRegular (dir.below [name]) ∈ z.records) := by
  induction names generalizing y with
  | nil => cases hname
  | cons first rest ih =>
      rcases List.mem_cons.1 hname with rfl | hname
      · simp only [gather, hext, if_true] at h
        split at h
        · cases h
        · rename_i hfile
          exact .inl hfile
        · rename_i hfile
          exact .inr ⟨hfile, records_gather h _ (List.mem_cons_self ..)⟩
      · simp only [gather] at h
        split at h
        · split at h
          · cases h
          · exact ih h hname
          · exact ih h hname
        · exact ih h hname

end Gathering

-- ================================================================= runs

theorem Turn.keeps {y z : Yield} {below inner : List String}
    (h : Turn d settings root y below z inner) :
    (∀ p ∈ y.files, p ∈ z.files) ∧ ∀ record ∈ y.records, record ∈ z.records := by
  cases h with
  | passBy => exact ⟨fun _ hp => hp, fun _ hrecord => List.mem_cons_of_mem _ hrecord⟩
  | turnBack => exact ⟨fun _ hp => hp, fun _ hrecord => List.mem_cons_of_mem _ hrecord⟩
  | goInto _ hgather =>
      refine ⟨fun p hp => ?_, fun record hrecord => records_gather hgather record hrecord⟩
      rw [files_gather hgather]
      exact List.mem_append_right _ hp

/-- The walk turns to a directory, when it has brought `y`. -/
def TurnsTo (d : Disk) (settings : Settings) (root : Path) (y : Yield) (below : List String) :
    Prop :=
  ∃ turned rest, Run d settings root turned y (below :: rest)

namespace Run

variable {turned pending turned' pending' : List (List String)} {y y' : Yield}

/-- No directory on the stack holds U+0000 in its path. -/
theorem hasNul_eq_false (h : Run d settings root turned y pending) (hroot : root.hasNul = false) :
    ∀ below ∈ pending, (root.below below).hasNul = false := by
  induction h with
  | start =>
      intro below hmem
      rw [List.mem_singleton.1 hmem, Path.below_nil]
      exact hroot
  | @next turned rest y z last inner _ hturn ih =>
      intro below hmem
      rcases List.mem_append.1 hmem with hmem | hmem
      · obtain ⟨name, hname, rfl⟩ := List.mem_map.1 hmem
        have hentry := (inner_of_turn (turn_cases hturn)).2.1 name hname
        rw [← Path.below_below]
        exact Path.hasNul_below (ih last (List.mem_cons_self ..))
          (nul_not_mem_of_isEntryName hentry)
      · exact ih below (List.mem_cons_of_mem _ hmem)

/-- A later state of the walk has all that an earlier one has, and has
turned to all directories or has them on the stack. -/
theorem keeps (h : Run d settings root turned y pending)
    (h' : Run d settings root turned' y' pending') (hle : turned.length ≤ turned'.length) :
    (∀ p ∈ y.files, p ∈ y'.files) ∧ (∀ record ∈ y.records, record ∈ y'.records)
      ∧ ∀ below ∈ turned ++ pending, below ∈ turned' ++ pending' := by
  -- on the later state; where it has made as many turns the two are one
  induction h' with
  | start =>
      obtain ⟨rfl, rfl, rfl⟩ := h.unique .start (Nat.le_zero.1 hle)
      exact ⟨fun _ hp => hp, fun _ hrecord => hrecord, fun _ hbelow => hbelow⟩
  | @next turned' rest y' z last inner hrun' hturn' ih =>
      rcases Nat.lt_or_eq_of_le hle with hless | heq
      · obtain ⟨hfiles, hrecords, hstack⟩ := ih (Nat.le_of_lt_succ hless)
        obtain ⟨hfiles', hrecords'⟩ := (turn_cases hturn').keeps
        refine ⟨fun p hp => hfiles' p (hfiles p hp),
          fun record hrecord => hrecords' record (hrecords record hrecord), ?_⟩
        intro below hbelow
        have hmem := hstack below hbelow
        rw [List.mem_append, List.mem_cons] at hmem
        rw [List.mem_append, List.mem_cons, List.mem_append]
        rcases hmem with hmem | hmem | hmem
        · exact .inl (.inr hmem)
        · exact .inl (.inl hmem)
        · exact .inr (.inr hmem)
      · obtain ⟨rfl, rfl, rfl⟩ := h.unique (hrun'.next hturn') heq
        exact ⟨fun _ hp => hp, fun _ hrecord => hrecord, fun _ hbelow => hbelow⟩

/-- No state comes after one that has nothing on the stack. -/
theorem length_le (h : Run d settings root turned y pending)
    (hend : Run d settings root turned' y' []) : turned.length ≤ turned'.length := by
  induction h with
  | start => exact Nat.zero_le _
  | next hrun _ ih =>
      rcases Nat.lt_or_eq_of_le ih with hless | heq
      · exact hless
      · obtain ⟨-, -, hpending⟩ := hrun.unique hend heq
        cases hpending

theorem exists_turnsTo (h : Run d settings root turned y pending) {below : List String}
    (hmem : below ∈ turned) : ∃ y', TurnsTo d settings root y' below := by
  induction h with
  | start => cases hmem
  | next hrun _ ih =>
      rcases List.mem_cons.1 hmem with rfl | hmem
      · exact ⟨_, _, _, hrun⟩
      · exact ih hmem

end Run

/-- In a walk that completes no turn fails, what a turn brings is there
in the end, and the directories that it leaves are turned to. -/
theorem TurnsTo.exists_turn {y last : Yield} {below : List String}
    (h : TurnsTo d settings root y below) (hwalk : walk d settings root {} [[]] = .ok last) :
    ∃ z inner, turn d settings root y below = .ok (z, inner)
      ∧ (∀ p ∈ z.files, p ∈ last.files) ∧ (∀ record ∈ z.records, record ∈ last.records)
      ∧ ∀ name ∈ inner, ∃ y', TurnsTo d settings root y' (below ++ [name]) := by
  obtain ⟨turned, rest, hrun⟩ := h
  obtain ⟨all, hend⟩ := exists_run_of_walk hwalk
  cases hturn : turn d settings root y below with
  | error failure =>
      rw [hrun.walk_eq, walk_cons_error hturn] at hwalk
      cases hwalk
  | ok result =>
      obtain ⟨z, inner⟩ := result
      have hnext := hrun.next hturn
      -- at the end the stack is empty, so all that was on it has been turned to
      obtain ⟨hfiles, hrecords, hstack⟩ := hnext.keeps hend (hnext.length_le hend)
      refine ⟨z, inner, rfl, hfiles, hrecords, ?_⟩
      intro name hname
      have hmem : below ++ [name] ∈ all ++ [] := by
        refine hstack _ (List.mem_append_right _ (List.mem_append_left _ ?_))
        exact List.mem_map.2 ⟨name, hname, rfl⟩
      rw [List.append_nil] at hmem
      exact hend.exists_turnsTo hmem

-- =========================================================== candidates

/-- The walk goes into a directory, which is new to it. -/
def GoesInto (d : Disk) (settings : Settings) (root : Path) (below : List String) (dir : Place) :
    Prop :=
  ∃ y listing real, TurnsTo d settings root y below
    ∧ meet d root y.seen below = .ok (.new listing real) ∧ listing.place = dir

/-- A path names an entry with the extension, no directory itself, in a
directory that the walk goes into. -/
def Candidate (d : Disk) (settings : Settings) (root p : Path) : Prop :=
  ∃ below dir name, GoesInto d settings root below dir ∧ name ∈ d.tree.namesIn dir
    ∧ d.tree.node? (dir ++ [name]) ≠ some .directory
    ∧ p = root.below (below ++ [name]) ∧ p.hasExtension settings.extension = true

/-- A candidate that the system does not examine: its path is too long,
or a name on the way to where it leads. -/
def Unexaminable (d : Disk) (settings : Settings) (root p : Path) : Prop :=
  Candidate d settings root p ∧ d.tree.locate p = .error .nameTooLong

theorem Candidate.hasNul_eq_false {p : Path} (h : Candidate d settings root p) :
    p.hasNul = false := by
  obtain ⟨below, dir, name, ⟨y, listing, real, -, hmeet, -⟩, hname, -, rfl, -⟩ := h
  obtain ⟨-, hnul, -⟩ := list_eq_ok (meet_eq_new hmeet).1
  rw [← Path.below_below]
  exact Path.hasNul_below hnul (nul_not_mem_of_isEntryName (isEntryName_of_mem_namesIn hname))

theorem candidate_of_mem_nonDirectories {y : Yield} {below : List String}
    {listing : Listing d.tree} {real : Path} {name : String}
    (hturns : TurnsTo d settings root y below)
    (hmeet : meet d root y.seen below = .ok (.new listing real))
    (hname : name ∈ Stop.nonDirectories ⟨walkPath root below, root.below below, listing.place⟩ d
      listing.names)
    (hext : (root.below (below ++ [name])).hasExtension settings.extension = true) :
    Candidate d settings root (root.below (below ++ [name])) := by
  obtain ⟨hmem, hno⟩ := List.mem_filter.1 hname
  obtain ⟨-, -, -, -, hnames⟩ := list_eq_ok (meet_eq_new hmeet).1
  rw [hnames] at hmem
  refine ⟨below, listing.place, name, ⟨y, listing, real, hturns, hmeet, rfl⟩, hmem, ?_, rfl, hext⟩
  intro hnode
  simp [Stop.isDirectory, hnode] at hno

/-- What a completed walk has done in a directory that it went into. -/
theorem GoesInto.exists_gather {below : List String} {dir : Place} {last : Yield}
    (h : GoesInto d settings root below dir) (hwalk : walk d settings root {} [[]] = .ok last) :
    ∃ y z, gather d settings.extension (root.below below) y
        (Stop.nonDirectories ⟨walkPath root below, root.below below, dir⟩ d
          (d.tree.namesIn dir)) = .ok z
      ∧ (∀ p ∈ z.files, p ∈ last.files) ∧ (∀ record ∈ z.records, record ∈ last.records)
      ∧ ∀ name ∈ Stop.enterable ⟨walkPath root below, root.below below, dir⟩ d settings
          (d.tree.namesIn dir), ∃ y', TurnsTo d settings root y' (below ++ [name]) := by
  obtain ⟨y, listing, real, hturns, hmeet, rfl⟩ := h
  obtain ⟨z, inner, hturn, hfiles, hrecords, honward⟩ := hturns.exists_turn hwalk
  obtain ⟨-, -, -, -, hnames⟩ := list_eq_ok (meet_eq_new hmeet).1
  rw [← hnames]
  cases turn_cases hturn with
  | passBy hmeet' =>
      rw [hmeet] at hmeet'
      cases hmeet'
  | turnBack hmeet' =>
      rw [hmeet] at hmeet'
      cases hmeet'
  | goInto hmeet' hgather =>
      rw [hmeet] at hmeet'
      cases hmeet'
      exact ⟨_, z, hgather, hfiles, hrecords, honward⟩

/-- An entry that is no directory is not taken for one, unless it is a
link to one. -/
theorem mem_nonDirectories {below : List String} {dir : Place} {name : String}
    (hname : name ∈ d.tree.namesIn dir) (hnode : d.tree.node? (dir ++ [name]) ≠ some .directory)
    (hfind : d.tree.find (root.below (below ++ [name])) ≠ .ok .directory) :
    name ∈ Stop.nonDirectories ⟨walkPath root below, root.below below, dir⟩ d
      (d.tree.namesIn dir) := by
  refine List.mem_filter.2 ⟨hname, ?_⟩
  rw [Bool.not_eq_true']
  unfold Stop.isDirectory
  split
  · rename_i hdirectory
    exact absurd hdirectory hnode
  · have hno : d.tree.isDirectory ((root.below below).below [name]) = false := by
      rw [Path.below_below]
      unfold isDirectory
      split
      · rename_i hdirectory
        exact absurd hdirectory hfind
      · rfl
    rw [hno, Bool.and_false]
  · rfl

/-- A completed walk has examined every candidate. -/
theorem Candidate.examined {p : Path} {last : Yield} (h : Candidate d settings root p)
    (hwalk : walk d settings root {} [[]] = .ok last) (hfind : d.tree.find p ≠ .ok .directory) :
    (d.isFile p = .ok true ∧ p ∈ last.files)
      ∨ (d.isFile p = .ok false ∧ notRegular p ∈ last.records) := by
  obtain ⟨below, dir, name, hinto, hname, hnode, rfl, hext⟩ := h
  obtain ⟨y, z, hgather, hfiles, hrecords, -⟩ := hinto.exists_gather hwalk
  -- what leads to no directory is not taken for one, so it is gathered here
  have hmem := mem_nonDirectories hname hnode hfind
  have hcase := examined_of_gather hgather hmem (by rwa [Path.below_below])
  rw [Path.below_below] at hcase
  refine hcase.imp (fun hfile => ⟨hfile, hfiles _ ?_⟩) fun ⟨hno, hlogged⟩ =>
    ⟨hno, hrecords _ hlogged⟩
  rw [files_gather hgather, List.mem_append, List.mem_reverse, List.mem_map]
  refine .inl ⟨name, List.mem_filter.2 ⟨hmem, ?_⟩, Path.below_below ..⟩
  rw [Path.below_below, gathers, hext, hfile]
  rfl

/-- A file that the walk has brought is a candidate that leads to a
file. -/
theorem Run.candidate_of_mem_files {turned pending : List (List String)} {y : Yield} {p : Path}
    (h : Run d settings root turned y pending) (hmem : p ∈ y.files) :
    Candidate d settings root p ∧ ∃ content, d.tree.find p = .ok (.file content) := by
  induction h with
  | start => cases hmem
  | @next turned rest y z below inner hrun hturn ih =>
      cases turn_cases hturn with
      | passBy => exact ih hmem
      | turnBack => exact ih hmem
      | @goInto listing real _ hmeet hgather =>
          rw [files_gather hgather, List.mem_append, List.mem_reverse, List.mem_map] at hmem
          rcases hmem with ⟨name, hname, rfl⟩ | hmem
          · obtain ⟨hname, hgathers⟩ := List.mem_filter.1 hname
            rw [Path.below_below, gathers, Bool.and_eq_true] at hgathers
            obtain ⟨hext, hfile⟩ := hgathers
            have hcandidate := candidate_of_mem_nonDirectories ⟨_, _, hrun⟩ hmeet hname hext
            rw [Path.below_below]
            refine ⟨hcandidate, (Disk.isFile_eq_true hcandidate.hasNul_eq_false).1 ?_⟩
            cases hisfile : d.isFile (root.below (below ++ [name])) with
            | error failure => simp [hisfile] at hfile
            | ok isFile => simpa [hisfile] using hfile
          · exact ih hmem

theorem mem_files_iff {last : Yield} {p : Path} (hwalk : walk d settings root {} [[]] = .ok last) :
    p ∈ last.files
      ↔ Candidate d settings root p ∧ ∃ content, d.tree.find p = .ok (.file content) := by
  constructor
  · intro hmem
    obtain ⟨turned, hrun⟩ := exists_run_of_walk hwalk
    exact hrun.candidate_of_mem_files hmem
  · rintro ⟨hcandidate, content, hfind⟩
    rcases hcandidate.examined hwalk (by rw [hfind]; nofun) with ⟨-, hmem⟩ | ⟨hno, -⟩
    · exact hmem
    · have hfile := (Disk.isFile_eq_true hcandidate.hasNul_eq_false).2 ⟨content, hfind⟩
      rw [hno] at hfile
      cases hfile

-- ============================================================= failures

theorem exists_fault_of_list {written : String} {p : Path} {failure : Failure}
    (hp : p.hasNul = false) (h : list d written p = .error failure) :
    ∃ fault, failure = .fault fault := by
  unfold list at h
  rw [hp] at h
  split at h
  · cases h
    exact ⟨_, rfl⟩
  · split at h
    · contradiction
    · split at h
      · cases h
        exact ⟨_, rfl⟩
      · split at h
        · cases h
          exact ⟨_, rfl⟩
        · split at h
          · cases h
          · cases h
            exact ⟨_, rfl⟩

theorem exists_meet {seen : List Path} {below : List String}
    (hnul : (root.below below).hasNul = false) :
    ∃ meeting, meet d root seen below = .ok meeting := by
  unfold meet
  cases hlist : list d (walkPath root below) (root.below below) with
  | error failure =>
      obtain ⟨fault, rfl⟩ := exists_fault_of_list hnul hlist
      exact ⟨_, rfl⟩
  | ok listing =>
      obtain ⟨real, hreal⟩ := exists_realPath (t := d.tree) hnul
      simp only [hreal]
      exact ⟨_, rfl⟩

/-- A turn fails only at a candidate that is not examined. -/
theorem TurnsTo.unexaminable_of_error {y : Yield} {below : List String} {failure : Failure}
    (h : TurnsTo d settings root y below) (hroot : root.hasNul = false)
    (hturn : turn d settings root y below = .error failure) :
    ∃ p, Unexaminable d settings root p
      ∧ failure = .fault (.ofObstacle .nameTooLong p.text) := by
  obtain ⟨turned, rest, hrun⟩ := h
  have hnul := hrun.hasNul_eq_false hroot below (List.mem_cons_self ..)
  -- meeting the directory succeeds, so only gathering is left to fail
  obtain ⟨meeting, hmeet⟩ : ∃ meeting, meet d root y.seen below = .ok meeting := exists_meet hnul
  unfold turn at hturn
  rw [hmeet] at hturn
  cases meeting with
  | unlistable fault => cases hturn
  | seenBefore => cases hturn
  | new listing real =>
      dsimp only at hturn
      split at hturn
      · rename_i hgather
        cases hturn
        obtain ⟨name, hname, hext, hfile⟩ := exists_of_gather_error hgather
        rw [Path.below_below] at hext hfile
        have hcandidate := candidate_of_mem_nonDirectories ⟨_, _, hrun⟩ hmeet hname hext
        obtain ⟨hlong, hfailure⟩ := (Disk.isFile_eq_error hcandidate.hasNul_eq_false).1 hfile
        exact ⟨_, ⟨hcandidate, hlong⟩, hfailure⟩
      · cases hturn

theorem unexaminable_of_walk_error {failure : Failure} (hroot : root.hasNul = false)
    (h : walk d settings root {} [[]] = .error failure) :
    ∃ p, Unexaminable d settings root p
      ∧ failure = .fault (.ofObstacle .nameTooLong p.text) := by
  obtain ⟨turned, y, pending, hrun, hend⟩ := (Run.start (d := d)).exists_end
  rcases hend with ⟨-, hwalk⟩ | ⟨below, rest, failure', rfl, hturn, hwalk⟩
  · rw [h] at hwalk
    cases hwalk
  · rw [h] at hwalk
    cases hwalk
    exact TurnsTo.unexaminable_of_error ⟨turned, rest, hrun⟩ hroot hturn

/-- A walk does not complete past a candidate that is not examined. -/
theorem not_unexaminable_of_walk {last : Yield} (h : walk d settings root {} [[]] = .ok last)
    (p : Path) : ¬Unexaminable d settings root p := by
  rintro ⟨hcandidate, hlong⟩
  have hfind := Disk.find_eq_nameTooLong.2 hlong
  have hfails := (Disk.isFile_eq_error hcandidate.hasNul_eq_false).2 ⟨hlong, rfl⟩
  rcases hcandidate.examined h (by rw [hfind]; nofun) with ⟨hfile, -⟩ | ⟨hfile, -⟩
  · rw [hfails] at hfile
    cases hfile
  · rw [hfails] at hfile
    cases hfile

end Discovery

-- =============================================================== audits

namespace Disk

open Discovery

variable {d : Disk} {settings : Settings} {subs : Subscriptions} {root : Path}

/-- What a file comes to: it is scanned unless reading it is refused. -/
theorem outcome_of_find {p : Path} {content : List UInt8} {o : Outcome} (hp : p.hasNul = false)
    (hfind : d.tree.find p = .ok (.file content)) :
    d.outcome p = .ok o
      ↔ (d.unreadable.lookup p.text = none
          ∧ o = .scanned (.ofLines p (Text.linesOfBytes content)))
        ∨ ∃ refusal, d.unreadable.lookup p.text = some refusal
          ∧ o = .unreadable ⟨p, ⟨refusal, p.text⟩⟩ := by
  unfold outcome report read
  rw [hp, hfind]
  cases hlookup : d.unreadable.lookup p.text <;> simp [eq_comm]

/-- The outcomes of the files that a walk has found. -/
theorem outcome_of_walk {last : Yield} {o : Outcome}
    (hwalk : walk d settings root {} [[]] = .ok last) :
    (∃ p ∈ last.files, d.outcome p = .ok o)
      ↔ ∃ p content, Candidate d settings root p ∧ d.tree.find p = .ok (.file content)
        ∧ ((d.unreadable.lookup p.text = none
            ∧ o = .scanned (.ofLines p (Text.linesOfBytes content)))
          ∨ ∃ refusal, d.unreadable.lookup p.text = some refusal
            ∧ o = .unreadable ⟨p, ⟨refusal, p.text⟩⟩) := by
  constructor
  · rintro ⟨p, hp, hout⟩
    obtain ⟨hcandidate, content, hfind⟩ := (mem_files_iff hwalk).1 hp
    exact ⟨p, content, hcandidate, hfind,
      (outcome_of_find hcandidate.hasNul_eq_false hfind).1 hout⟩
  · rintro ⟨p, content, hcandidate, hfind, hcase⟩
    exact ⟨p, (mem_files_iff hwalk).2 ⟨hcandidate, content, hfind⟩,
      (outcome_of_find hcandidate.hasNul_eq_false hfind).2 hcase⟩

theorem exists_outcomes {paths : List Path} (h : ∀ p ∈ paths, ∃ o, d.outcome p = .ok o) :
    ∃ outcomes, d.outcomesInTurn paths = .ok outcomes := by
  induction paths with
  | nil => exact ⟨[], rfl⟩
  | cons p rest ih =>
      obtain ⟨o, ho⟩ := h p (List.mem_cons_self ..)
      obtain ⟨more, hmore⟩ := ih fun q hq => h q (List.mem_cons_of_mem _ hq)
      exact ⟨o :: more, outcomesInTurn_eq_ok.2
        (.cons (outcome_eq_ok.1 ho) (outcomesInTurn_eq_ok.1 hmore))⟩

theorem root_of_isDirectory (h : d.tree.isDirectory root = true) :
    root.hasNul = false ∧ d.isFile root = .ok false := by
  obtain ⟨start, hlocate, hnode⟩ := exists_leads_of_isDirectory h
  have hnul := (leads_of_locate hlocate).hasNul_eq_false
  refine ⟨hnul, ?_⟩
  simp [isFile, find, hnul, hlocate, hnode]

theorem auditBelow_of_walk_error {failure : Failure} (hfile : d.isFile root = .ok false)
    (h : walk d settings root {} [[]] = .error failure) :
    d.auditBelow settings subs root = .error failure := by
  unfold auditBelow filesBelow
  rw [hfile, h]
  rfl

/-- Once the walk is through, nothing stops the audit. -/
theorem exists_audit_of_walk {last : Yield} (hfile : d.isFile root = .ok false)
    (h : walk d settings root {} [[]] = .ok last) :
    ∃ audit, d.auditBelow settings subs root = .ok audit := by
  have hscanned : ∀ p ∈ last.files.reverse, ∃ o, d.outcome p = .ok o := by
    intro p hp
    obtain ⟨hcandidate, content, hfind⟩ := (mem_files_iff h).1 (List.mem_reverse.1 hp)
    have hout := fun o => outcome_of_find (o := o) hcandidate.hasNul_eq_false hfind
    cases hlookup : d.unreadable.lookup p.text with
    | none => exact ⟨_, (hout _).2 (.inl ⟨hlookup, rfl⟩)⟩
    | some refusal => exact ⟨_, (hout _).2 (.inr ⟨refusal, hlookup, rfl⟩)⟩
  obtain ⟨outcomes, houtcomes⟩ := exists_outcomes hscanned
  exact ⟨_, auditBelow_eq_ok.2 ⟨_, outcomes, filesBelow_of_walk hfile h, houtcomes, rfl⟩⟩

/-- An audit that completes has what the walk has found. -/
theorem exists_walk_of_audit {audit : Audit} (hfile : d.isFile root = .ok false)
    (h : d.auditBelow settings subs root = .ok audit) :
    ∃ last, walk d settings root {} [[]] = .ok last
      ∧ (∀ report, report ∈ audit.reports ↔ ∃ p ∈ last.files, d.outcome p = .ok (.scanned report))
      ∧ (∀ u, u ∈ audit.unreadable ↔ ∃ p ∈ last.files, d.outcome p = .ok (.unreadable u))
      ∧ ∀ record ∈ last.records, .log record ∈ audit.events := by
  obtain ⟨found, outcomes, hfound, houtcomes, rfl⟩ := auditBelow_eq_ok.1 h
  rcases filesBelow_cases hfound with ⟨hroot, -⟩ | ⟨last, hwalk, rfl⟩
  · rw [hfile] at hroot
    cases hroot
  · have hmem : ∀ o, o ∈ outcomes ↔ ∃ p ∈ last.files, d.outcome p = .ok o := by
      intro o
      rw [mem_outcomes_iff houtcomes]
      simp
    refine ⟨last, hwalk, ?_, ?_, ?_⟩
    · intro report
      rw [← hmem]
      exact Outcome.mem_reports
    · intro u
      rw [← hmem]
      exact Outcome.mem_unreadable
    · intro record hrecord
      refine List.mem_append_left _ (List.mem_cons_of_mem _ (List.mem_append_left _ ?_))
      exact List.mem_map_of_mem (List.mem_reverse.2 hrecord)

/-- What an audit below a root owes to each entry, if it completes. -/
structure Continues (d : Disk) (settings : Settings) (root : Path) (audit : Audit) : Prop where
  /-- A directory that cannot be listed is logged. -/
  unlistable : ∀ y below fault, TurnsTo d settings root y below →
    list d (walkPath root below) (root.below below) = .error (.fault fault) →
    .log (cannotList fault) ∈ audit.events
  /-- The walk gets to all subdirectories of a directory that it goes
  into. -/
  onward : ∀ below dir name, GoesInto d settings root below dir →
    name ∈ Stop.enterable ⟨walkPath root below, root.below below, dir⟩ d settings
      (d.tree.namesIn dir) → ∃ y, TurnsTo d settings root y (below ++ [name])
  /-- A candidate that leads neither to a file nor to a directory is
  logged. -/
  skipped : ∀ p, Candidate d settings root p →
    (∀ content, d.tree.find p ≠ .ok (.file content)) → d.tree.find p ≠ .ok .directory →
    .log (notRegular p) ∈ audit.events
  /-- Those that lead to files are scanned, and nothing else is. -/
  reports : ∀ report, report ∈ audit.reports ↔ ∃ p content, Candidate d settings root p
    ∧ d.tree.find p = .ok (.file content) ∧ d.unreadable.lookup p.text = none
    ∧ report = .ofLines p (Text.linesOfBytes content)
  /-- Those that are refused are recorded, and nothing else is. -/
  unreadable : ∀ u, u ∈ audit.unreadable ↔ ∃ p content refusal, Candidate d settings root p
    ∧ d.tree.find p = .ok (.file content) ∧ d.unreadable.lookup p.text = some refusal
    ∧ u = ⟨p, ⟨refusal, p.text⟩⟩

theorem Continues.of_audit {audit : Audit} (hfile : d.isFile root = .ok false)
    (h : d.auditBelow settings subs root = .ok audit) : Continues d settings root audit := by
  obtain ⟨last, hwalk, hreports, hunreadable, hlogged⟩ := exists_walk_of_audit hfile h
  refine ⟨?_, ?_, ?_, ?_, ?_⟩
  · intro y below fault hturns hlist
    obtain ⟨z, inner, hturn, -, hrecords, -⟩ := hturns.exists_turn hwalk
    have hmeet : meet d root y.seen below = .ok (.unlistable fault) := by
      unfold meet
      rw [hlist]
    rw [turn, hmeet] at hturn
    cases hturn
    exact hlogged _ (hrecords _ (List.mem_cons_self ..))
  · intro below dir name hinto hname
    obtain ⟨y, z, -, -, -, honward⟩ := hinto.exists_gather hwalk
    exact honward name hname
  · intro p hcandidate hnofile hnodir
    rcases hcandidate.examined hwalk hnodir with ⟨hisfile, -⟩ | ⟨-, hrecord⟩
    · obtain ⟨content, hfind⟩ := (isFile_eq_true hcandidate.hasNul_eq_false).1 hisfile
      exact absurd hfind (hnofile content)
    · exact hlogged _ hrecord
  · intro report
    rw [hreports, outcome_of_walk hwalk]
    constructor
    · rintro ⟨p, content, hcandidate, hfind, ⟨hgranted, heq⟩ | ⟨refusal, -, heq⟩⟩
      · cases heq
        exact ⟨p, content, hcandidate, hfind, hgranted, rfl⟩
      · cases heq
    · rintro ⟨p, content, hcandidate, hfind, hgranted, rfl⟩
      exact ⟨p, content, hcandidate, hfind, .inl ⟨hgranted, rfl⟩⟩
  · intro u
    rw [hunreadable, outcome_of_walk hwalk]
    constructor
    · rintro ⟨p, content, hcandidate, hfind, ⟨-, heq⟩ | ⟨refusal, hrefused, heq⟩⟩
      · cases heq
      · cases heq
        exact ⟨p, content, refusal, hcandidate, hfind, hrefused, rfl⟩
    · rintro ⟨p, content, refusal, hcandidate, hfind, hrefused, rfl⟩
      exact ⟨p, content, hcandidate, hfind, .inr ⟨refusal, hrefused, rfl⟩⟩

/-- The audit below a directory completes exactly if the walk meets no
entry with the extension that is too long to be examined. It fails for no
other reason, and then with the path of such an entry. When it completes,
what cannot be listed or is no file was logged, what cannot be read was
recorded, and every other file was scanned. -/
theorem auditBelow_skips_and_continues (d : Disk) (settings : Settings) (subs : Subscriptions)
    (root : Path) (hroot : d.tree.isDirectory root = true) :
    ((∃ audit, d.auditBelow settings subs root = .ok audit)
        ↔ ∀ p, ¬Unexaminable d settings root p)
      ∧ (∀ failure, d.auditBelow settings subs root = .error failure →
        ∃ p, Unexaminable d settings root p
          ∧ failure = .fault (.ofObstacle .nameTooLong p.text))
      ∧ ∀ audit, d.auditBelow settings subs root = .ok audit →
        Continues d settings root audit := by
  obtain ⟨hnul, hfile⟩ := root_of_isDirectory hroot
  refine ⟨?_, ?_, fun audit haudit => .of_audit hfile haudit⟩
  · constructor
    · rintro ⟨audit, haudit⟩
      obtain ⟨last, hwalk, -⟩ := exists_walk_of_audit hfile haudit
      exact not_unexaminable_of_walk hwalk
    · intro hnone
      cases hwalk : walk d settings root {} [[]] with
      | error failure =>
          obtain ⟨p, hp, -⟩ := unexaminable_of_walk_error hnul hwalk
          exact absurd hp (hnone p)
      | ok last => exact exists_audit_of_walk hfile hwalk
  · intro failure hfails
    cases hwalk : walk d settings root {} [[]] with
    | error failure' =>
        rw [auditBelow_of_walk_error hfile hwalk] at hfails
        cases hfails
        exact unexaminable_of_walk_error hnul hwalk
    | ok last =>
        obtain ⟨audit, haudit⟩ : ∃ audit, d.auditBelow settings subs root = .ok audit :=
          exists_audit_of_walk hfile hwalk
        rw [hfails] at haudit
        cases haudit

/-- A directory with a file, a link to nothing, a link to itself, a pipe,
a file that cannot be read and a directory that cannot be listed. -/
def troubled : Disk where
  tree :=
    { here := ["w"]
      entries := [(["w"], .directory), (["w", "r"], .directory),
        (["w", "r", "A.java"], .file ("class A\n".toList.map (·.toNat.toUInt8))),
        (["w", "r", "B.java"], .link "missing"), (["w", "r", "C.java"], .link "C.java"),
        (["w", "r", "D.java"], .pipe), (["w", "r", "E.java"], .file []),
        (["w", "r", "f"], .directory)]
      proper := by decide }
  unreadable := [("r/E.java", .coded 13 "Permission denied")]
  unlistable := [("r/f", .coded 13 "Permission denied")]

/-- A name in the root of `troubled` with the extension is a
candidate. -/
theorem troubled_candidate {name : String} (hname : name ∈ troubled.tree.namesIn ["w", "r"])
    (hnode : troubled.tree.node? (["w", "r"] ++ [name]) ≠ some .directory)
    (hext : Path.hasExtension ⟨.here, ["r", name]⟩ ".java" = true) :
    Candidate troubled {} ⟨.here, ["r"]⟩ ⟨.here, ["r", name]⟩ := by
  obtain ⟨listing, real, hmeet, hplace⟩ : ∃ listing real,
      meet troubled ⟨.here, ["r"]⟩ [] [] = .ok (.new listing real) ∧ listing.place = ["w", "r"] :=
    ⟨_, _, rfl, rfl⟩
  exact ⟨[], ["w", "r"], name, ⟨{}, listing, real, ⟨[], [], .start⟩, hmeet, hplace⟩, hname, hnode,
    rfl, hext⟩

/-- All of this is survived: one file is scanned, one is recorded, and
the link to nothing is logged. -/
theorem troubled_continues :
    troubled.tree.isDirectory ⟨.here, ["r"]⟩ = true
      ∧ ∃ audit, troubled.auditBelow {} {} ⟨.here, ["r"]⟩ = .ok audit
        ∧ FileReport.ofLines ⟨.here, ["r", "A.java"]⟩
          (Text.linesOfBytes ("class A\n".toList.map (·.toNat.toUInt8))) ∈ audit.reports
        ∧ ⟨⟨.here, ["r", "E.java"]⟩, ⟨.coded 13 "Permission denied", "r/E.java"⟩⟩
          ∈ audit.unreadable
        ∧ .log (notRegular ⟨.here, ["r", "B.java"]⟩) ∈ audit.events
        ∧ ∀ p, ¬Unexaminable troubled {} ⟨.here, ["r"]⟩ p := by
  have hroot : troubled.tree.isDirectory ⟨.here, ["r"]⟩ = true := by decide
  refine ⟨hroot, ?_⟩
  obtain ⟨hiff, -, hcontinues⟩ := auditBelow_skips_and_continues troubled {} {} ⟨.here, ["r"]⟩ hroot
  have hwalks : (walk troubled {} ⟨.here, ["r"]⟩ {} [[]]).isOk = true := by decide +kernel
  obtain ⟨audit, haudit⟩ : ∃ audit, troubled.auditBelow {} {} ⟨.here, ["r"]⟩ = .ok audit := by
    cases hwalk : walk troubled {} ⟨.here, ["r"]⟩ {} [[]] with
    | error failure =>
        rw [hwalk] at hwalks
        cases hwalks
    | ok last => exact exists_audit_of_walk rfl hwalk
  have hall := hcontinues audit haudit
  refine ⟨audit, haudit, ?_, ?_, ?_, hiff.1 ⟨audit, haudit⟩⟩
  · exact (hall.reports _).2
      ⟨_, _, troubled_candidate (by decide) (by decide) (by decide), rfl, by decide, rfl⟩
  · exact (hall.unreadable _).2
      ⟨_, _, _, troubled_candidate (by decide) (by decide) (by decide), rfl, rfl, rfl⟩
  · exact hall.skipped _ (troubled_candidate (by decide) (by decide) (by decide)) nofun nofun

/-- A directory with a file and a link. -/
def linked (target : String) (h : '\x00' ∉ target.toList) : Disk where
  tree :=
    { here := ["w"]
      entries := [(["w"], .directory), (["w", "r"], .directory),
        (["w", "r", "A.java"], .file ("class A\n".toList.map (·.toNat.toUInt8))),
        (["w", "r", "B.java"], .link target)]
      proper := by
        have hnames : ["w", "r", "B.java"].all isEntryName = true := by decide
        simp only [List.forall_mem_cons]
        refine ⟨by decide, by decide, by decide, ?_, nofun⟩
        simp [isEntry, hnames, h] }

theorem splitFrom_of_no_slash {chars : List Char} (h : '/' ∉ chars) (current : List Char) :
    Path.splitFrom current chars = [current.reverse ++ chars] := by
  induction chars generalizing current with
  | nil => simp [Path.splitFrom]
  | cons c rest ih =>
      rw [List.mem_cons, not_or] at h
      rw [Path.splitFrom, if_neg (Ne.symm h.1), ih h.2]
      simp

theorem pieces_of_no_slash {text : String} (h : '/' ∉ text.toList) :
    Path.pieces text = [text] := by
  rw [Path.pieces, splitFrom_of_no_slash h]
  simp

/-- A link to one name that is too long cannot be followed. -/
theorem locate_linked {target : String} {h : '\x00' ∉ target.toList}
    (hslash : '/' ∉ target.toList) (hsize : maxNameBytes < target.utf8ByteSize) :
    (linked target h).tree.locate ⟨.here, ["r", "B.java"]⟩ = .error .nameTooLong := by
  have hstart : targetStart ["w", "r"] target = ["w", "r"] := by
    rw [targetStart, if_neg]
    intro hprefix
    obtain ⟨rest, hrest⟩ := List.isPrefixOf_iff_prefix.1 hprefix
    exact hslash (by simp [← hrest])
  have hsteps : Step.ofText target = [.into target] := by
    have hlong : ∀ text : String, text.utf8ByteSize ≤ 2 → target ≠ text := by
      rintro text hshort rfl
      rw [maxNameBytes] at hsize
      omega
    have hstep : Step.ofName target = .into target := by
      simp [Step.ofName, hlong "" (by decide), hlong "." (by decide), hlong ".." (by decide)]
    rw [Step.ofText, pieces_of_no_slash hslash, List.map_singleton, hstep]
  have hlink : (linked target h).tree.advance ["w"] [.into "r", .into "B.java"]
      = .linkAhead ["w", "r"] target [] := rfl
  have hstop : (linked target h).tree.advance ["w", "r"] [.into target]
      = .stopped .nameTooLong := by
    have hdir : (linked target h).tree.node? ["w", "r"] = some .directory := rfl
    simp [advance, hdir, hsize]
  show (linked target h).tree.locateFrom (39 + 1) ["w"] [.into "r", .into "B.java"] = _
  rw [locateFrom, hlink]
  dsimp only
  rw [hstart, hsteps, List.append_nil, locateFrom, hstop]

/-- A directory with a file and a link to a name of 256 bytes. -/
def overlong : Disk :=
  linked (String.ofList (List.replicate 256 'x')) (by rw [String.toList_ofList]; decide)

/-- The link ends the audit, and the file beside it is not scanned. -/
theorem overlong_link_ends_audit :
    overlong.tree.isDirectory ⟨.here, ["r"]⟩ = true
      ∧ overlong.isFile ⟨.here, ["r", "A.java"]⟩ = .ok true
      ∧ ∃ path, overlong.auditBelow {} {} ⟨.here, ["r"]⟩
        = .error (.fault (.ofObstacle .nameTooLong path)) := by
  have hroot : overlong.tree.isDirectory ⟨.here, ["r"]⟩ = true := rfl
  obtain ⟨hnul, hfile⟩ := root_of_isDirectory hroot
  refine ⟨hroot, rfl, ?_⟩
  have hlong : overlong.tree.locate ⟨.here, ["r", "B.java"]⟩ = .error .nameTooLong :=
    locate_linked (by rw [String.toList_ofList]; decide) (by decide +kernel)
  obtain ⟨listing, real, hmeet, hplace⟩ : ∃ listing real,
      meet overlong ⟨.here, ["r"]⟩ [] [] = .ok (.new listing real) ∧ listing.place = ["w", "r"] :=
    ⟨_, _, rfl, rfl⟩
  have hcandidate : Candidate overlong {} ⟨.here, ["r"]⟩ ⟨.here, ["r", "B.java"]⟩ :=
    ⟨[], ["w", "r"], "B.java", ⟨{}, listing, real, ⟨[], [], .start⟩, hmeet, hplace⟩, by decide,
      nofun, rfl, by decide⟩
  cases hwalk : walk overlong {} ⟨.here, ["r"]⟩ {} [[]] with
  | ok last => exact absurd ⟨hcandidate, hlong⟩ (not_unexaminable_of_walk hwalk _)
  | error failure =>
      obtain ⟨p, -, rfl⟩ := unexaminable_of_walk_error hnul hwalk
      exact ⟨p.text, auditBelow_of_walk_error hfile hwalk⟩

end Disk

end DocAudit
