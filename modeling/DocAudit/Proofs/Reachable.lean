/-
The search finds exactly what can be reached. The directories of a tree
are the nodes of a graph: one leads to another by an entry that is a
directory, links followed, if its name is not to be passed by and it is no
link where links are not followed. As long as nothing hinders it, the walk
goes into the directories that can be reached from the root's, each once,
and finds each file in them that has the extension under one path.

# What may hinder the walk

`Unhindered` says of one directory what has to go well when the walk turns
to it: it can be listed; no link on the way to it is too long to be looked
at; and if it is new, the system tells where those entries lead that are
looked at, that is links and names with the extension. A link that leads
nowhere or in circles hinders nothing.

# Why no subtree is lost

A directory met again is passed by, though it may be met under another
path than the first time. `Explored` says why that is right: a way out of a
directory gone into leads to another one gone into or to one on the stack.
Which ways lead out depends on the real directory alone, not on the path
by which it was reached, so the second visit has nothing to add.
-/
import DocAudit.Proofs.RealPaths
import DocAudit.Proofs.Walk
import Mathlib.Logic.Relation

namespace DocAudit

open FileTree

theorem Step.ofName_of_isEntryName {name : String} (h : isEntryName name = true) :
    Step.ofName name = .into name := by
  simp only [isEntryName, Bool.and_eq_true, bne_iff_ne] at h
  obtain ⟨⟨⟨⟨hempty, hdot⟩, hdots⟩, -⟩, -⟩ := h
  simp [Step.ofName, hempty, hdot, hdots]

namespace Discovery

-- ================================================================ graph

/-- One directory leads to another by an entry of a name. -/
def EdgeBy (t : FileTree) (settings : Settings) (dir : Place) (name : String) (next : Place) :
    Prop :=
  name ∈ t.namesIn dir ∧ t.LeadsTo dir [.into name] next ∧ t.node? next = some .directory
    ∧ name ∉ settings.skipDirs
    ∧ (settings.followLinks = true ∨ t.isLinkAt (dir ++ [name]) = false)

/-- One directory leads to another. -/
def Edge (t : FileTree) (settings : Settings) (dir next : Place) : Prop :=
  ∃ name, EdgeBy t settings dir name next

/-- One directory can be reached from another. -/
def Reachable (t : FileTree) (settings : Settings) (start dir : Place) : Prop :=
  Relation.ReflTransGen (Edge t settings) start dir

/-- An entry of a directory is looked for: its name has the extension,
case aside, and it is a file, links followed. -/
def Wanted (t : FileTree) (settings : Settings) (dir : Place) (name : String) : Prop :=
  name ∈ t.namesIn dir
    ∧ (Text.lowerCase settings.extension.toList).isSuffixOf (Text.lowerCase name.toList) = true
    ∧ ∃ place content, t.LeadsTo dir [.into name] place ∧ t.node? place = some (.file content)

/-- A path below the root names an entry of a directory. -/
def NamesEntry (t : FileTree) (root p : Path) (dir : Place) (name : String) : Prop :=
  ∃ below, p = root.below (below ++ [name]) ∧ t.Leads (root.below below) dir

/-- Nothing hinders the walk at a directory, when `seen` was gone into. -/
structure Unhindered (d : Disk) (settings : Settings) (root : Path) (seen : List Path)
    (below : List String) : Prop where
  listed : ∃ listing, list d (walkPath root below) (root.below below) = .ok listing
  told : d.tree.Tellable (root.below below)
  /-- The system tells where a link in a new directory leads. -/
  links : ∀ dir name, d.tree.Leads (root.below below) dir → ⟨.top, dir⟩ ∉ seen →
    name ∈ d.tree.namesIn dir → d.tree.isLinkAt (dir ++ [name]) = true →
    isTooLong (joinName (walkPath root below) name) = false
      ∧ d.tree.Answered (root.below (below ++ [name]))
  /-- The system tells what a name with the extension in a new directory
  leads to. -/
  files : ∀ dir name, d.tree.Leads (root.below below) dir → ⟨.top, dir⟩ ∉ seen →
    name ∈ d.tree.namesIn dir → d.tree.node? (dir ++ [name]) ≠ some .directory →
    (root.below (below ++ [name])).hasExtension settings.extension = true →
    d.tree.Answered (root.below (below ++ [name]))

section Directory

variable {d : Disk} {settings : Settings} {root : Path} {seen : List Path}
  {below : List String} {dir : Place} {name : String}

/-- An entry leads on from the directory it lies in. -/
theorem leads_append_iff {q : Place} (hdir : d.tree.Leads (root.below below) dir)
    (hname : isEntryName name = true) :
    d.tree.Leads (root.below (below ++ [name])) q ↔ d.tree.LeadsTo dir [.into name] q := by
  have hstart : d.tree.startOf (root.below (below ++ [name])) = d.tree.startOf (root.below below) :=
    rfl
  have hsteps : (root.below (below ++ [name])).steps
      = (root.below below).steps ++ [.into name] := by
    rw [← Step.ofName_of_isEntryName hname]
    simp [Path.steps, Path.below]
  unfold Leads at hdir ⊢
  rw [hstart, hsteps]
  constructor
  · intro hlead
    exact hlead.rest_of_append hdir
  · intro hlead
    exact hdir.append hlead

theorem NamesEntry.unique {p : Path} {dir' : Place} {name' : String}
    (h : NamesEntry d.tree root p dir name) (h' : NamesEntry d.tree root p dir' name') :
    dir = dir' ∧ name = name' := by
  obtain ⟨below, rfl, hdir⟩ := h
  obtain ⟨below', hp, hdir'⟩ := h'
  obtain ⟨rfl, hname⟩ := List.append_inj' (Path.below_inj.1 hp) rfl
  exact ⟨hdir.unique hdir', List.singleton_inj.1 hname⟩

theorem hasExtension_below (root : Path) (below : List String) (name extension : String) :
    (root.below (below ++ [name])).hasExtension extension
      = (Text.lowerCase extension.toList).isSuffixOf (Text.lowerCase name.toList) := by
  simp [Path.hasExtension, Path.name, Path.below]

/-- Where nothing hinders the walk it arrives at a directory, whose place
is its real path. -/
theorem Unhindered.arrives (h : Unhindered d settings root seen below) :
    ∃ listing : Listing d.tree, list d (walkPath root below) (root.below below) = .ok listing
      ∧ d.tree.Leads (root.below below) listing.place
      ∧ listing.names = d.tree.namesIn listing.place
      ∧ (root.below below).hasNul = false
      ∧ d.tree.realPath (root.below below) = .ok ⟨.top, listing.place⟩ := by
  obtain ⟨listing, hlist⟩ := h.listed
  obtain ⟨-, hnul, -, hlocate, hnames⟩ := list_eq_ok hlist
  have hlead := leads_of_locate hlocate
  exact ⟨listing, hlist, hlead, hnames, hnul, h.told.realPath_eq hlead hnul⟩

theorem Unhindered.isDirectory_iff (h : Unhindered d settings root seen below)
    (hlead : d.tree.Leads (root.below below) dir) (hnew : ⟨.top, dir⟩ ∉ seen)
    (hdir : d.tree.node? dir = some .directory)
    (hname : name ∈ d.tree.namesIn dir) :
    Stop.isDirectory ⟨walkPath root below, root.below below, dir⟩ d name = true
      ↔ ∃ next, d.tree.LeadsTo dir [.into name] next ∧ d.tree.node? next = some .directory := by
  have hentry := isEntryName_of_mem_namesIn hname
  -- an entry that is no link leads to itself
  have hplain : d.tree.isLinkAt (dir ++ [name]) = false → ∀ next,
      d.tree.LeadsTo dir [.into name] next → next = dir ++ [name] := by
    intro hno next hnext
    cases hnext with
    | into _ _ _ hdone =>
        cases hdone
        rfl
    | follow _ hlink _ =>
        rw [isLinkAt_of_link hlink] at hno
        cases hno
  unfold Stop.isDirectory
  split
  · rename_i hnode
    have hno : d.tree.isLinkAt (dir ++ [name]) = false := by simp [isLinkAt, hnode]
    exact ⟨fun _ => ⟨_, .into hdir hnode hno .done, hnode⟩, fun _ => rfl⟩
  · rename_i target hlink
    obtain ⟨hshort, hanswered⟩ := h.links dir name hlead hnew hname (isLinkAt_of_link hlink)
    have hpath : (root.below below).below [name] = root.below (below ++ [name]) :=
      Path.below_below ..
    simp only [hshort, Bool.not_false, Bool.true_and, hpath]
    rw [hanswered.isDirectory_iff]
    constructor
    · rintro ⟨next, hnext, hnode⟩
      exact ⟨next, (leads_append_iff hlead hentry).1 hnext, hnode⟩
    · rintro ⟨next, hnext, hnode⟩
      exact ⟨next, (leads_append_iff hlead hentry).2 hnext, hnode⟩
  · rename_i hnode hlink
    have hno : d.tree.isLinkAt (dir ++ [name]) = false := by
      cases hcase : d.tree.isLinkAt (dir ++ [name]) with
      | false => rfl
      | true =>
          obtain ⟨target, htarget⟩ := exists_target_of_isLinkAt hcase
          exact absurd htarget (hlink target)
    constructor
    · nofun
    · rintro ⟨next, hnext, hdirectory⟩
      rw [hplain hno next hnext] at hdirectory
      exact absurd hdirectory hnode

theorem Unhindered.mem_enterable_iff (h : Unhindered d settings root seen below)
    (hlead : d.tree.Leads (root.below below) dir) (hnew : ⟨.top, dir⟩ ∉ seen)
    (hdir : d.tree.node? dir = some .directory) :
    name ∈ Stop.enterable ⟨walkPath root below, root.below below, dir⟩ d settings
        (d.tree.namesIn dir)
      ↔ ∃ next, EdgeBy d.tree settings dir name next := by
  unfold Stop.enterable
  rw [List.mem_filter]
  constructor
  · rintro ⟨hname, htest⟩
    simp only [Bool.and_eq_true, Bool.or_eq_true, Bool.not_eq_true', List.contains_eq_mem,
      decide_eq_false_iff_not] at htest
    obtain ⟨⟨hisdir, hskip⟩, hlinks⟩ := htest
    obtain ⟨next, hnext, hnode⟩ := (h.isDirectory_iff hlead hnew hdir hname).1 hisdir
    exact ⟨next, hname, hnext, hnode, hskip, hlinks⟩
  · rintro ⟨next, hname, hnext, hnode, hskip, hlinks⟩
    have hisdir := (h.isDirectory_iff hlead hnew hdir hname).2 ⟨next, hnext, hnode⟩
    refine ⟨hname, ?_⟩
    simp only [Bool.and_eq_true, Bool.or_eq_true, Bool.not_eq_true', List.contains_eq_mem,
      decide_eq_false_iff_not]
    exact ⟨⟨hisdir, hskip⟩, hlinks⟩

theorem Unhindered.exists_isFile (h : Unhindered d settings root seen below)
    (hlead : d.tree.Leads (root.below below) dir) (hnew : ⟨.top, dir⟩ ∉ seen)
    (hnul : (root.below below).hasNul = false)
    (hname : name ∈ d.tree.namesIn dir)
    (hno : Stop.isDirectory ⟨walkPath root below, root.below below, dir⟩ d name = false)
    (hext : (root.below (below ++ [name])).hasExtension settings.extension = true) :
    ∃ isFile, d.isFile (root.below (below ++ [name])) = .ok isFile
      ∧ (isFile = true ↔ ∃ place content, d.tree.LeadsTo dir [.into name] place
        ∧ d.tree.node? place = some (.file content)) := by
  have hentry := isEntryName_of_mem_namesIn hname
  have hnode : d.tree.node? (dir ++ [name]) ≠ some .directory := by
    intro hnode
    simp [Stop.isDirectory, hnode] at hno
  have hnul' : (root.below (below ++ [name])).hasNul = false := by
    rw [← Path.below_below]
    refine Path.hasNul_below hnul ?_
    simp only [isEntryName, Bool.and_eq_true] at hentry
    simpa using hentry.2
  obtain ⟨isFile, hfile, hiff⟩ := (h.files dir name hlead hnew hname hnode hext).exists_isFile hnul'
  refine ⟨isFile, hfile, hiff.trans ?_⟩
  constructor
  · rintro ⟨place, content, hplace, hcontent⟩
    exact ⟨place, content, (leads_append_iff hlead hentry).1 hplace, hcontent⟩
  · rintro ⟨place, content, hplace, hcontent⟩
    exact ⟨place, content, (leads_append_iff hlead hentry).2 hplace, hcontent⟩

/-- The walk gathers the names that are looked for. -/
theorem Unhindered.mem_gathered_iff (h : Unhindered d settings root seen below)
    (hlead : d.tree.Leads (root.below below) dir) (hnew : ⟨.top, dir⟩ ∉ seen)
    (hdir : d.tree.node? dir = some .directory)
    (hnul : (root.below below).hasNul = false) :
    name ∈ (Stop.nonDirectories ⟨walkPath root below, root.below below, dir⟩ d
        (d.tree.namesIn dir)).filter
        (fun name => gathers d settings.extension ((root.below below).below [name]))
      ↔ Wanted d.tree settings dir name := by
  unfold Stop.nonDirectories
  rw [List.mem_filter, List.mem_filter, Bool.not_eq_true']
  have hpath : (root.below below).below [name] = root.below (below ++ [name]) :=
    Path.below_below ..
  constructor
  · rintro ⟨⟨hname, hno⟩, hgathers⟩
    rw [hpath, gathers, Bool.and_eq_true] at hgathers
    obtain ⟨hext, hfile⟩ := hgathers
    obtain ⟨isFile, hisfile, hiff⟩ := h.exists_isFile hlead hnew hnul hname hno hext
    rw [hisfile] at hfile
    rw [hasExtension_below] at hext
    exact ⟨hname, hext, hiff.1 hfile⟩
  · rintro ⟨hname, hext, place, content, hplace, hcontent⟩
    -- what leads to a file does not lead to a directory
    have hno : Stop.isDirectory ⟨walkPath root below, root.below below, dir⟩ d name = false := by
      rw [Bool.eq_false_iff]
      intro hisdir
      obtain ⟨next, hnext, hnode⟩ := (h.isDirectory_iff hlead hnew hdir hname).1 hisdir
      rw [hnext.unique hplace, hcontent] at hnode
      cases hnode
    rw [← hasExtension_below root below] at hext
    obtain ⟨isFile, hisfile, hiff⟩ := h.exists_isFile hlead hnew hnul hname hno hext
    refine ⟨⟨hname, hno⟩, ?_⟩
    rw [hpath, gathers, hext, hisfile, Bool.true_and]
    exact hiff.2 ⟨place, content, hplace, hcontent⟩

/-- What a turn does where nothing hinders it: it passes a directory by
that was seen, or gathers what is looked for and leaves the ways out. -/
theorem Unhindered.turn_eq {y : Yield} (h : Unhindered d settings root y.seen below) :
    ∃ dir, d.tree.Leads (root.below below) dir ∧ d.tree.node? dir = some .directory
      ∧ ((⟨.top, dir⟩ ∈ y.seen ∧ ∃ z, turn d settings root y below = .ok (z, [])
          ∧ z.seen = y.seen ∧ z.files = y.files)
        ∨ (⟨.top, dir⟩ ∉ y.seen ∧ ∃ z inner, turn d settings root y below = .ok (z, inner)
          ∧ z.seen = ⟨.top, dir⟩ :: y.seen
          ∧ (∀ p, p ∈ z.files ↔ (∃ name, Wanted d.tree settings dir name
              ∧ p = root.below (below ++ [name])) ∨ p ∈ y.files)
          ∧ ∀ name, name ∈ inner ↔ ∃ next, EdgeBy d.tree settings dir name next)) := by
  obtain ⟨listing, hlist, hlead, hnames, hnul, hreal⟩ := h.arrives
  have hdir := listing.isDirectory
  refine ⟨listing.place, hlead, hdir, ?_⟩
  by_cases hseen : (⟨.top, listing.place⟩ : Path) ∈ y.seen
  · have hmeet : meet d root y.seen below = .ok .seenBefore := by simp [meet, hlist, hreal, hseen]
    refine .inl ⟨hseen,
      y.log .debug ("skipping already visited directory " ++ walkPath root below), ?_, rfl, rfl⟩
    simp [turn, hmeet]
  · have hmeet : meet d root y.seen below = .ok (.new listing ⟨.top, listing.place⟩) := by
      simp [meet, hlist, hreal, hseen]
    have hgather : ∃ z, gather d settings.extension (root.below below)
        (y.enter ⟨.top, listing.place⟩)
        (Stop.nonDirectories ⟨walkPath root below, root.below below, listing.place⟩ d
          (d.tree.namesIn listing.place)) = .ok z := by
      refine exists_gather _ fun name hname hext => ?_
      rw [Path.below_below] at hext ⊢
      obtain ⟨hname, hno⟩ := List.mem_filter.1 hname
      obtain ⟨isFile, hfile, -⟩ :=
        h.exists_isFile hlead hseen hnul hname (by simpa using hno) hext
      exact ⟨isFile, hfile⟩
    obtain ⟨z, hgather⟩ := hgather
    refine .inr ⟨hseen, z, _, ?_, seen_gather hgather, ?_, fun name =>
      h.mem_enterable_iff hlead hseen hdir⟩
    · simp [turn, hmeet, hnames, hgather]
    · intro p
      rw [files_gather hgather, List.mem_append, List.mem_reverse, List.mem_map]
      refine or_congr ?_ Iff.rfl
      constructor
      · rintro ⟨name, hname, rfl⟩
        exact ⟨name, (h.mem_gathered_iff hlead hseen hdir hnul).1 hname, Path.below_below ..⟩
      · rintro ⟨name, hwanted, rfl⟩
        exact ⟨name, (h.mem_gathered_iff hlead hseen hdir hnul).2 hwanted, Path.below_below ..⟩

end Directory

-- =============================================================== explored

/-- What holds between turns of a walk that nothing hinders. -/
structure Explored (t : FileTree) (settings : Settings) (root : Path) (start : Place) (y : Yield)
    (pending : List (List String)) : Prop where
  /-- What was gone into can be reached. -/
  seen_reachable : ∀ real ∈ y.seen, ∃ dir, real = ⟨.top, dir⟩ ∧ Reachable t settings start dir
  /-- What is still to go into can be reached. -/
  pending_reachable : ∀ below ∈ pending, ∃ dir, t.Leads (root.below below) dir
    ∧ Reachable t settings start dir
  /-- The root's directory is not forgotten. -/
  started : ⟨.top, start⟩ ∈ y.seen ∨ ∃ below ∈ pending, t.Leads (root.below below) start
  /-- No way out of what was gone into is forgotten. -/
  closed : ∀ dir next, ⟨.top, dir⟩ ∈ y.seen → Edge t settings dir next →
    ⟨.top, next⟩ ∈ y.seen ∨ ∃ below ∈ pending, t.Leads (root.below below) next
  /-- Every file found is looked for. -/
  sound : ∀ p ∈ y.files, ∃ dir name, ⟨.top, dir⟩ ∈ y.seen ∧ Wanted t settings dir name
    ∧ NamesEntry t root p dir name
  /-- Every file looked for is found. -/
  complete : ∀ dir name, ⟨.top, dir⟩ ∈ y.seen → Wanted t settings dir name →
    ∃ p ∈ y.files, NamesEntry t root p dir name
  /-- No file is found under two paths. -/
  single : ∀ p ∈ y.files, ∀ p' ∈ y.files, ∀ dir name, NamesEntry t root p dir name →
    NamesEntry t root p' dir name → p = p'

namespace Explored

variable {d : Disk} {settings : Settings} {root : Path} {start : Place} {y z : Yield}
  {below inner : List String} {rest : List (List String)} {dir : Place}

theorem init (h : d.tree.Leads root start) : Explored d.tree settings root start {} [[]] := by
  have hlead : d.tree.Leads (root.below []) start := by rwa [Path.below_nil]
  refine ⟨nofun, ?_, .inr ⟨[], List.mem_singleton.2 rfl, hlead⟩, nofun, nofun, nofun, nofun⟩
  intro below hmem
  rw [List.mem_singleton.1 hmem]
  exact ⟨start, hlead, .refl⟩

/-- A directory that was gone into or is on the stack is not forgotten
when the walk has gone into the next one on the stack. -/
theorem kept {pending : List (List String)} {next : Place}
    (hlead : d.tree.Leads (root.below below) dir) (hdir : ⟨.top, dir⟩ ∈ z.seen)
    (hold : ∀ real ∈ y.seen, real ∈ z.seen) (hrest : ∀ b ∈ rest, b ∈ pending)
    (h : ⟨.top, next⟩ ∈ y.seen ∨ ∃ b ∈ below :: rest, d.tree.Leads (root.below b) next) :
    ⟨.top, next⟩ ∈ z.seen ∨ ∃ b ∈ pending, d.tree.Leads (root.below b) next := by
  rcases h with hseen | ⟨b, hb, hnext⟩
  · exact .inl (hold _ hseen)
  · rcases List.mem_cons.1 hb with rfl | hb
    · rw [hnext.unique hlead]
      exact .inl hdir
    · exact .inr ⟨b, hrest b hb, hnext⟩

/-- A directory seen before may leave the stack. -/
theorem turnBack (h : Explored d.tree settings root start y (below :: rest))
    (hlead : d.tree.Leads (root.below below) dir) (hseen : ⟨.top, dir⟩ ∈ y.seen)
    (hz : z.seen = y.seen) (hfiles : z.files = y.files) :
    Explored d.tree settings root start z rest := by
  have hold : ∀ real ∈ y.seen, real ∈ z.seen := fun real hreal => by rwa [hz]
  have hdir : ⟨.top, dir⟩ ∈ z.seen := hold _ hseen
  refine ⟨?_, ?_, ?_, ?_, ?_, ?_, ?_⟩
  · rw [hz]
    exact h.seen_reachable
  · exact fun b hb => h.pending_reachable b (List.mem_cons_of_mem _ hb)
  · exact kept hlead hdir hold (fun _ hb => hb) h.started
  · intro place next hplace hedge
    rw [hz] at hplace
    exact kept hlead hdir hold (fun _ hb => hb) (h.closed place next hplace hedge)
  · rw [hz, hfiles]
    exact h.sound
  · rw [hz, hfiles]
    exact h.complete
  · rw [hfiles]
    exact h.single

theorem reachable (h : Explored d.tree settings root start y (below :: rest))
    (hlead : d.tree.Leads (root.below below) dir) : Reachable d.tree settings start dir := by
  obtain ⟨dir', hlead', hreach⟩ := h.pending_reachable below (List.mem_cons_self ..)
  rwa [hlead.unique hlead']

/-- A new directory brings its files and puts its ways out on the stack. -/
theorem goInto (h : Explored d.tree settings root start y (below :: rest))
    (hlead : d.tree.Leads (root.below below) dir) (hnew : ⟨.top, dir⟩ ∉ y.seen)
    (hz : z.seen = ⟨.top, dir⟩ :: y.seen)
    (hfiles : ∀ p, p ∈ z.files ↔ (∃ name, Wanted d.tree settings dir name
      ∧ p = root.below (below ++ [name])) ∨ p ∈ y.files)
    (hinner : ∀ name, name ∈ inner ↔ ∃ next, EdgeBy d.tree settings dir name next) :
    Explored d.tree settings root start z ((inner.map fun n => below ++ [n]) ++ rest) := by
  have hdir : (⟨.top, dir⟩ : Path) ∈ z.seen := by
    rw [hz]
    exact List.mem_cons_self ..
  have hold : ∀ real ∈ y.seen, real ∈ z.seen := by
    intro real hreal
    rw [hz]
    exact List.mem_cons_of_mem _ hreal
  have hcases : ∀ place, ⟨.top, place⟩ ∈ z.seen → place = dir ∨ ⟨.top, place⟩ ∈ y.seen := by
    intro place hplace
    rw [hz, List.mem_cons] at hplace
    refine hplace.imp_left fun heq => ?_
    cases heq
    rfl
  -- an edge out of the new directory is on the stack
  have hedges : ∀ name next, EdgeBy d.tree settings dir name next →
      below ++ [name] ∈ (inner.map fun n => below ++ [n]) ++ rest
        ∧ d.tree.Leads (root.below (below ++ [name])) next := by
    intro name next hedge
    have hmem := (hinner name).2 ⟨next, hedge⟩
    refine ⟨List.mem_append_left _ (List.mem_map.2 ⟨name, hmem, rfl⟩), ?_⟩
    exact (leads_append_iff hlead (isEntryName_of_mem_namesIn hedge.1)).2 hedge.2.1
  have hrest : ∀ b ∈ rest, b ∈ (inner.map fun n => below ++ [n]) ++ rest :=
    fun _ hb => List.mem_append_right _ hb
  have hnames : ∀ name, NamesEntry d.tree root (root.below (below ++ [name])) dir name :=
    fun name => ⟨below, rfl, hlead⟩
  -- a path that names an entry of the new directory was not found before
  have hfresh : ∀ p ∈ y.files, ∀ name, ¬NamesEntry d.tree root p dir name := by
    intro p hp name hname
    obtain ⟨dir', name', hseen, -, hname'⟩ := h.sound p hp
    rw [(hname.unique hname').1] at hnew
    exact hnew hseen
  refine ⟨?_, ?_, kept hlead hdir hold hrest h.started, ?_, ?_, ?_, ?_⟩
  · intro real hreal
    rw [hz, List.mem_cons] at hreal
    rcases hreal with rfl | hreal
    · exact ⟨dir, rfl, h.reachable hlead⟩
    · exact h.seen_reachable real hreal
  · intro b hb
    rcases List.mem_append.1 hb with hb | hb
    · obtain ⟨name, hname, rfl⟩ := List.mem_map.1 hb
      obtain ⟨next, hedge⟩ := (hinner name).1 hname
      exact ⟨next, (hedges name next hedge).2, (h.reachable hlead).tail ⟨name, hedge⟩⟩
    · exact h.pending_reachable b (List.mem_cons_of_mem _ hb)
  · intro place next hplace hedge
    rcases hcases place hplace with rfl | hplace
    · obtain ⟨name, hedge⟩ := hedge
      exact .inr ⟨_, hedges name next hedge⟩
    · exact kept hlead hdir hold hrest (h.closed place next hplace hedge)
  · intro p hp
    rcases (hfiles p).1 hp with ⟨name, hwanted, rfl⟩ | hp
    · exact ⟨dir, name, hdir, hwanted, hnames name⟩
    · obtain ⟨dir', name, hseen, hwanted, hname⟩ := h.sound p hp
      exact ⟨dir', name, hold _ hseen, hwanted, hname⟩
  · intro place name hplace hwanted
    rcases hcases place hplace with rfl | hplace
    · exact ⟨_, (hfiles _).2 (.inl ⟨name, hwanted, rfl⟩), hnames name⟩
    · obtain ⟨p, hp, hname⟩ := h.complete place name hplace hwanted
      exact ⟨p, (hfiles p).2 (.inr hp), hname⟩
  · intro p hp p' hp' place name hname hname'
    rcases (hfiles p).1 hp with ⟨n, -, rfl⟩ | hp
    · rcases (hfiles p').1 hp' with ⟨n', -, rfl⟩ | hp'
      · obtain ⟨-, rfl⟩ := hname.unique (hnames n)
        obtain ⟨-, rfl⟩ := hname'.unique (hnames n')
        rfl
      · obtain ⟨rfl, -⟩ := hname.unique (hnames n)
        exact absurd hname' (hfresh p' hp' name)
    · rcases (hfiles p').1 hp' with ⟨n', -, rfl⟩ | hp'
      · obtain ⟨rfl, -⟩ := hname'.unique (hnames n')
        exact absurd hname (hfresh p hp name)
      · exact h.single p hp p' hp' place name hname hname'

/-- Where nothing is left to go into, everything that can be reached has
been gone into. -/
theorem mem_seen_iff (h : Explored d.tree settings root start y []) :
    ⟨.top, dir⟩ ∈ y.seen ↔ Reachable d.tree settings start dir := by
  constructor
  · intro hmem
    obtain ⟨dir', heq, hreach⟩ := h.seen_reachable _ hmem
    cases heq
    exact hreach
  · intro hreach
    induction hreach with
    | refl =>
        rcases h.started with hmem | ⟨_, hmem, -⟩
        · exact hmem
        · cases hmem
    | tail _ hedge ih =>
        rcases h.closed _ _ ih hedge with hmem | ⟨_, hmem, -⟩
        · exact hmem
        · cases hmem

end Explored

-- ================================================================= runs

section Run

variable {d : Disk} {settings : Settings} {root : Path} {start : Place}

/-- Nothing hinders the walk at any directory that it turns to. -/
def Undisturbed (d : Disk) (settings : Settings) (root : Path) : Prop :=
  ∀ turned y below rest, Run d settings root turned y (below :: rest) →
    Unhindered d settings root y.seen below

theorem Run.explored {turned pending : List (List String)} {y : Yield}
    (h : Run d settings root turned y pending) (hfree : Undisturbed d settings root)
    (hroot : d.tree.Leads root start) : Explored d.tree settings root start y pending := by
  induction h with
  | start => exact .init hroot
  | next hrun hturn ih =>
      obtain ⟨dir, hlead, -, hcase⟩ := (hfree _ _ _ _ hrun).turn_eq
      rcases hcase with ⟨hseen, z, hturn', hz, hfiles⟩
        | ⟨hnew, z, inner, hturn', hz, hfiles, hinner⟩
      · rw [hturn] at hturn'
        cases hturn'
        exact ih.turnBack hlead hseen hz hfiles
      · rw [hturn] at hturn'
        cases hturn'
        exact ih.goInto hlead hnew hz hfiles hinner

/-- A walk that nothing hinders goes on until nothing is left. -/
theorem Undisturbed.exists_run (hfree : Undisturbed d settings root) :
    ∃ turned y, Run d settings root turned y [] ∧ walk d settings root {} [[]] = .ok y := by
  obtain ⟨turned, y, pending, hrun, hend⟩ := (Run.start (d := d)).exists_end
  rcases hend with ⟨rfl, hwalk⟩ | ⟨below, rest, failure, rfl, hturn, -⟩
  · exact ⟨turned, y, hrun, hwalk⟩
  · obtain ⟨_, -, -, ⟨-, z, hturn', -, -⟩ | ⟨-, z, inner, hturn', -, -, -⟩⟩ :=
      (hfree _ _ _ _ hrun).turn_eq
    · rw [hturn] at hturn'
      cases hturn'
    · rw [hturn] at hturn'
      cases hturn'

theorem Undisturbed.isFile_root (hfree : Undisturbed d settings root) :
    d.isFile root = .ok false := by
  obtain ⟨listing, hlist⟩ := (hfree _ _ _ _ .start).listed
  obtain ⟨-, hnul, -, hlocate, -⟩ := list_eq_ok hlist
  rw [Path.below_nil] at hnul hlocate
  simp [Disk.isFile, find, hnul, hlocate, listing.isDirectory]

end Run

-- =============================================================== results

/-- A search that nothing hinders finds exactly what can be reached: it
goes into the directories that can be reached from the root's, each once,
and the paths it finds name the files looked for in them, each under one
path, and nothing else. -/
theorem filesBelow_exact (d : Disk) (settings : Settings) (root : Path) (start : Place)
    (hroot : d.tree.Leads root start) (hfree : Undisturbed d settings root) :
    ∃ found, filesBelow d settings root = .ok found
      ∧ found.directories.Nodup
      ∧ (∀ real, real ∈ found.directories
        ↔ ∃ dir, real = ⟨.top, dir⟩ ∧ Reachable d.tree settings start dir)
      ∧ found.files.Nodup
      ∧ (∀ dir name, Reachable d.tree settings start dir → Wanted d.tree settings dir name →
        ∃! p, p ∈ found.files ∧ NamesEntry d.tree root p dir name)
      ∧ ∀ p ∈ found.files, ∃ dir name, Reachable d.tree settings start dir
        ∧ Wanted d.tree settings dir name ∧ NamesEntry d.tree root p dir name := by
  obtain ⟨turned, y, hrun, hwalk⟩ := hfree.exists_run
  have hexplored := hrun.explored hfree hroot
  refine ⟨_, filesBelow_of_walk hfree.isFile_root hwalk, ?_, ?_, ?_, ?_, ?_⟩
  · exact (List.reverse_perm _).nodup_iff.2 hrun.nodup_seen
  · intro real
    rw [List.mem_reverse]
    constructor
    · exact hexplored.seen_reachable real
    · rintro ⟨dir, rfl, hreach⟩
      exact hexplored.mem_seen_iff.2 hreach
  · exact (List.reverse_perm _).nodup_iff.2 hrun.nodup_files
  · intro dir name hreach hwanted
    have hseen := hexplored.mem_seen_iff.2 hreach
    obtain ⟨p, hp, hname⟩ := hexplored.complete dir name hseen hwanted
    refine ⟨p, ⟨List.mem_reverse.2 hp, hname⟩, ?_⟩
    rintro p' ⟨hp', hname'⟩
    exact hexplored.single p' (List.mem_reverse.1 hp') p hp dir name hname' hname
  · intro p hp
    obtain ⟨dir, name, hseen, hwanted, hname⟩ := hexplored.sound p (List.mem_reverse.1 hp)
    exact ⟨dir, name, hexplored.mem_seen_iff.1 hseen, hwanted, hname⟩

/-- Where every entry leads to something, nothing hinders the walk. -/
theorem Unhindered.of_list {d : Disk} {settings : Settings} {root : Path} {seen : List Path}
    {below : List String} {listing : Listing d.tree}
    (hlist : list d (walkPath root below) (root.below below) = .ok listing)
    (htold : d.tree.Tellable (root.below below))
    (hentries : ∀ name ∈ listing.names, isTooLong (joinName (walkPath root below) name) = false
      ∧ (d.tree.locate (root.below (below ++ [name]))).isOk = true) :
    Unhindered d settings root seen below := by
  obtain ⟨-, -, -, hlocate, hnames⟩ := list_eq_ok hlist
  have hanswered : ∀ dir name, d.tree.Leads (root.below below) dir → name ∈ d.tree.namesIn dir →
      isTooLong (joinName (walkPath root below) name) = false
        ∧ d.tree.Answered (root.below (below ++ [name])) := by
    intro dir name hlead hname
    rw [hlead.unique (leads_of_locate hlocate), ← hnames] at hname
    obtain ⟨hshort, hok⟩ := hentries name hname
    refine ⟨hshort, ?_, ?_⟩
    · intro herror
      rw [herror] at hok
      cases hok
    · intro herror
      rw [herror] at hok
      cases hok
  exact ⟨⟨listing, hlist⟩, htold, fun dir name hlead _ hname _ => hanswered dir name hlead hname,
    fun dir name hlead _ hname _ _ => (hanswered dir name hlead hname).2⟩

/-- The tree of `ring`, where every directory can be listed. -/
def openRing : Disk where
  tree := ring.tree

/-- Every state of the walk below `a`: the file is found at once, the link
leads back, and the empty directory comes last. -/
theorem openRing_run {turned pending : List (List String)} {y : Yield}
    (h : Run openRing {} ⟨.here, ["a"]⟩ turned y pending) :
    (y = {} ∧ pending = [[]])
      ∨ (y.seen = [⟨.top, ["w", "a"]⟩] ∧ pending = [["c"], ["d"]])
      ∨ (y.seen = [⟨.top, ["w", "a"]⟩] ∧ pending = [["d"]]) ∨ pending = [] := by
  induction h with
  | start => exact .inl ⟨rfl, rfl⟩
  | @next turned rest y z below inner _ hturn ih =>
      rcases ih with ⟨rfl, hpending⟩ | ⟨hseen, hpending⟩ | ⟨hseen, hpending⟩ | hpending
      · cases hpending
        cases hturn
        exact .inr (.inl ⟨rfl, rfl⟩)
      · cases hpending
        obtain ⟨seen, files, records⟩ := y
        cases hseen
        cases hturn
        exact .inr (.inr (.inl ⟨rfl, rfl⟩))
      · cases hpending
        obtain ⟨seen, files, records⟩ := y
        cases hseen
        cases hturn
        exact .inr (.inr (.inr rfl))
      · cases hpending

theorem openRing_undisturbed : Undisturbed openRing {} ⟨.here, ["a"]⟩ := by
  intro turned y below rest hrun
  have hroot : Unhindered openRing {} ⟨.here, ["a"]⟩ y.seen [] :=
    .of_list rfl ⟨_, _, .into rfl rfl .done⟩ (by decide)
  have hlink : Unhindered openRing {} ⟨.here, ["a"]⟩ y.seen ["c"] :=
    .of_list rfl ⟨_, _, .into rfl rfl (.follow rfl rfl rfl
      (.up rfl (.into rfl rfl .done)) .done)⟩ (by decide)
  have hempty : Unhindered openRing {} ⟨.here, ["a"]⟩ y.seen ["d"] :=
    .of_list rfl ⟨_, _, .into rfl rfl (.into rfl rfl .done)⟩ (by decide)
  rcases openRing_run hrun with ⟨-, hpending⟩ | ⟨-, hpending⟩ | ⟨-, hpending⟩ | hpending
  · cases hpending
    exact hroot
  · cases hpending
    exact hlink
  · cases hpending
    exact hempty
  · cases hpending

/-- Below `a` the walk goes into `a` and `a/d`, though `a/c` leads back,
and `a/B.java` is found under one path. -/
theorem openRing_exact :
    openRing.tree.Leads ⟨.here, ["a"]⟩ ["w", "a"]
      ∧ Undisturbed openRing {} ⟨.here, ["a"]⟩
      ∧ ∃ found, filesBelow openRing {} ⟨.here, ["a"]⟩ = .ok found
        ∧ (⟨.top, ["w", "a", "d"]⟩ ∈ found.directories)
        ∧ ∃! p, p ∈ found.files
          ∧ NamesEntry openRing.tree ⟨.here, ["a"]⟩ p ["w", "a"] "B.java" := by
  have hlead : openRing.tree.Leads ⟨.here, ["a"]⟩ ["w", "a"] := leads_of_locate rfl
  refine ⟨hlead, openRing_undisturbed, ?_⟩
  obtain ⟨found, hfound, -, hdirectories, -, hfiles, -⟩ :=
    filesBelow_exact openRing {} ⟨.here, ["a"]⟩ ["w", "a"] hlead openRing_undisturbed
  have hedge : Edge openRing.tree {} ["w", "a"] ["w", "a", "d"] :=
    ⟨"d", by decide, .into rfl rfl rfl .done, rfl, by decide, .inl rfl⟩
  have hwanted : Wanted openRing.tree {} ["w", "a"] "B.java" :=
    ⟨by decide, by decide, _, [], .into rfl rfl rfl .done, rfl⟩
  exact ⟨found, hfound, (hdirectories _).2 ⟨_, rfl, .single hedge⟩, hfiles _ _ .refl hwanted⟩

end Discovery

end DocAudit
