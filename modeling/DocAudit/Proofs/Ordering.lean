/-
The order in which files are found. It is an order of their paths: two
paths are compared name by name below the root, and where they part a file
comes before a directory, and two files or two directories come in the
order of their names (`Precedes`). Nothing else has a say in it, neither
links nor what cannot be listed, nor the order in which the system happens
to give the entries of a directory.

# Why the files come in order

At any time the walk has found some files and has some directories on its
stack, and what is still to be found lies below these. `Ordered` says that
the files are in order, that each of them comes before all that may lie
below a directory on the stack, and that all that may lie below one
directory on the stack comes before all that may lie below a later one. A
turn takes the first directory off and puts its files and its
subdirectories in its place. Their paths begin as that of the directory
does, so towards all others they stand as it did, and among themselves
they differ in one name only (`Ordered.goInto`).

# Why the system's order does not matter

The system gives the entries of a directory in any order, and in another
one when it is asked again. The entries are parted as they come, and each
part is put in order (`TurnAsGiven`). That undoes the order given, so every
turn comes to what it would have come to anyhow, and by induction the whole
walk does, with all directories that it passes by because they were met
before (`walkAsGiven_iff`).
-/
import DocAudit.Proofs.Walk
import Mathlib.Order.Defs.Unbundled

namespace DocAudit

-- ============================================================ sets of names

namespace NameSet

/-- The names in a set determine it. -/
theorem eq_of_mem_iff {names more : List String} (h : names.Pairwise (· < ·))
    (hmore : more.Pairwise (· < ·)) (hmem : ∀ name, name ∈ names ↔ name ∈ more) :
    names = more := by
  have hnodup : ∀ {names : List String}, names.Pairwise (· < ·) → names.Nodup := by
    intro names h
    refine h.imp ?_
    rintro a b hlt rfl
    exact String.lt_irrefl a hlt
  refine List.Perm.eq_of_pairwise (fun a b _ _ hab hba => ?_) h hmore
    ((List.perm_ext_iff_of_nodup (hnodup h) (hnodup hmore)).2 hmem)
  exact absurd (String.lt_trans hab hba) (String.lt_irrefl a)

/-- Names that are parted in any order and put in order then are those of
the set, in order. -/
theorem ofList_filter {names given : List String} (h : names.Pairwise (· < ·))
    (hgiven : given.Perm names) (keep : String → Bool) :
    ofList (given.filter keep) = names.filter keep := by
  refine eq_of_mem_iff (pairwise_ofList _) (h.filter _) fun name => ?_
  rw [mem_ofList, List.mem_filter, List.mem_filter, hgiven.mem_iff]

end NameSet

namespace Discovery

variable {d : Disk} {settings : Settings} {root : Path}

-- ======================================================== order of paths

/-- One row of names below the root comes before another. The last name is
that of a file and the others are those of directories. -/
inductive Precedes : List String → List String → Prop where
  /-- Two files in one directory. -/
  | files {a b : String} (h : a < b) : Precedes [a] [b]
  /-- A file, and what lies in a directory beside it. -/
  | fileFirst {a b next : String} {rest : List String} : Precedes [a] (b :: next :: rest)
  /-- What lies in two directories beside each other. -/
  | directories {a b next other : String} {as bs : List String} (h : a < b) :
      Precedes (a :: next :: as) (b :: other :: bs)
  /-- What lies in one directory. -/
  | within {dir : String} {as bs : List String} (h : Precedes as bs) :
      Precedes (dir :: as) (dir :: bs)

namespace Precedes

variable {as bs cs : List String}

theorem exists_cons (h : Precedes as bs) :
    (∃ a rest, as = a :: rest) ∧ ∃ b rest, bs = b :: rest := by
  cases h <;> exact ⟨⟨_, _, rfl⟩, ⟨_, _, rfl⟩⟩

protected theorem irrefl (names : List String) : ¬ Precedes names names := by
  intro h
  induction names with
  | nil => cases h
  | cons name rest ih =>
      cases h with
      | files h => exact String.lt_irrefl name h
      | directories h => exact String.lt_irrefl name h
      | within h => exact ih h

protected theorem trans (h : Precedes as bs) (h' : Precedes bs cs) : Precedes as cs := by
  induction h generalizing cs with
  | files h =>
      cases h' with
      | files h' => exact .files (String.lt_trans h h')
      | fileFirst => exact .fileFirst
      | within h' => cases h'
  | fileFirst =>
      cases h' with
      | directories h' => exact .fileFirst
      | within h' =>
          obtain ⟨-, b, rest, rfl⟩ := h'.exists_cons
          exact .fileFirst
  | directories h =>
      cases h' with
      | directories h' => exact .directories (String.lt_trans h h')
      | within h' =>
          obtain ⟨-, b, rest, rfl⟩ := h'.exists_cons
          exact .directories h
  | within h ih =>
      obtain ⟨⟨a, rest, rfl⟩, -⟩ := h.exists_cons
      cases h' with
      | files h' => cases h
      | fileFirst => cases h
      | directories h' => exact .directories h'
      | within h' => exact .within (ih h')

/-- Below one directory rows of names are compared as they are there. -/
theorem append (dir : List String) (h : Precedes as bs) : Precedes (dir ++ as) (dir ++ bs) := by
  induction dir with
  | nil => exact h
  | cons name rest ih => exact .within ih

end Precedes

theorem isStrictOrder_precedes : IsStrictOrder (List String) Precedes where
  irrefl := Precedes.irrefl
  trans _ _ _ := Precedes.trans

/-- The names of a path below a root. -/
def namesBelow (root p : Path) : List String :=
  p.names.drop root.names.length

theorem namesBelow_below (root : Path) (names : List String) :
    namesBelow root (root.below names) = names :=
  List.drop_left

/-- A path comes before another below a root. -/
def ComesBefore (root p q : Path) : Prop :=
  Precedes (namesBelow root p) (namesBelow root q)

theorem comesBefore_below_iff {names more : List String} :
    ComesBefore root (root.below names) (root.below more) ↔ Precedes names more := by
  unfold ComesBefore
  rw [namesBelow_below, namesBelow_below]

-- ============================================================ invariant

/-- What holds between turns of a walk, of all that has been found and all
that may still be found. -/
structure Ordered (root : Path) (y : Yield) (pending : List (List String)) : Prop where
  /-- Files lie below the root. -/
  below : ∀ p ∈ y.files, p = root.below (namesBelow root p)
  /-- Files found earlier come first. -/
  files : y.files.Pairwise fun later p => ComesBefore root p later
  /-- Files come before what lies below directories on the stack. -/
  ahead : ∀ p ∈ y.files, ∀ dir ∈ pending, ∀ more ≠ [], Precedes (namesBelow root p) (dir ++ more)
  /-- What lies below a directory on the stack comes before what lies below
  a later one. -/
  stack : pending.Pairwise fun dir next =>
    ∀ more ≠ [], ∀ others ≠ [], Precedes (dir ++ more) (next ++ others)

namespace Ordered

variable {y z : Yield} {dir : List String} {rest : List (List String)}

theorem init (root : Path) : Ordered root {} [[]] :=
  ⟨nofun, List.Pairwise.nil, nofun, List.pairwise_singleton _ _⟩

/-- A directory that is not gone into leaves the stack. -/
theorem passBy (h : Ordered root y (dir :: rest)) (hfiles : z.files = y.files) :
    Ordered root z rest := by
  refine ⟨?_, ?_, ?_, (List.pairwise_cons.1 h.stack).2⟩
  · rw [hfiles]
    exact h.below
  · rw [hfiles]
    exact h.files
  · rw [hfiles]
    exact fun p hp next hnext => h.ahead p hp next (List.mem_cons_of_mem _ hnext)

/-- A directory makes way for its files and its subdirectories. -/
theorem goInto {names inner : List String} (h : Ordered root y (dir :: rest))
    (hnames : names.Pairwise (· < ·)) (hinner : inner.Pairwise (· < ·))
    (hfiles : z.files = (names.map fun name => root.below (dir ++ [name])).reverse ++ y.files) :
    Ordered root z ((inner.map fun n => dir ++ [n]) ++ rest) := by
  obtain ⟨hnext, hrest⟩ := List.pairwise_cons.1 h.stack
  have hhere : ∀ p ∈ y.files, ∀ more ≠ [], Precedes (namesBelow root p) (dir ++ more) :=
    fun p hp => h.ahead p hp dir (List.mem_cons_self ..)
  have hnew : ∀ p ∈ (names.map fun name => root.below (dir ++ [name])).reverse,
      ∃ name, p = root.below (dir ++ [name]) := by
    intro p hp
    obtain ⟨name, -, rfl⟩ := List.mem_map.1 (List.mem_reverse.1 hp)
    exact ⟨name, rfl⟩
  refine ⟨?_, ?_, ?_, ?_⟩
  · intro p hp
    rw [hfiles] at hp
    rcases List.mem_append.1 hp with hp | hp
    · obtain ⟨name, rfl⟩ := hnew p hp
      rw [namesBelow_below]
    · exact h.below p hp
  · rw [hfiles]
    refine List.pairwise_append.2 ⟨?_, h.files, ?_⟩
    · rw [List.pairwise_reverse, List.pairwise_map]
      refine hnames.imp fun hlt => ?_
      exact comesBefore_below_iff.2 (.append dir (.files hlt))
    · intro p hp q hq
      obtain ⟨name, rfl⟩ := hnew p hp
      unfold ComesBefore
      rw [namesBelow_below]
      exact hhere q hq [name] nofun
  · intro p hp next hmem more hmore
    obtain ⟨first, others, rfl⟩ := List.exists_cons_of_ne_nil hmore
    rw [hfiles] at hp
    rcases List.mem_append.1 hp with hp | hp
    · obtain ⟨name, rfl⟩ := hnew p hp
      rw [namesBelow_below]
      rcases List.mem_append.1 hmem with hmem | hmem
      · obtain ⟨n, -, rfl⟩ := List.mem_map.1 hmem
        rw [List.append_assoc]
        exact .append dir .fileFirst
      · exact hnext next hmem [name] nofun _ hmore
    · rcases List.mem_append.1 hmem with hmem | hmem
      · obtain ⟨n, -, rfl⟩ := List.mem_map.1 hmem
        rw [List.append_assoc]
        exact hhere p hp _ nofun
      · exact h.ahead p hp next (List.mem_cons_of_mem _ hmem) _ hmore
  · refine List.pairwise_append.2 ⟨?_, hrest, ?_⟩
    · rw [List.pairwise_map]
      refine hinner.imp fun hlt more hmore others hothers => ?_
      obtain ⟨first, more, rfl⟩ := List.exists_cons_of_ne_nil hmore
      obtain ⟨first', others, rfl⟩ := List.exists_cons_of_ne_nil hothers
      rw [List.append_assoc, List.append_assoc]
      exact .append dir (.directories hlt)
    · intro sub hsub next hmem more _ others hothers
      obtain ⟨n, -, rfl⟩ := List.mem_map.1 hsub
      rw [List.append_assoc]
      exact hnext next hmem ([n] ++ more) nofun others hothers

end Ordered

theorem pairwise_names {written : String} {p : Path} {listing : Listing d.tree}
    (h : list d written p = .ok listing) : listing.names.Pairwise (· < ·) := by
  obtain ⟨-, -, -, -, hnames⟩ := list_eq_ok h
  rw [hnames]
  exact NameSet.pairwise_ofList _

theorem Turn.ordered {y z : Yield} {below inner : List String} {rest : List (List String)}
    (hturn : Turn d settings root y below z inner) (h : Ordered root y (below :: rest)) :
    Ordered root z ((inner.map fun n => below ++ [n]) ++ rest) := by
  cases hturn with
  | passBy => exact h.passBy rfl
  | turnBack => exact h.passBy rfl
  | goInto hmeet hgather =>
      have hsorted := pairwise_names (meet_eq_new hmeet).1
      have hfiles := files_gather hgather
      simp only [Path.below_below] at hfiles
      exact h.goInto ((hsorted.filter _).filter _) (hsorted.filter _) hfiles

theorem Run.ordered {turned pending : List (List String)} {y : Yield}
    (h : Run d settings root turned y pending) : Ordered root y pending := by
  induction h with
  | start => exact .init root
  | next _ hturn ih => exact (turn_cases hturn).ordered ih

-- ============================================================ as given

/-- What a turn comes to where the system gives the entries of a new
directory in any order. -/
inductive TurnAsGiven (d : Disk) (settings : Settings) (root : Path) (y : Yield)
    (below : List String) : Except Failure (Yield × List String) → Prop where
  /-- No entry is looked at. -/
  | unread (h : ∀ listing real, meet d root y.seen below ≠ .ok (.new listing real)) :
      TurnAsGiven d settings root y below (turn d settings root y below)
  /-- The entries are parted as they come, and each part is put in order. -/
  | read {listing : Listing d.tree} {real : Path} {given : List String} {stop : Stop}
      (hmeet : meet d root y.seen below = .ok (.new listing real))
      (hgiven : given.Perm listing.names)
      (hstop : stop = ⟨walkPath root below, root.below below, listing.place⟩) :
      TurnAsGiven d settings root y below
        (match gather d settings.extension stop.dir (y.enter real)
            (NameSet.ofList (stop.nonDirectories d given)) with
          | .error failure => .error failure
          | .ok z => .ok (z, NameSet.ofList (stop.enterable d settings given)))

/-- A turn comes to the same in whatever order entries are given. -/
theorem turnAsGiven_iff {y : Yield} {below : List String}
    {result : Except Failure (Yield × List String)} :
    TurnAsGiven d settings root y below result ↔ result = turn d settings root y below := by
  -- what a turn that reads the entries in some order comes to
  have hread : ∀ {listing real given} {stop : Stop},
      meet d root y.seen below = .ok (.new listing real) → given.Perm listing.names →
      stop = ⟨walkPath root below, root.below below, listing.place⟩ →
      (match gather d settings.extension stop.dir (y.enter real)
          (NameSet.ofList (stop.nonDirectories d given)) with
        | .error failure => .error failure
        | .ok z => .ok (z, NameSet.ofList (stop.enterable d settings given)))
        = turn d settings root y below := by
    rintro listing real given stop hmeet hgiven rfl
    have hsorted := pairwise_names (meet_eq_new hmeet).1
    unfold Stop.nonDirectories Stop.enterable turn
    rw [hmeet, NameSet.ofList_filter hsorted hgiven, NameSet.ofList_filter hsorted hgiven]
    rfl
  constructor
  · intro h
    cases h with
    | unread => rfl
    | read hmeet hgiven hstop => exact hread hmeet hgiven hstop
  · rintro rfl
    by_cases hnew : ∃ listing real, meet d root y.seen below = .ok (.new listing real)
    · obtain ⟨listing, real, hmeet⟩ := hnew
      rw [← hread hmeet (List.Perm.refl _) rfl]
      exact .read hmeet (List.Perm.refl _) rfl
    · exact .unread fun listing real hmeet => hnew ⟨listing, real, hmeet⟩

/-- What a walk comes to where the system gives entries in any order, and
not always in the same. -/
inductive WalkAsGiven (d : Disk) (settings : Settings) (root : Path) :
    Yield → List (List String) → Except Failure Yield → Prop where
  | done {y : Yield} : WalkAsGiven d settings root y [] (.ok y)
  | failed {y : Yield} {below : List String} {rest : List (List String)} {failure : Failure}
      (h : TurnAsGiven d settings root y below (.error failure)) :
      WalkAsGiven d settings root y (below :: rest) (.error failure)
  | next {y z : Yield} {below inner : List String} {rest : List (List String)}
      {result : Except Failure Yield} (h : TurnAsGiven d settings root y below (.ok (z, inner)))
      (hrest : WalkAsGiven d settings root z ((inner.map fun n => below ++ [n]) ++ rest) result) :
      WalkAsGiven d settings root y (below :: rest) result

/-- A walk comes to the same in whatever order entries are given. -/
theorem walkAsGiven_iff {y : Yield} {pending : List (List String)}
    {result : Except Failure Yield} :
    WalkAsGiven d settings root y pending result ↔ result = walk d settings root y pending := by
  constructor
  · intro h
    induction h with
    | done => rw [walk]
    | failed h => rw [walk_cons_error (turnAsGiven_iff.1 h).symm]
    | next h _ ih => rw [ih, walk_cons_ok (turnAsGiven_iff.1 h).symm]
  · rintro rfl
    -- on the weight of the stack, which every turn lessens
    induction hw : weight d.tree root pending using Nat.strongRecOn generalizing y pending with
    | ind n ih =>
        cases pending with
        | nil =>
            rw [walk]
            exact .done
        | cons below rest =>
            cases hturn : turn d settings root y below with
            | error failure =>
                rw [walk_cons_error hturn]
                exact .failed (turnAsGiven_iff.2 hturn.symm)
            | ok result =>
                obtain ⟨z, inner⟩ := result
                have hless := weight_turn_lt (turn_cases hturn) rest
                rw [walk_cons_ok hturn]
                exact .next (turnAsGiven_iff.2 hturn.symm) (ih _ (hw ▸ hless) rfl)

/-- What a search comes to where the system gives entries in any order. -/
def SearchAsGiven (d : Disk) (settings : Settings) (root : Path) (result : Except Failure Found) :
    Prop :=
  ∃ walked, WalkAsGiven d settings root {} [[]] walked
    ∧ result = do
      if ← d.isFile root then
        return ⟨[], if root.hasExtension settings.extension then [root] else [], []⟩
      let y ← walked
      return ⟨y.seen.reverse, y.files.reverse, y.records.reverse⟩

-- =============================================================== result

/-- The files of a search are found in strictly increasing order of their
paths below the root; and in whatever order the system gives the entries of
directories, the search comes to the same: the same files and the same
records in the same order, or the same failure. -/
theorem found_in_order (d : Disk) (settings : Settings) (root : Path) :
    IsStrictOrder (List String) Precedes
      ∧ (∀ found, filesBelow d settings root = .ok found →
        found.files.Pairwise (ComesBefore root)
          ∧ ∀ p ∈ found.files, p = root.below (namesBelow root p))
      ∧ ∀ result, SearchAsGiven d settings root result ↔ result = filesBelow d settings root := by
  refine ⟨isStrictOrder_precedes, ?_, ?_⟩
  · intro found hfound
    rcases filesBelow_cases hfound with ⟨-, rfl⟩ | ⟨y, hwalk, rfl⟩
    · split
      · refine ⟨List.pairwise_singleton _ _, ?_⟩
        intro p hp
        rw [List.mem_singleton.1 hp, namesBelow, List.drop_length, Path.below_nil]
      · exact ⟨List.Pairwise.nil, nofun⟩
    · obtain ⟨turned, hrun⟩ := exists_run_of_walk hwalk
      have hordered := hrun.ordered
      refine ⟨List.pairwise_reverse.2 hordered.files, ?_⟩
      exact fun p hp => hordered.below p (List.mem_reverse.1 hp)
  · intro result
    constructor
    · rintro ⟨walked, hwalked, rfl⟩
      rw [walkAsGiven_iff.1 hwalked]
      rfl
    · rintro rfl
      exact ⟨_, walkAsGiven_iff.2 rfl, rfl⟩

/-- A directory with a file, a directory, and a link to that directory. -/
def forked : Disk where
  tree :=
    { here := ["w"]
      entries := [(["w"], .directory), (["w", "b"], .link "a"), (["w", "a"], .directory),
        (["w", "a", "B.java"], .file []), (["w", "m.java"], .file [])]
      proper := by decide }

/-- The file comes first, and the directory is gone into by its own name,
whatever the system gives first. -/
theorem forked_in_order :
    ∃ found, filesBelow forked {} ⟨.here, []⟩ = .ok found
      ∧ found.files = [⟨.here, ["m.java"]⟩, ⟨.here, ["a", "B.java"]⟩]
      ∧ found.files.Pairwise (ComesBefore ⟨.here, []⟩)
      ∧ SearchAsGiven forked {} ⟨.here, []⟩ (.ok found) := by
  obtain ⟨-, hordered, hgiven⟩ := found_in_order forked {} ⟨.here, []⟩
  have hstart : Run forked {} ⟨.here, []⟩ [] {} [[]] := .start
  -- to the root, to `a`, and to `b`, which leads to `a` again
  have hfound := filesBelow_of_run rfl (((hstart.next rfl).next rfl).next rfl)
  exact ⟨_, hfound, rfl, (hordered _ hfound).1, (hgiven _).2 hfound.symm⟩

end Discovery

end DocAudit
