/-
The walk as a run of turns. A run is the row of states that the walk goes
through from its start: which directories it has turned to, what it has
brought, and which directories it has still to go into. Whatever the links
and whichever directories cannot be listed, a run cannot go on for ever,
and nothing is brought twice.

# Why it ends

Each turn makes the stack lighter (`weight_turn_lt`), so the weight of the
first stack bounds the number of turns. That bound is far too high. Only a
directory that is gone into puts others on the stack, and no more than the
tree has entries; so the turns are at most one more than the entries times
the directories gone into (`Run.length_add_length_le`).

# Why nothing comes twice

A directory below the root is put on the stack when the one it lies in is
turned to. The stack starts with the root alone, so by induction no
directory, as it is written, is turned to twice (`Run.nodup`), and a file is
found in one directory only. Two ways of writing one directory are told
apart from two directories by the real path, which is looked up before any
file is gathered (`Run.mem_seen`).
-/
import DocAudit.Discovery

namespace DocAudit.Discovery

variable {d : Disk} {settings : Settings} {root : Path}

-- ============================================================ gathering

/-- Is a path gathered? It has the extension and leads to a file. -/
def gathers (d : Disk) (extension : String) (p : Path) : Bool :=
  p.hasExtension extension
    && match d.isFile p with
      | .ok isFile => isFile
      | .error _ => false

/-- Gathering adds the files that have the extension, in order. -/
theorem files_gather {extension : String} {dir : Path} {y z : Yield} {names : List String}
    (h : gather d extension dir y names = .ok z) :
    z.files = ((names.filter fun name => gathers d extension (dir.below [name])).map
      fun name => dir.below [name]).reverse ++ y.files := by
  induction names generalizing y with
  | nil =>
      cases h
      rfl
  | cons name rest ih =>
      simp only [gather] at h
      split at h
      · rename_i hext
        split at h
        · cases h
        · rename_i hfile
          have hpick : gathers d extension (dir.below [name]) = true := by
            simp [gathers, hext, hfile]
          rw [ih h, List.filter_cons_of_pos (by simpa using hpick), List.map_cons,
            List.reverse_cons, List.append_assoc]
          rfl
        · rename_i hfile
          have hpass : gathers d extension (dir.below [name]) = false := by
            simp [gathers, hfile]
          rw [ih h, List.filter_cons_of_neg (by simp [hpass])]
          rfl
      · rename_i hext
        have hpass : gathers d extension (dir.below [name]) = false := by
          simp [gathers, hext]
        rw [ih h, List.filter_cons_of_neg (by simp [hpass])]

/-- Gathering comes to an end if the system tells which of the paths with
the extension lead to files. -/
theorem exists_gather {extension : String} {dir : Path} {names : List String} (y : Yield)
    (h : ∀ name ∈ names, (dir.below [name]).hasExtension extension = true →
      ∃ isFile, d.isFile (dir.below [name]) = .ok isFile) :
    ∃ z, gather d extension dir y names = .ok z := by
  induction names generalizing y with
  | nil => exact ⟨y, rfl⟩
  | cons name rest ih =>
      have hrest := fun z => ih z fun n hn => h n (List.mem_cons_of_mem _ hn)
      simp only [gather]
      split
      · rename_i hext
        obtain ⟨isFile, hfile⟩ := h name (List.mem_cons_self ..) hext
        rw [hfile]
        cases isFile with
        | true => exact hrest _
        | false => exact hrest _
      · exact hrest y

theorem nodup_map_below (dir : Path) {names : List String} (h : names.Nodup) :
    (names.map fun name => dir.below [name]).Nodup := by
  refine List.Pairwise.map _ ?_ h
  intro a b hne heq
  exact hne (List.singleton_inj.1 (Path.below_inj.1 heq))

-- ================================================================ turns

/-- A turn either goes into nothing and brings no file, or goes into a
new directory. -/
theorem Turn.seen_eq {y z : Yield} {below inner : List String}
    (h : Turn d settings root y below z inner) :
    (z.seen = y.seen ∧ z.files = y.files ∧ inner = [])
      ∨ ∃ listing real, meet d root y.seen below = .ok (.new listing real)
        ∧ z.seen = real :: y.seen := by
  cases h with
  | passBy => exact .inl ⟨rfl, rfl, rfl⟩
  | turnBack => exact .inl ⟨rfl, rfl, rfl⟩
  | goInto hmeet hgather => exact .inr ⟨_, _, hmeet, seen_gather hgather⟩

theorem Turn.seen_of_new {y z : Yield} {below inner : List String} {listing : Listing d.tree}
    {real : Path} (h : Turn d settings root y below z inner)
    (hnew : meet d root y.seen below = .ok (.new listing real)) : z.seen = real :: y.seen := by
  cases h with
  | passBy hmeet =>
      rw [hmeet] at hnew
      cases hnew
  | turnBack hmeet =>
      rw [hmeet] at hnew
      cases hnew
  | goInto hmeet hgather =>
      rw [hmeet] at hnew
      cases hnew
      exact seen_gather hgather

theorem Turn.seen_subset {y z : Yield} {below inner : List String}
    (h : Turn d settings root y below z inner) : ∀ real ∈ y.seen, real ∈ z.seen := by
  intro real hmem
  rcases h.seen_eq with ⟨hseen, -, -⟩ | ⟨_, _, -, hseen⟩
  · rwa [hseen]
  · rw [hseen]
    exact List.mem_cons_of_mem _ hmem

theorem nodup_names {written : String} {p : Path} {listing : Listing d.tree}
    (h : list d written p = .ok listing) : listing.names.Nodup := by
  obtain ⟨-, -, -, -, hnames⟩ := list_eq_ok h
  rw [hnames]
  refine (NameSet.pairwise_ofList _).imp ?_
  rintro a b hlt rfl
  exact String.lt_irrefl a hlt

theorem Turn.nodup_inner {y z : Yield} {below inner : List String}
    (h : Turn d settings root y below z inner) : inner.Nodup := by
  cases h with
  | passBy => exact List.nodup_nil
  | turnBack => exact List.nodup_nil
  | goInto hmeet => exact (nodup_names (meet_eq_new hmeet).1).filter _

-- ================================================================= runs

/-- The states that the walk goes through: the directories turned to, the
last one first; what it has brought; and the directories still to go
into, the next one first. -/
inductive Run (d : Disk) (settings : Settings) (root : Path) :
    List (List String) → Yield → List (List String) → Prop where
  | start : Run d settings root [] {} [[]]
  | next {turned rest : List (List String)} {y z : Yield} {below inner : List String}
      (hrun : Run d settings root turned y (below :: rest))
      (hturn : turn d settings root y below = .ok (z, inner)) :
      Run d settings root (below :: turned) z ((inner.map fun n => below ++ [n]) ++ rest)

/-- How a walk ends: nothing is left to go into, or a turn fails. -/
def Ends (d : Disk) (settings : Settings) (root : Path) (y : Yield)
    (pending : List (List String)) (result : Except Failure Yield) : Prop :=
  (pending = [] ∧ result = .ok y)
    ∨ ∃ below rest failure, pending = below :: rest
      ∧ turn d settings root y below = .error failure ∧ result = .error failure

namespace Run

variable {turned pending : List (List String)} {y : Yield}

/-- From every state of a run the walk goes on to the same result. -/
theorem walk_eq (h : Run d settings root turned y pending) :
    walk d settings root {} [[]] = walk d settings root y pending := by
  induction h with
  | start => rfl
  | next _ hturn ih => rw [ih, walk_cons_ok hturn]

/-- From every state of a run the walk gets to its end. -/
theorem exists_end (h : Run d settings root turned y pending) :
    ∃ turned' y' pending', Run d settings root turned' y' pending'
      ∧ Ends d settings root y' pending' (walk d settings root {} [[]]) := by
  -- on the weight of the stack, which every turn lessens
  induction hw : weight d.tree root pending using Nat.strongRecOn generalizing turned y pending with
  | ind n ih =>
      cases pending with
      | nil => exact ⟨turned, y, [], h, .inl ⟨rfl, by rw [h.walk_eq, walk]⟩⟩
      | cons below rest =>
          cases hturn : turn d settings root y below with
          | error failure =>
              refine ⟨turned, y, below :: rest, h, .inr ⟨below, rest, failure, rfl, hturn, ?_⟩⟩
              rw [h.walk_eq, walk_cons_error hturn]
          | ok result =>
              obtain ⟨z, inner⟩ := result
              have hless := weight_turn_lt (turn_cases hturn) rest
              exact ih _ (hw ▸ hless) (h.next hturn) rfl

/-- The weight of the first stack bounds the number of turns. -/
theorem length_add_weight_le (h : Run d settings root turned y pending) :
    turned.length + weight d.tree root pending ≤ weight d.tree root [[]] := by
  induction h with
  | start => exact Nat.le_of_eq (Nat.zero_add _)
  | @next turned rest y z below inner _ hturn ih =>
      have hless := weight_turn_lt (turn_cases hturn) rest
      rw [List.length_cons]
      omega

/-- The turns, those to come on the stack included, are at most one more
than the entries times the directories gone into. -/
theorem length_add_length_le (h : Run d settings root turned y pending) :
    turned.length + pending.length ≤ 1 + d.tree.entries.length * y.seen.length := by
  induction h with
  | start => exact Nat.le_refl _
  | @next turned rest y z below inner _ hturn ih =>
      have hcase := turn_cases hturn
      rw [List.length_cons] at ih
      rw [List.length_cons, List.length_append, List.length_map]
      rcases hcase.seen_eq with ⟨hseen, -, rfl⟩ | ⟨_, _, -, hseen⟩
      · rw [hseen, List.length_nil]
        omega
      · have hfew := (inner_of_turn hcase).1
        rw [hseen, List.length_cons, Nat.mul_succ]
        omega

/-- A directory below the root comes onto the stack only when the one it
lies in is turned to. -/
theorem mem_turned_of_append (h : Run d settings root turned y pending) {below : List String}
    {name : String} (hmem : below ++ [name] ∈ turned ++ pending) : below ∈ turned := by
  -- a directory is on the stack from the turn that finds it to its own turn
  induction h with
  | start => simp at hmem
  | @next turned rest y z last inner _ _ ih =>
      rw [List.cons_append, List.mem_cons, List.mem_append, List.mem_append] at hmem
      rcases hmem with hlast | hturned | hinner | hrest
      · exact List.mem_cons_of_mem _ (ih (by simp [hlast]))
      · exact List.mem_cons_of_mem _ (ih (List.mem_append_left _ hturned))
      · obtain ⟨n, -, heq⟩ := List.mem_map.1 hinner
        rw [(List.append_inj' heq rfl).1]
        exact List.mem_cons_self ..
      · exact List.mem_cons_of_mem _ (ih (List.mem_append_right _ (List.mem_cons_of_mem _ hrest)))

/-- No directory, as it is written, is turned to twice. -/
theorem nodup (h : Run d settings root turned y pending) : (turned ++ pending).Nodup := by
  induction h with
  | start => simp
  | @next turned rest y z last inner hrun hturn ih =>
      have hlast : last ∉ turned := fun hmem =>
        (List.nodup_append.1 ih).2.2 last hmem last (List.mem_cons_self ..) rfl
      have hinner : (inner.map fun n => last ++ [n]).Nodup := by
        refine List.Pairwise.map _ ?_ (turn_cases hturn).nodup_inner
        intro a b hne heq
        exact hne (List.singleton_inj.1 (List.append_cancel_left heq))
      -- `last` is turned to only now, so nothing in it was on the stack before
      have hsplit : ((inner.map fun n => last ++ [n]) ++ (turned ++ last :: rest)).Nodup := by
        refine List.nodup_append.2 ⟨hinner, ih, ?_⟩
        rintro a ha b hb rfl
        obtain ⟨n, -, rfl⟩ := List.mem_map.1 ha
        exact hlast (hrun.mem_turned_of_append hb)
      refine ((List.perm_append_comm_assoc _ _ _).trans ?_).nodup_iff.2 hsplit
      exact (List.perm_middle.symm).append_left _

/-- A file that has been brought lies in a directory turned to. -/
theorem exists_of_mem_files (h : Run d settings root turned y pending) {p : Path}
    (hmem : p ∈ y.files) : ∃ below ∈ turned, ∃ name, p = root.below (below ++ [name]) := by
  induction h with
  | start => simp at hmem
  | @next turned rest y z last inner _ hturn ih =>
      have hold : p ∈ y.files → ∃ below ∈ last :: turned, ∃ name, p = root.below (below ++ [name]) :=
        fun hmem =>
          let ⟨below, hbelow, hname⟩ := ih hmem
          ⟨below, List.mem_cons_of_mem _ hbelow, hname⟩
      cases turn_cases hturn with
      | passBy => exact hold hmem
      | turnBack => exact hold hmem
      | goInto _ hgather =>
          rw [files_gather hgather, List.mem_append, List.mem_reverse, List.mem_map] at hmem
          rcases hmem with ⟨name, -, rfl⟩ | hmem
          · exact ⟨last, List.mem_cons_self .., name, Path.below_below ..⟩
          · exact hold hmem

theorem nodup_files (h : Run d settings root turned y pending) : y.files.Nodup := by
  induction h with
  | start => exact List.nodup_nil
  | @next turned rest y z last inner hrun hturn ih =>
      cases turn_cases hturn with
      | passBy => exact ih
      | turnBack => exact ih
      | goInto hmeet hgather =>
          have hnames := nodup_names (meet_eq_new hmeet).1
          rw [files_gather hgather]
          refine List.nodup_append.2 ⟨(List.reverse_perm _).nodup_iff.2 ?_, ih, ?_⟩
          · exact nodup_map_below _ ((hnames.filter _).filter _)
          · -- a file of an earlier directory is written differently
            rintro p hp _ hq rfl
            obtain ⟨name, -, rfl⟩ := List.mem_map.1 (List.mem_reverse.1 hp)
            obtain ⟨below, hbelow, name', heq⟩ := hrun.exists_of_mem_files hq
            rw [Path.below_below, Path.below_inj] at heq
            obtain ⟨rfl, -⟩ := List.append_inj' heq rfl
            exact (List.nodup_append.1 hrun.nodup).2.2 _ hbelow _ (List.mem_cons_self ..) rfl

theorem nodup_seen (h : Run d settings root turned y pending) : y.seen.Nodup := by
  induction h with
  | start => exact List.nodup_nil
  | next _ hturn ih =>
      rcases (turn_cases hturn).seen_eq with ⟨hseen, -, -⟩ | ⟨_, _, hmeet, hseen⟩
      · rwa [hseen]
      · rw [hseen]
        exact List.nodup_cons.2 ⟨(meet_eq_new hmeet).2.2, ih⟩

/-- After as many turns there is one state only. -/
theorem unique (h : Run d settings root turned y pending) {turned' pending' : List (List String)}
    {y' : Yield} (h' : Run d settings root turned' y' pending')
    (hlen : turned.length = turned'.length) :
    turned = turned' ∧ y = y' ∧ pending = pending' := by
  induction h generalizing turned' y' pending' with
  | start =>
      cases h' with
      | start => exact ⟨rfl, rfl, rfl⟩
      | next => simp at hlen
  | next _ hturn ih =>
      cases h' with
      | start => simp at hlen
      | next hrun' hturn' =>
          obtain ⟨rfl, rfl, hpending⟩ := ih hrun' (by simpa using hlen)
          cases hpending
          rw [hturn] at hturn'
          cases hturn'
          exact ⟨rfl, rfl, rfl⟩

/-- The real path of a directory that was new at an earlier turn is among
those seen. -/
theorem mem_seen (h : Run d settings root turned y pending) {earlier rest : List (List String)}
    {y' : Yield} {below : List String} {listing : Listing d.tree} {real : Path}
    (h' : Run d settings root earlier y' (below :: rest))
    (hnew : meet d root y'.seen below = .ok (.new listing real))
    (hlen : earlier.length < turned.length) : real ∈ y.seen := by
  induction h with
  | start => simp at hlen
  | next hrun hturn ih =>
      -- the earlier turn is either before the last one or the last one itself
      rcases Nat.lt_or_eq_of_le (Nat.le_of_lt_succ hlen) with hless | heq
      · exact (turn_cases hturn).seen_subset _ (ih hless)
      · obtain ⟨rfl, rfl, hpending⟩ := h'.unique hrun heq
        cases hpending
        rw [(turn_cases hturn).seen_of_new hnew]
        exact List.mem_cons_self ..

end Run

/-- What the walk returns is the last state of a run. -/
theorem exists_run_of_walk {y : Yield} (h : walk d settings root {} [[]] = .ok y) :
    ∃ turned, Run d settings root turned y [] := by
  obtain ⟨turned, last, pending, hrun, hend⟩ := (Run.start (d := d)).exists_end
  rcases hend with ⟨rfl, hresult⟩ | ⟨_, _, _, -, -, hresult⟩
  · rw [h] at hresult
    cases hresult
    exact ⟨turned, hrun⟩
  · rw [h] at hresult
    cases hresult

/-- What a search finds: the root itself, or what the walk brings. -/
theorem filesBelow_cases {found : Found} (h : filesBelow d settings root = .ok found) :
    (d.isFile root = .ok true
        ∧ found = ⟨[], if root.hasExtension settings.extension then [root] else [], []⟩)
      ∨ ∃ y, walk d settings root {} [[]] = .ok y
        ∧ found = ⟨y.seen.reverse, y.files.reverse, y.records.reverse⟩ := by
  unfold filesBelow at h
  cases hfile : d.isFile root with
  | error failure =>
      rw [hfile] at h
      cases h
  | ok isFile =>
      rw [hfile] at h
      cases isFile with
      | true =>
          cases h
          exact .inl ⟨rfl, rfl⟩
      | false =>
          cases hwalk : walk d settings root {} [[]] with
          | error failure =>
              rw [hwalk] at h
              cases h
          | ok y =>
              rw [hwalk] at h
              cases h
              exact .inr ⟨y, rfl, rfl⟩

theorem filesBelow_of_walk {y : Yield} (hfile : d.isFile root = .ok false)
    (hwalk : walk d settings root {} [[]] = .ok y) :
    filesBelow d settings root = .ok ⟨y.seen.reverse, y.files.reverse, y.records.reverse⟩ := by
  unfold filesBelow
  rw [hfile]
  show (do
    let y ← walk d settings root {} [[]]
    return (⟨y.seen.reverse, y.files.reverse, y.records.reverse⟩ : Found)) = _
  rw [hwalk]
  rfl

/-- A run with nothing left to go into is the whole search. -/
theorem filesBelow_of_run {turned : List (List String)} {last : Yield}
    (hfile : d.isFile root = .ok false) (hrun : Run d settings root turned last []) :
    filesBelow d settings root
      = .ok ⟨last.seen.reverse, last.files.reverse, last.records.reverse⟩ := by
  refine filesBelow_of_walk hfile ?_
  rw [hrun.walk_eq, walk]

-- ============================================================== results

/-- The search ends and brings nothing twice, whatever links there are and
whichever directories cannot be listed: the walk gets to its end, every
run of it is bounded, a new directory has a real path that no earlier one
has, and no file is found twice. -/
theorem walk_ends_without_repeats (d : Disk) (settings : Settings) (root : Path) :
    (∃ turned y pending, Run d settings root turned y pending
        ∧ Ends d settings root y pending (walk d settings root {} [[]]))
      ∧ (∀ turned y pending, Run d settings root turned y pending →
        turned.length ≤ fullSize d.tree.entries.length (room root [])
          ∧ turned.length ≤ 1 + d.tree.entries.length * y.seen.length)
      ∧ (∀ turned y below rest listing real,
        Run d settings root turned y (below :: rest) →
        meet d root y.seen below = .ok (.new listing real) →
        d.tree.realPath (root.below below) = .ok real
          ∧ ∀ earlier y' below' rest' listing' real',
            Run d settings root earlier y' (below' :: rest') →
            earlier.length < turned.length →
            meet d root y'.seen below' = .ok (.new listing' real') → real' ≠ real)
      ∧ ∀ found, filesBelow d settings root = .ok found → found.files.Nodup := by
  refine ⟨Run.start.exists_end, ?_, ?_, ?_⟩
  · intro turned y pending hrun
    have hweight := hrun.length_add_weight_le
    have hlength := hrun.length_add_length_le
    have hfirst : weight d.tree root [[]] = fullSize d.tree.entries.length (room root []) := by
      simp [weight]
    exact ⟨by omega, by omega⟩
  · intro turned y below rest listing real hrun hmeet
    obtain ⟨-, hreal, hnew⟩ := meet_eq_new hmeet
    refine ⟨hreal, ?_⟩
    rintro earlier y' below' rest' listing' _ hrun' hlen hmeet' rfl
    exact hnew (hrun.mem_seen hrun' hmeet' hlen)
  · intro found hfound
    rcases filesBelow_cases hfound with ⟨-, rfl⟩ | ⟨y, hwalk, rfl⟩
    · split
      · exact List.pairwise_singleton _ _
      · exact List.nodup_nil
    · obtain ⟨turned, hrun⟩ := exists_run_of_walk hwalk
      exact (List.reverse_perm _).nodup_iff.2 hrun.nodup_files

/-- A directory `a` with a file, a link from `a/c` back to `a`, and a
directory `a/d` that cannot be listed. -/
def ring : Disk where
  tree :=
    { here := ["w"]
      entries := [(["w"], .directory), (["w", "a"], .directory), (["w", "a", "B.java"], .file []),
        (["w", "a", "c"], .link "../a"), (["w", "a", "d"], .directory)]
      proper := by decide }
  unlistable := [("a/d", .coded 13 "Permission denied")]

/-- Below `a` the one file is found once, the link leads back to what was
seen, and nothing follows from what cannot be listed. -/
theorem ring_ends_without_repeats :
    ∃ found, filesBelow ring {} ⟨.here, ["a"]⟩ = .ok found
      ∧ found.directories = [⟨.top, ["w", "a"]⟩]
      ∧ found.files = [⟨.here, ["a", "B.java"]⟩] ∧ found.files.Nodup := by
  have hfirst : turn ring {} ⟨.here, ["a"]⟩ {} []
      = .ok (⟨[⟨.top, ["w", "a"]⟩], [⟨.here, ["a", "B.java"]⟩], []⟩, ["c", "d"]) := rfl
  have hlink : ∃ records, turn ring {} ⟨.here, ["a"]⟩
      ⟨[⟨.top, ["w", "a"]⟩], [⟨.here, ["a", "B.java"]⟩], []⟩ ["c"]
      = .ok (⟨[⟨.top, ["w", "a"]⟩], [⟨.here, ["a", "B.java"]⟩], records⟩, []) := ⟨_, rfl⟩
  obtain ⟨records, hlink⟩ := hlink
  have hrefused : ∃ more, turn ring {} ⟨.here, ["a"]⟩
      ⟨[⟨.top, ["w", "a"]⟩], [⟨.here, ["a", "B.java"]⟩], records⟩ ["d"]
      = .ok (⟨[⟨.top, ["w", "a"]⟩], [⟨.here, ["a", "B.java"]⟩], more⟩, []) := ⟨_, rfl⟩
  obtain ⟨more, hrefused⟩ := hrefused
  have hwalk : walk ring {} ⟨.here, ["a"]⟩ {} [[]]
      = .ok ⟨[⟨.top, ["w", "a"]⟩], [⟨.here, ["a", "B.java"]⟩], more⟩ := by
    rw [walk_cons_ok hfirst]
    show walk ring {} ⟨.here, ["a"]⟩ _ [["c"], ["d"]] = _
    rw [walk_cons_ok hlink]
    show walk ring {} ⟨.here, ["a"]⟩ _ [["d"]] = _
    rw [walk_cons_ok hrefused]
    show walk ring {} ⟨.here, ["a"]⟩ _ [] = _
    rw [walk]
  have hfound := filesBelow_of_walk (d := ring) rfl hwalk
  exact ⟨_, hfound, rfl, rfl, (walk_ends_without_repeats ring {} ⟨.here, ["a"]⟩).2.2.2 _ hfound⟩

end DocAudit.Discovery
