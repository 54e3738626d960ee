/-
Pruning a search. Directories that are passed by, directories that cannot
be listed and the extension take files away from what a search finds, and
do nothing else: where links are not followed, the files found are those of
the unrestricted search, in the same order, without those that one of the
three keeps out (`kept`).

# Two walks side by side

The restricted walk makes the turns of the unrestricted one, leaving some
out. Both turn to a directory with the same directories on their stacks, but
for those that the restricted walk does not get to (`reached`). If it gets
to the directory, it makes the same turn or, if the directory cannot be
listed, passes it by, and then gets to nothing below; if not, it waits
(`Run.pruned`).

The two walks have gone into different directories by then. That would
matter if one of them took a directory for one it has met before and the
other did not; but where links are not followed neither ever does.
-/
import DocAudit.Proofs.Descent
import DocAudit.Proofs.Ordering
import Mathlib.Data.List.Infix

namespace DocAudit

/-- A disk on which the system lets every directory be listed. -/
def Disk.granting (d : Disk) : Disk :=
  { d with unlistable := [] }

/-- Settings by which every file is looked for, and in every directory. -/
def Settings.unrestricted (settings : Settings) : Settings :=
  { settings with extension := "", skipDirs := [] }

namespace Discovery

open FileTree

variable {d : Disk} {settings : Settings} {root : Path}

-- ========================================================= restrictions

/-- Does the system let a directory be listed? -/
def granted (d : Disk) (root : Path) (below : List String) : Bool :=
  (d.unlistable.lookup (walkPath root below)).isNone

/-- Is a directory got to? None of its names is passed by, and all
directories above it may be listed. -/
def reached (d : Disk) (settings : Settings) (root : Path) (below : List String) : Bool :=
  below.all (fun name => !settings.skipDirs.contains name)
    && below.inits.dropLast.all (granted d root)

/-- Is a file kept? No directory that it lies in is passed by, all of them
may be listed, from the root down, and it has the extension. -/
def kept (d : Disk) (settings : Settings) (root p : Path) : Bool :=
  let dirs := (namesBelow root p).dropLast
  dirs.all (fun name => !settings.skipDirs.contains name) && dirs.inits.all (granted d root)
    && p.hasExtension settings.extension

theorem all_inits (below : List String) (test : List String → Bool) :
    below.inits.all test = (below.inits.dropLast.all test && test below) := by
  rcases List.eq_nil_or_concat below with rfl | ⟨above, name, rfl⟩
  · simp
  · simp

theorem reached_concat (below : List String) (name : String) :
    reached d settings root (below ++ [name])
      = (reached d settings root below && granted d root below
        && !settings.skipDirs.contains name) := by
  have hinits : (below ++ [name]).inits.dropLast = below.inits := by
    simp
  rw [reached, hinits, all_inits, reached, List.all_append, List.all_cons, List.all_nil,
    Bool.and_true]
  ac_rfl

theorem kept_below (below : List String) (name : String) :
    kept d settings root (root.below (below ++ [name]))
      = (reached d settings root below && granted d root below
        && (root.below (below ++ [name])).hasExtension settings.extension) := by
  rw [kept, namesBelow_below, List.dropLast_concat, all_inits, reached]
  ac_rfl

/-- A search with an extension gathers the files of one without that have
it. -/
theorem gathers_eq (extension : String) (p : Path) :
    gathers d extension p = (p.hasExtension extension && gathers d "" p) := by
  simp [gathers, hasExtension_empty]

/-- Of the directories beside each other, those that are not passed by. -/
theorem enterable_eq_filter (stop : Stop) (names : List String) :
    stop.enterable d settings names
      = (stop.enterable d.granting settings.unrestricted names).filter
        fun name => !settings.skipDirs.contains name := by
  unfold Stop.enterable
  rw [List.filter_filter]
  refine List.filter_congr fun name _ => ?_
  show _ = (_ && (stop.isDirectory d name && !false && (settings.followLinks || _)))
  rw [Bool.not_false, Bool.and_true]
  ac_rfl

/-- Of the files gathered in a directory, those that are kept: all with the
extension if the directory is got to and may be listed, or else none. -/
theorem filter_kept (below names : List String) :
    (((names.filter fun name => gathers d "" ((root.below below).below [name])).map
        fun name => (root.below below).below [name]).reverse).filter (kept d settings root)
      = if reached d settings root below && granted d root below then
          ((names.filter fun name =>
            gathers d settings.extension ((root.below below).below [name])).map
              fun name => (root.below below).below [name]).reverse
        else [] := by
  rw [List.filter_reverse, List.filter_map, List.filter_filter]
  have htest : ∀ name, ((kept d settings root ∘ fun name => (root.below below).below [name]) name
      && gathers d "" ((root.below below).below [name]))
        = (reached d settings root below && granted d root below
          && gathers d settings.extension ((root.below below).below [name])) := by
    intro name
    rw [Function.comp_apply, gathers_eq settings.extension, Path.below_below, kept_below]
    ac_rfl
  rw [List.filter_congr fun name _ => htest name]
  cases reached d settings root below && granted d root below with
  | true => simp only [Bool.true_and, if_true]
  | false => simp

-- ================================================================ turns

theorem list_of_granted {below : List String} (h : granted d root below = true) (p : Path) :
    list d (walkPath root below) p = list d.granting (walkPath root below) p := by
  unfold list
  rw [Option.isNone_iff_eq_none.1 h]
  rfl

theorem list_of_not_granted {below : List String} (h : granted d root below = false) (p : Path) :
    ∃ fault, list d (walkPath root below) p = .error (.fault fault) := by
  unfold granted at h
  unfold list
  cases hlookup : d.unlistable.lookup (walkPath root below) with
  | none => simp [hlookup] at h
  | some refusal => exact ⟨_, rfl⟩

theorem turn_of_fault (settings : Settings) (y : Yield) {below : List String} {fault : Fault}
    (h : list d (walkPath root below) (root.below below) = .error (.fault fault)) :
    ∃ z, turn d settings root y below = .ok (z, []) ∧ z.files = y.files := by
  unfold turn meet
  rw [h]
  exact ⟨_, rfl, rfl⟩

theorem meet_eq_fault {seen : List Path} {below : List String} {fault : Fault}
    (h : meet d root seen below = .ok (.unlistable fault)) :
    list d (walkPath root below) (root.below below) = .error (.fault fault) := by
  unfold meet at h
  split at h
  · rename_i hlist
    cases h
    exact hlist
  · cases h
  · split at h
    · cases h
    · split at h <;> cases h

/-- A turn of the unrestricted walk brings nothing that is kept from a
directory that is not got to or may not be listed, and nothing below is
got to. -/
theorem Turn.nothing_kept {y z : Yield} {below inner : List String}
    (h : Turn d.granting settings.unrestricted root y below z inner)
    (hout : (reached d settings root below && granted d root below) = false) :
    z.files.filter (kept d settings root) = y.files.filter (kept d settings root)
      ∧ inner.filter (fun n => reached d settings root (below ++ [n])) = [] := by
  refine ⟨?_, ?_⟩
  · cases h with
    | passBy => rfl
    | turnBack => rfl
    | goInto hmeet hgather =>
        have hfiles := files_gather hgather
        rw [hfiles, List.filter_append]
        refine (congrArg (· ++ _) (filter_kept below _)).trans ?_
        rw [hout]
        rfl
  · refine List.filter_eq_nil_iff.2 fun name _ => ?_
    rw [reached_concat, hout]
    simp

/-- A turn of the restricted walk to a directory that it gets to. -/
theorem Turn.pruned {y y' z : Yield} {below inner : List String}
    (h : Turn d.granting settings.unrestricted root y below z inner)
    (hreached : reached d settings root below = true)
    (hfiles : y'.files = y.files.filter (kept d settings root))
    (hnew : meet d.granting root y.seen below ≠ .ok .seenBefore)
    (hnew' : meet d root y'.seen below ≠ .ok .seenBefore) :
    ∃ z', turn d settings root y' below
        = .ok (z', inner.filter fun n => reached d settings root (below ++ [n]))
      ∧ z'.files = z.files.filter (kept d settings root) := by
  cases hgranted : granted d root below with
  | false =>
      -- it cannot be listed, whatever the unrestricted walk does there
      obtain ⟨hkept, hinner⟩ := h.nothing_kept (by rw [hgranted, Bool.and_false])
      obtain ⟨fault, hfault⟩ := list_of_not_granted hgranted (root.below below)
      obtain ⟨z', hturn, hsame⟩ := turn_of_fault settings y' hfault
      rw [hinner]
      exact ⟨z', hturn, by rw [hsame, hfiles, hkept]⟩
  | true =>
      have hlist := list_of_granted hgranted (root.below below)
      cases h with
      | passBy hmeet =>
          rw [meet_eq_fault hmeet] at hlist
          obtain ⟨z', hturn, hsame⟩ := turn_of_fault settings y' hlist
          exact ⟨z', hturn, by rw [hsame, hfiles]; rfl⟩
      | turnBack hmeet => exact absurd hmeet hnew
      | @goInto listing real _ hmeet hgather =>
          obtain ⟨hlisted, hreal, -⟩ := meet_eq_new hmeet
          rw [hlisted] at hlist
          have hmeet' := meet_of_list hlist hreal y'.seen
          split at hmeet'
          · exact absurd hmeet' hnew'
          -- all entries were examined, so those with the extension can be
          obtain ⟨z', hgather'⟩ : ∃ z', gather d settings.extension (root.below below)
              (y'.enter real) (Stop.nonDirectories
                ⟨walkPath root below, root.below below, listing.place⟩ d listing.names)
                = .ok z' := by
            refine exists_gather _ fun name hname _ => ?_
            rcases examined_of_gather hgather hname (hasExtension_empty _) with hfile | ⟨hfile, -⟩
            · exact ⟨true, hfile⟩
            · exact ⟨false, hfile⟩
          refine ⟨z', ?_, ?_⟩
          · rw [turn_of_new hmeet' hgather', enterable_eq_filter]
            congr 2
            refine List.filter_congr fun name _ => ?_
            rw [reached_concat, hreached, hgranted, Bool.true_and, Bool.true_and]
          · rw [files_gather hgather', files_gather hgather, List.filter_append]
            refine congrArg₂ (· ++ ·) ?_ hfiles
            refine Eq.trans ?_ (filter_kept below _).symm
            rw [hreached, hgranted]
            rfl

-- ================================================================= runs

theorem StaysBelow.granting {dir : Place} (h : StaysBelow d settings root dir) :
    StaysBelow d.granting settings.unrestricted root dir :=
  ⟨h.leads, h.isDirectory, h.told, h.plain⟩

/-- Beside a run of the unrestricted walk goes one of the restricted walk,
with what is got to of the directories and what is kept of the files. -/
theorem Run.pruned {turned pending : List (List String)} {y : Yield} {dir : Place}
    (h : Run d.granting settings.unrestricted root turned y pending)
    (hstays : StaysBelow d settings root dir) :
    ∃ y', Run d settings root (turned.filter (reached d settings root)) y'
        (pending.filter (reached d settings root))
      ∧ y'.files = y.files.filter (kept d settings root) := by
  induction h with
  | start => exact ⟨{}, .start, rfl⟩
  | @next turned rest y z below inner hrun hturn ih =>
      obtain ⟨y', hrun', hfiles⟩ := ih
      have hnext : ((inner.map fun n => below ++ [n]) ++ rest).filter (reached d settings root)
          = ((inner.filter fun n => reached d settings root (below ++ [n])).map
              fun n => below ++ [n]) ++ rest.filter (reached d settings root) := by
        rw [List.filter_append, List.filter_map]
        rfl
      rw [hnext]
      cases hreached : reached d settings root below with
      | false =>
          rw [List.filter_cons_of_neg (by simp [hreached])] at hrun' ⊢
          obtain ⟨hkept, hinner⟩ := (turn_cases hturn).nothing_kept (by rw [hreached, Bool.false_and])
          rw [hinner]
          exact ⟨y', hrun', by rw [hfiles, hkept]⟩
      | true =>
          rw [List.filter_cons_of_pos hreached] at hrun' ⊢
          obtain ⟨z', hturn', hfiles'⟩ := (turn_cases hturn).pruned hreached hfiles
            (hrun.meet_ne_seenBefore hstays.granting) (hrun'.meet_ne_seenBefore hstays)
          exact ⟨z', hrun'.next hturn', hfiles'⟩

/-- A walk that is over has turned to the directories that it turns to. -/
theorem Run.mem_turned_iff {turned : List (List String)} {y : Yield} {below : List String}
    (h : Run d settings root turned y []) :
    below ∈ turned ↔ ∃ y', TurnsTo d settings root y' below := by
  constructor
  · exact h.exists_turnsTo
  · rintro ⟨y', before, rest, hrun⟩
    have hmem := (hrun.keeps h (hrun.length_le h)).2.2 below (by simp)
    rwa [List.append_nil] at hmem

-- ============================================================= warnings

/-- The warning that a directory gives rise to, if it cannot be listed. -/
def warning? (d : Disk) (root : Path) (below : List String) : Option Log.Record :=
  match list d (walkPath root below) (root.below below) with
  | .error (.fault fault) => some (cannotList fault)
  | _ => none

/-- A directory that the system refuses to list gives rise to a warning with
the refusal. -/
theorem warning?_of_refusal {below : List String} {refusal : Refusal}
    (h : d.unlistable.lookup (walkPath root below) = some refusal) :
    warning? d root below = some (cannotList ⟨refusal, walkPath root below⟩) := by
  unfold warning? list
  rw [h]

theorem warnings_gather {extension : String} {dir : Path} {y z : Yield} {names : List String}
    (h : gather d extension dir y names = .ok z) :
    z.records.filter (·.level = .warning) = y.records.filter (·.level = .warning) := by
  induction names generalizing y with
  | nil =>
      cases h
      rfl
  | cons name rest ih =>
      simp only [gather] at h
      split at h
      · split at h
        · cases h
        · exact (ih h).trans rfl
        · exact (ih h).trans rfl
      · exact ih h

theorem Turn.warnings {y z : Yield} {below inner : List String}
    (h : Turn d settings root y below z inner) :
    z.records.filter (·.level = .warning)
      = (warning? d root below).toList ++ y.records.filter (·.level = .warning) := by
  cases h with
  | passBy hmeet =>
      unfold warning?
      rw [meet_eq_fault hmeet]
      rfl
  | turnBack hmeet =>
      have hlisted : warning? d root below = none := by
        unfold meet at hmeet
        unfold warning?
        split at hmeet
        · cases hmeet
        · cases hmeet
        · rename_i hlist
          rw [hlist]
      rw [hlisted]
      rfl
  | goInto hmeet hgather =>
      have hlisted : warning? d root below = none := by
        unfold warning?
        rw [(meet_eq_new hmeet).1]
      rw [hlisted]
      exact (warnings_gather hgather).trans rfl

/-- The warnings are those of the directories turned to, one each. -/
theorem Run.warnings {turned pending : List (List String)} {y : Yield}
    (h : Run d settings root turned y pending) :
    y.records.filter (·.level = .warning) = turned.filterMap (warning? d root) := by
  induction h with
  | start => rfl
  | next _ hturn ih =>
      rw [(turn_cases hturn).warnings, ih, List.filterMap_cons]
      cases warning? d root _ <;> rfl

-- =============================================================== result

/-- Where links are not followed, a search below a directory whose real path
can be told finds the files of the unrestricted search that are kept, in the
same order. Each directory that it turns to and that cannot be listed is
logged with one warning, which holds the refusal if the system refuses to
list it; and no directory is taken for one met before. -/
theorem search_keeps_files (d : Disk) (settings : Settings) (root : Path) (all : Found)
    (hroot : d.tree.isDirectory root = true) (htold : d.tree.Tellable root)
    (hlinks : settings.followLinks = false)
    (hall : filesBelow d.granting settings.unrestricted root = .ok all) :
    ∃ found, filesBelow d settings root = .ok found
      ∧ found.files = all.files.filter (kept d settings root)
      ∧ (∃ dirs : List (List String), dirs.Nodup
        ∧ (∀ below, below ∈ dirs ↔ ∃ y, TurnsTo d settings root y below)
        ∧ found.records.filter (·.level = .warning) = dirs.filterMap (warning? d root)
        ∧ ∀ below refusal, d.unlistable.lookup (walkPath root below) = some refusal →
          warning? d root below = some (cannotList ⟨refusal, walkPath root below⟩))
      ∧ ∀ y below, TurnsTo d settings root y below →
        meet d root y.seen below ≠ .ok .seenBefore := by
  obtain ⟨dir, hlocate, hdir⟩ := exists_leads_of_isDirectory hroot
  have hstays : StaysBelow d settings root dir := by
    refine ⟨leads_of_locate hlocate, hdir, htold, ?_⟩
    rw [hlinks]
    nofun
  obtain ⟨-, hfile⟩ := Disk.root_of_isDirectory hroot
  -- the unrestricted search is a walk, and a restricted walk goes beside it
  rcases filesBelow_cases hall with ⟨hyes, -⟩ | ⟨y, hwalk, rfl⟩
  · rw [show d.granting.isFile root = d.isFile root from rfl, hfile] at hyes
    cases hyes
  · obtain ⟨turned, hrun⟩ := exists_run_of_walk hwalk
    obtain ⟨y', hrun', hfiles⟩ := hrun.pruned hstays
    rw [List.filter_nil] at hrun'
    refine ⟨_, filesBelow_of_run hfile hrun', ?_, ?_, ?_⟩
    · rw [hfiles, List.filter_reverse]
    · refine ⟨(turned.filter (reached d settings root)).reverse, ?_, ?_, ?_, ?_⟩
      · have hnodup := hrun'.nodup
        rw [List.append_nil] at hnodup
        exact (List.reverse_perm _).nodup_iff.2 hnodup
      · intro below
        rw [List.mem_reverse]
        exact hrun'.mem_turned_iff
      · rw [List.filter_reverse, hrun'.warnings, List.filterMap_reverse]
      · intro below refusal
        exact warning?_of_refusal
    · rintro z below ⟨before, rest, hbefore⟩
      exact hbefore.meet_ne_seenBefore hstays

/-- Three directories below `r`, one of which cannot be listed, a link to
one of them, and a link into another by which the root is written. -/
def fenced : Disk where
  tree :=
    { here := ["w"]
      entries := [(["w"], .directory), (["w", "l"], .link "r/a"), (["w", "r"], .directory),
        (["w", "r", "D.java"], .file []), (["w", "r", "d.txt"], .file []),
        (["w", "r", "a"], .directory), (["w", "r", "a", "A.java"], .file []),
        (["w", "r", "b"], .directory), (["w", "r", "b", "B.java"], .file []),
        (["w", "r", "c"], .directory), (["w", "r", "c", "C.java"], .file []),
        (["w", "r", "k"], .link "a")]
      proper := by decide }
  unlistable := [("l/../b", .coded 13 "Permission denied")]

/-- Of five files two are kept, and of the directories turned to one gives
rise to a warning. -/
theorem fenced_keeps_files :
    fenced.tree.isDirectory ⟨.here, ["l", ".."]⟩ = true
      ∧ fenced.tree.Tellable ⟨.here, ["l", ".."]⟩
      ∧ ∃ found, filesBelow fenced { skipDirs := ["c"], followLinks := false } ⟨.here, ["l", ".."]⟩
          = .ok found
        ∧ found.files = [⟨.here, ["l", "..", "D.java"]⟩, ⟨.here, ["l", "..", "a", "A.java"]⟩]
        ∧ ∃ dirs : List (List String), dirs.Nodup
          ∧ dirs.filterMap (warning? fenced ⟨.here, ["l", ".."]⟩)
            = [cannotList ⟨.coded 13 "Permission denied", "l/../b"⟩] := by
  have hroot : fenced.tree.isDirectory ⟨.here, ["l", ".."]⟩ = true := by decide
  have htold : fenced.tree.Tellable ⟨.here, ["l", ".."]⟩ :=
    ⟨_, _, .follow rfl rfl rfl (.into rfl rfl (.into rfl rfl .done)) (.up rfl .done)⟩
  refine ⟨hroot, htold, ?_⟩
  have hall : Run fenced.granting { extension := "", followLinks := false } ⟨.here, ["l", ".."]⟩
      [] {} [[]] := .start
  have hrun : Run fenced { skipDirs := ["c"], followLinks := false } ⟨.here, ["l", ".."]⟩
      [] {} [[]] := .start
  obtain ⟨found, hfound, hkept, ⟨dirs, hnodup, -, hwarnings, -⟩, -⟩ :=
    search_keeps_files fenced { skipDirs := ["c"], followLinks := false } ⟨.here, ["l", ".."]⟩
      _ hroot htold rfl
      (filesBelow_of_run rfl ((((hall.next rfl).next rfl).next rfl).next rfl))
  have heq := Except.ok.inj
    (hfound.symm.trans (filesBelow_of_run rfl (((hrun.next rfl).next rfl).next rfl)))
  refine ⟨found, hfound, ?_, dirs, hnodup, ?_⟩
  · rw [hkept]
    decide
  · rw [← hwarnings, heq]
    decide

/-- Where the real path of the root cannot be told, a directory below it is
taken for the root and passed by, and the file in it is not found. -/
theorem astray_skips_directory :
    Disk.astray.tree.isDirectory Disk.astrayRoot = true
      ∧ (∃ y, TurnsTo Disk.astray { extension := "", followLinks := false } Disk.astrayRoot y ["x"]
        ∧ meet Disk.astray Disk.astrayRoot y.seen ["x"] = .ok .seenBefore)
      ∧ Disk.astray.isFile (Disk.astrayRoot.below ["x", "C.java"]) = .ok true
      ∧ ∃ found, filesBelow Disk.astray { extension := "", followLinks := false } Disk.astrayRoot
          = .ok found
        ∧ found.files = [Disk.astrayRoot.below ["A.java"], Disk.astrayRoot.below ["B.java"]] := by
  exact ⟨isDirectory_astrayRoot, ⟨astrayYield, ⟨_, _, run_astray⟩, meet_astray_directory⟩,
    isFile_astray (by decide) rfl rfl, filesBelow_astray⟩

end Discovery

end DocAudit
