/-
The paths by which reports name files. Below a directory without links
further down, whatever way the root itself is written, a file that a search
finds is reported by its names below the root, with slashes between them.
So reports name different files differently.

Both the file and the root are resolved before they are compared. The real
path of the root is the place that it leads to, and each name below adds
itself to it (`FileTree.Descends`), so what remains of the one below the
other are those names. That a resolved path is followed once more, to see
whether links go in circles, does no harm: from the top no link is met on
the way to a place (`IsReal.find_ne_tooManyLinks`).
-/
import DocAudit.Proofs.Descent
import DocAudit.Proofs.Ordering
import Mathlib.Data.List.Infix

namespace DocAudit

-- ============================================================ real places

namespace FileTree

variable {t : FileTree} {place q : Place} {steps : List Step} {name : String}

/-- No link stands at a place or on the way to it. -/
def IsReal (t : FileTree) (place : Place) : Prop :=
  ∀ above, above <+: place → t.isLinkAt above = false

theorem isReal_nil : t.IsReal [] := by
  intro above h
  rw [List.prefix_nil.1 h]
  rfl

theorem IsReal.dropLast (h : t.IsReal place) : t.IsReal place.dropLast :=
  fun above habove => h above (habove.trans (List.dropLast_prefix place))

theorem IsReal.append (h : t.IsReal place) (hplain : t.isLinkAt (place ++ [name]) = false) :
    t.IsReal (place ++ [name]) := by
  intro above habove
  rcases List.prefix_concat_iff.1 habove with rfl | habove
  · exact hplain
  · exact h above habove

/-- From a place where no link is in the way, steps lead to another such. -/
theorem LeadsTo.isReal (h : t.LeadsTo place steps q) (hplace : t.IsReal place) : t.IsReal q := by
  induction h with
  | done => exact hplace
  | stay _ _ ih => exact ih hplace
  | up _ _ ih => exact ih hplace.dropLast
  | into _ _ hplain _ ih => exact ih (hplace.append hplain)
  | follow _ _ _ ih =>
      refine ih ?_
      unfold targetStart
      split
      · exact isReal_nil
      · exact hplace

theorem Leads.isReal {p : Path} (h : t.Leads p q) (hhere : t.IsReal t.here) : t.IsReal q := by
  refine LeadsTo.isReal h ?_
  unfold startOf
  split
  · exact hhere
  · exact isReal_nil

/-- Where something stands, all names on the way can be those of entries. -/
theorem isEntryName_of_mem_place {node : Node} (h : t.node? place = some node)
    (hname : name ∈ place) : isEntryName name = true := by
  rw [node?, if_neg (List.ne_nil_of_mem hname)] at h
  obtain ⟨before, after, hentries, -⟩ := List.lookup_eq_some_iff.1 h
  have hproper := t.proper (place, node) (by simp [hentries])
  simp only [isEntry, Bool.and_eq_true, List.all_eq_true] at hproper
  exact hproper.1 name hname

/-- Names that no link stands at are followed without meeting one. -/
theorem IsReal.locateFrom_ne_tooManyLinks {names : List String}
    (h : t.IsReal (place ++ names)) (hnames : ∀ name ∈ names, isEntryName name = true)
    (links : Nat) :
    t.locateFrom links place (names.map Step.ofName) ≠ .error .tooManyLinks := by
  induction names generalizing place with
  | nil =>
      rw [List.map_nil, locateFrom_nil]
      nofun
  | cons name rest ih =>
      obtain ⟨hname, hrest⟩ := List.forall_mem_cons.1 hnames
      have hplain : t.isLinkAt (place ++ [name]) = false := h _ (by simp)
      rw [List.map_cons, Step.ofName_of_isEntryName hname]
      by_cases hdir : t.node? place = some .directory
      · by_cases hsize : name.utf8ByteSize ≤ maxNameBytes
        · cases hnode : t.node? (place ++ [name]) with
          | none => cases links <;> simp [locateFrom, advance, hdir, Nat.not_lt.2 hsize, hnode]
          | some node =>
              rw [locateFrom_into links hdir hsize hnode hplain]
              refine ih ?_ hrest
              rwa [List.append_assoc]
        · cases links <;> simp [locateFrom, advance, hdir, Nat.not_le.1 hsize]
      · cases links <;> simp [locateFrom, advance, hdir]

theorem IsReal.find_ne_tooManyLinks (h : t.IsReal place)
    (hnames : ∀ name ∈ place, isEntryName name = true) :
    t.find ⟨.top, place⟩ ≠ .error .tooManyLinks := by
  have hlocate : t.locate ⟨.top, place⟩ ≠ .error .tooManyLinks := by
    unfold locate
    split
    · nofun
    · refine IsReal.locateFrom_ne_tooManyLinks ?_ hnames maxLinks
      exact h
  unfold find
  split
  · split <;> nofun
  · rename_i why hwhy
    rintro ⟨⟩
    exact hlocate hwhy

theorem isLinkAt_eq_false (h : ∀ node, (place, node) ∈ t.entries → node.isLink = false) :
    t.isLinkAt place = false := by
  cases hlink : t.isLinkAt place with
  | false => rfl
  | true =>
      obtain ⟨target, hnode⟩ := exists_target_of_isLinkAt hlink
      unfold node? at hnode
      split at hnode
      · cases hnode
      · obtain ⟨before, after, hentries, -⟩ := List.lookup_eq_some_iff.1 hnode
        cases h (.link target) (by simp [hentries])

theorem exists_place_of_find {p : Path} {node : Node} (h : t.find p = .ok node) :
    ∃ place, t.locate p = .ok place ∧ t.node? place = some node := by
  unfold find at h
  split at h
  · rename_i place hlocate
    split at h
    · rename_i hnode
      cases h
      exact ⟨place, hlocate, hnode⟩
    · cases h
  · cases h

end FileTree

-- ======================================================== written names

namespace Path

theorem anchorOf_cons {c : Char} (h : c ≠ '/') (rest : List Char) : anchorOf (c :: rest) = .here := by
  unfold anchorOf
  split <;> simp_all

/-- Names of entries with slashes between them are a relative path. -/
theorem ofText_intercalate {names : List String} (hne : names ≠ [])
    (h : ∀ name ∈ names, isEntryName name = true) :
    ofText ("/".intercalate names) = ⟨.here, names⟩ := by
  have hword : ∀ name ∈ names, name ≠ "" ∧ name ≠ "." := by
    intro name hname
    have hentry := h name hname
    simp only [isEntryName, Bool.and_eq_true, bne_iff_ne] at hentry
    exact hentry.1.1.1
  have hpieces : pieces ("/".intercalate names) = names :=
    pieces_intercalate hne fun name hname => slash_not_mem_of_isEntryName (h name hname)
  have hanchor : anchorOf ("/".intercalate names).toList = .here := by
    cases htext : ("/".intercalate names).toList with
    | nil => rfl
    | cons c rest =>
        refine anchorOf_cons ?_ rest
        rintro rfl
        -- a slash in front would leave an empty name
        unfold pieces at hpieces
        rw [htext] at hpieces
        exact (hword "" (hpieces ▸ List.mem_cons_self ..)).1 rfl
  unfold ofText
  rw [hpieces, hanchor, List.filter_eq_self.2]
  intro name hname
  simpa using hword name hname

theorem relativeTo?_below (base : Path) (names : List String) :
    (base.below names).relativeTo? base = some ⟨.here, names⟩ := by
  simp [relativeTo?, below]

theorem text_relative {names : List String} (hne : names ≠ []) :
    text ⟨.here, names⟩ = "/".intercalate names := by
  simp [text, Anchor.text, hne]

end Path

-- ============================================================ resolving

namespace Disk

open FileTree

variable {d : Disk} {p root base : Path} {names : List String}

theorem resolve_of_real {place : Place} (hasked : p.text ∉ d.unresolvable)
    (hreal : d.tree.realPath p = .ok ⟨.top, place⟩) (hplace : d.tree.IsReal place)
    (hnames : ∀ name ∈ place, isEntryName name = true) :
    d.resolve p = .ok ⟨.top, place⟩ := by
  have hnul : Path.hasNul ⟨.top, place⟩ = false :=
    Path.hasNul_eq_false_iff.2 fun name hname => nul_not_mem_of_isEntryName (hnames name hname)
  have hfind := hplace.find_ne_tooManyLinks hnames
  unfold resolve
  rw [if_neg hasked, hreal]
  dsimp only
  rw [hnul, if_neg Bool.false_ne_true]
  split
  · rename_i hloop
    exact absurd hloop hfind
  · rfl

/-- What is resolved to names below what the root is resolved to is
reported by these names. -/
theorem reportedPath_of_resolve (hp : d.resolve p = .ok (base.below names))
    (hroot : d.resolve root = .ok base) (hne : names ≠ []) :
    d.reportedPath p root = .ok ("/".intercalate names) := by
  have hother : base.below names ≠ base := by
    intro heq
    rw [← Path.below_nil base, Path.below_below, List.nil_append] at heq
    exact hne (Path.below_inj.1 heq)
  unfold reportedPath
  rw [hp, hroot]
  simp only [bind, Except.bind, if_neg hother, pure, Except.pure, Bool.false_eq_true, if_false,
    Path.relativeTo?_below, Path.text_relative hne]

end Disk

-- =============================================================== result

namespace Discovery

open FileTree

variable {d : Disk} {settings : Settings} {root : Path} {dir : Place}

/-- A file found below a directory without links further down stands at its
names below that directory. -/
theorem descends_of_mem_files {last : Yield} {p : Path}
    (hstays : StaysBelow d settings root dir)
    (hplain : ∀ names ≠ [], d.tree.isLinkAt (dir ++ names) = false)
    (hwalk : walk d settings root {} [[]] = .ok last) (hmem : p ∈ last.files) :
    ∃ names node, names ≠ [] ∧ p = root.below names ∧ d.tree.Descends root dir names
      ∧ d.tree.node? (dir ++ names) = some node := by
  obtain ⟨⟨below, place, name, ⟨y, listing, real, ⟨turned, rest, hrun⟩, -, -⟩, hname, -, rfl, -⟩,
    content, hfind⟩ := (mem_files_iff hwalk).1 hmem
  obtain ⟨hbelow, hdir⟩ := hrun.descends hstays below (by simp)
  obtain ⟨q, hlocate, -⟩ := exists_place_of_find hfind
  have hno : d.tree.isLinkAt (dir ++ below ++ [name]) = false := by
    rw [List.append_assoc]
    exact hplain _ (by simp)
  -- the file is there, or the path would lead nowhere
  have hlead := (leads_append_iff hbelow.leads (isEntryName_of_mem_namesIn hname)).1
    (leads_of_locate hlocate)
  cases hlead with
  | into _ hnode _ _ =>
      have hinto := hbelow.into hdir hnode hno
      rw [List.append_assoc] at hnode
      exact ⟨below ++ [name], _, by simp, rfl, hinto, hnode⟩
  | follow _ hlink _ =>
      rw [isLinkAt_of_link hlink] at hno
      cases hno

/-- The path by which a file below the root is reported. -/
theorem reportedPath_of_descends {names : List String} {node : Node}
    (hdescends : d.tree.Descends root dir names) (hne : names ≠ [])
    (hnode : d.tree.node? (dir ++ names) = some node) (hroot : d.tree.Leads root dir)
    (htold : d.tree.Tellable root) (hhere : d.tree.IsReal d.tree.here)
    (hasked : (root.below names).text ∈ d.unresolvable ↔ root.text ∈ d.unresolvable) :
    d.reportedPath (root.below names) root = .ok ("/".intercalate names) := by
  have hentries : ∀ name ∈ dir ++ names, isEntryName name = true :=
    fun name => isEntryName_of_mem_place hnode
  by_cases hdeclined : root.text ∈ d.unresolvable
  · -- neither is resolved, and the one is below the other as they are written
    have hfile : d.resolve (root.below names) = .ok (root.below names) :=
      if_pos (hasked.2 hdeclined)
    exact Disk.reportedPath_of_resolve hfile (if_pos hdeclined) hne
  · have hfile : d.resolve (root.below names) = .ok (Path.below ⟨.top, dir⟩ names) :=
      Disk.resolve_of_real (fun hmem => hdeclined (hasked.1 hmem)) hdescends.realPath_eq
        (Leads.isReal hdescends.leads hhere) hentries
    have hbase : d.resolve root = .ok ⟨.top, dir⟩ :=
      Disk.resolve_of_real hdeclined (htold.realPath_eq hroot (Leads.hasNul_eq_false hroot))
        (Leads.isReal hroot hhere) fun name hname => hentries name (List.mem_append_left _ hname)
    exact Disk.reportedPath_of_resolve hfile hbase hne

/-- Below a directory without links further down, whose real path can be
told, a file that is found is reported by its names below the root, and
two files are never reported by the same path. -/
theorem reported_below_root (d : Disk) (settings : Settings) (root : Path) (dir : Place)
    (found : Found) (hhere : d.tree.IsReal d.tree.here) (hroot : d.tree.locate root = .ok dir)
    (hdir : d.tree.node? dir = some .directory) (htold : d.tree.Tellable root)
    (hplain : ∀ names ≠ [], d.tree.isLinkAt (dir ++ names) = false)
    (hfound : filesBelow d settings root = .ok found)
    (hasked : ∀ p ∈ found.files, (p.text ∈ d.unresolvable ↔ root.text ∈ d.unresolvable)) :
    (∀ p ∈ found.files, p = root.below (namesBelow root p)
        ∧ d.reportedPath p root = .ok ("/".intercalate (namesBelow root p))
        ∧ Path.ofText ("/".intercalate (namesBelow root p)) = ⟨.here, namesBelow root p⟩
        ∧ ".." ∉ namesBelow root p)
      ∧ ∀ p ∈ found.files, ∀ q ∈ found.files,
        d.reportedPath p root = d.reportedPath q root → p = q := by
  have hlead := leads_of_locate hroot
  have hstays : StaysBelow d settings root dir := ⟨hlead, hdir, htold, fun _ => hplain⟩
  have hall : ∀ p ∈ found.files, p = root.below (namesBelow root p)
      ∧ d.reportedPath p root = .ok ("/".intercalate (namesBelow root p))
      ∧ Path.ofText ("/".intercalate (namesBelow root p)) = ⟨.here, namesBelow root p⟩
      ∧ ".." ∉ namesBelow root p := by
    intro p hp
    obtain ⟨last, hwalk, hmem⟩ : ∃ last, walk d settings root {} [[]] = .ok last
        ∧ p ∈ last.files := by
      rcases filesBelow_cases hfound with ⟨hfile, -⟩ | ⟨last, hwalk, rfl⟩
      · have hisdir : d.tree.isDirectory root = true := by
          simp [isDirectory, find, hroot, hdir]
        rw [(Disk.root_of_isDirectory hisdir).2] at hfile
        cases hfile
      · exact ⟨last, hwalk, List.mem_reverse.1 hp⟩
    obtain ⟨names, node, hne, rfl, hdescends, hnode⟩ :=
      descends_of_mem_files hstays hplain hwalk hmem
    have hentries : ∀ name ∈ names, isEntryName name = true := fun name hname =>
      isEntryName_of_mem_place hnode (List.mem_append_right _ hname)
    rw [namesBelow_below]
    refine ⟨rfl, ?_, Path.ofText_intercalate hne hentries, ?_⟩
    · exact reportedPath_of_descends hdescends hne hnode hlead htold hhere (hasked _ hp)
    · intro hup
      exact absurd (hentries _ hup) (by decide)
  refine ⟨hall, fun p hp q hq heq => ?_⟩
  obtain ⟨hpath, hreported, htext, -⟩ := hall p hp
  obtain ⟨hpath', hreported', htext', -⟩ := hall q hq
  rw [hreported, hreported'] at heq
  rw [Except.ok.inj heq, htext'] at htext
  rw [hpath, hpath', (Path.mk.inj htext).2]

/-- Two directories and two files of one name, and a link beside them by
which the root is written. -/
def plainTree : Disk where
  tree :=
    { here := ["w", "v"]
      entries := [(["w"], .directory), (["w", "v"], .directory), (["w", "l"], .link "r/s"),
        (["w", "r"], .directory), (["w", "r", "A.java"], .file []),
        (["w", "r", "s"], .directory), (["w", "r", "s", "A.java"], .file [])]
      proper := by decide }

theorem plainTree_reported :
    plainTree.tree.IsReal plainTree.tree.here
      ∧ plainTree.tree.locate ⟨.here, ["..", "l", ".."]⟩ = .ok ["w", "r"]
      ∧ plainTree.tree.Tellable ⟨.here, ["..", "l", ".."]⟩
      ∧ (∀ names ≠ [], plainTree.tree.isLinkAt (["w", "r"] ++ names) = false)
      ∧ plainTree.reportedPath ⟨.here, ["..", "l", "..", "s", "A.java"]⟩ ⟨.here, ["..", "l", ".."]⟩
        = .ok "s/A.java" := by
  have hhere : plainTree.tree.IsReal plainTree.tree.here := by
    have hinits : ∀ above ∈ ["w", "v"].inits, plainTree.tree.isLinkAt above = false := by decide
    exact fun above habove => hinits above ((List.mem_inits _ _).2 habove)
  have hplain : ∀ names ≠ [], plainTree.tree.isLinkAt (["w", "r"] ++ names) = false := by
    have hentries : ∀ e ∈ plainTree.tree.entries, e.1.take 2 = ["w", "r"] → e.2.isLink = false := by
      decide
    exact fun names _ => isLinkAt_eq_false fun node hmem => hentries _ hmem rfl
  have htold : plainTree.tree.Tellable ⟨.here, ["..", "l", ".."]⟩ :=
    ⟨_, _, .up rfl (.follow rfl rfl rfl (.into rfl rfl (.into rfl rfl .done)) (.up rfl .done))⟩
  have hstart : Run plainTree {} ⟨.here, ["..", "l", ".."]⟩ [] {} [[]] := .start
  have hfound := filesBelow_of_run rfl ((hstart.next rfl).next rfl)
  refine ⟨hhere, rfl, htold, hplain, ?_⟩
  obtain ⟨hall, -⟩ := reported_below_root plainTree {} ⟨.here, ["..", "l", ".."]⟩ ["w", "r"] _
    hhere rfl rfl htold hplain hfound fun _ _ => iff_of_false nofun nofun
  exact (hall ⟨.here, ["..", "l", "..", "s", "A.java"]⟩ (by decide)).2.1

theorem isReal_nested {depth : Nat} (h : depth ≤ 16) :
    Disk.astray.tree.IsReal (Disk.nested depth) := by
  induction depth with
  | zero => exact isReal_nil.append rfl
  | succ depth ih =>
      rw [← Disk.nested_succ]
      refine (ih (by omega)).append (isLinkAt_of_directory ?_)
      rw [Disk.nested_succ]
      exact Disk.node?_nested h

/-- No link stands below the directory that the root leads to. -/
theorem astray_plain (names : List String) :
    Disk.astray.tree.isLinkAt (["w", "o"] ++ names) = false := by
  have ho : Disk.longName ≠ "o" := Disk.longName_ne (by decide)
  refine isLinkAt_eq_false fun node hmem => ?_
  rcases List.mem_append.1 hmem with hmem | hmem
  · have hentries : ∀ e ∈ Disk.outermost, e.1.take 2 = ["w", "o"] → e.2.isLink = false := by decide
    exact hentries _ hmem rfl
  · -- entries further in have the long name second
    rcases List.mem_append.1 hmem with hmem | hmem
    · obtain ⟨e, -, heq⟩ := List.mem_map.1 hmem
      exact absurd (List.cons.inj (List.cons.inj (congrArg Prod.fst heq)).2).1 ho
    · obtain ⟨e, -, heq⟩ := List.mem_map.1 hmem
      exact absurd (List.cons.inj (List.cons.inj (congrArg Prod.fst heq)).2).1 ho

/-- Where the real path of the root cannot be told, two files below it are
reported by one path. -/
theorem astray_reported_alike :
    Disk.astray.tree.IsReal Disk.astray.tree.here
      ∧ Disk.astray.tree.locate Disk.astrayRoot = .ok ["w", "o"]
      ∧ Disk.astray.tree.node? ["w", "o"] = some .directory
      ∧ (∀ names ≠ [], Disk.astray.tree.isLinkAt (["w", "o"] ++ names) = false)
      ∧ (∃ found, filesBelow Disk.astray { extension := "", followLinks := false } Disk.astrayRoot
          = .ok found
        ∧ found.files = [Disk.astrayRoot.below ["A.java"], Disk.astrayRoot.below ["B.java"]])
      ∧ Disk.astray.reportedPath (Disk.astrayRoot.below ["A.java"]) Disk.astrayRoot = .ok "B.java"
      ∧ Disk.astray.reportedPath (Disk.astrayRoot.below ["B.java"]) Disk.astrayRoot
        = .ok "B.java" := by
  have hentries : ∀ name ∈ Disk.nested 16 ++ ["B.java"], isEntryName name = true := by
    intro name hname
    rcases List.mem_append.1 hname with hname | hname
    · exact List.all_eq_true.1 (Disk.all_nested 16) name hname
    · rw [List.mem_singleton.1 hname]
      decide
  have hplace : Disk.astray.tree.IsReal (Disk.nested 16 ++ ["B.java"]) := by
    refine (isReal_nested (Nat.le_refl 16)).append ?_
    rw [isLinkAt, Disk.node?_innermost]
    rfl
  have hroot : Disk.astray.resolve Disk.astrayRoot = .ok ⟨.top, Disk.nested 16⟩ :=
    Disk.resolve_of_real List.not_mem_nil Disk.realPath_astrayRoot (isReal_nested (Nat.le_refl 16))
      fun name hname => hentries name (List.mem_append_left _ hname)
  have hfirst : Disk.astray.resolve (Disk.astrayRoot.below ["A.java"])
      = .ok (Path.below ⟨.top, Disk.nested 16⟩ ["B.java"]) :=
    Disk.resolve_of_real List.not_mem_nil Disk.realPath_astray_link hplace hentries
  have hsecond : Disk.astray.resolve (Disk.astrayRoot.below ["B.java"])
      = .ok (Path.below ⟨.top, Disk.nested 16⟩ ["B.java"]) :=
    Disk.resolve_of_real List.not_mem_nil Disk.realPath_astray_file hplace hentries
  refine ⟨isReal_nested (Nat.zero_le 16), locate_astrayRoot, rfl, fun names _ => astray_plain names,
    filesBelow_astray, ?_, ?_⟩
  · exact Disk.reportedPath_of_resolve hfirst hroot (List.cons_ne_nil _ _)
  · exact Disk.reportedPath_of_resolve hsecond hroot (List.cons_ne_nil _ _)

end Discovery

end DocAudit
