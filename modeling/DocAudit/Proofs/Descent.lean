/-
Going down without links. A walk that follows no link, or that finds none
below its root, stays in the tree below the directory that the root leads
to: the directory `below` the root is the place `below` that directory
(`Run.descends`). Its real path is that place, written from the top, if
the real path of the root can be told. Different directories then have
different real paths, so none is ever taken for one met before
(`Run.meet_ne_seenBefore`).

# Where the real path goes astray

The condition on the root cannot be dropped. A link that is too long to be
looked at is kept in the real path as it is written, and a `..` behind it
takes its name away instead of leading out of where it points to. The real
path is then that of another directory, and what stands there is mistaken
for what stands below the root (`Disk.astray`).
-/
import DocAudit.Proofs.Reachable
import DocAudit.Proofs.Resilience

namespace DocAudit

-- ======================================================== written names

theorem slash_not_mem_of_isEntryName {name : String} (h : isEntryName name = true) :
    '/' ∉ name.toList := by
  simp only [isEntryName, Bool.and_eq_true] at h
  simpa using h.1.2

namespace Path

/-- What comes before the first slash is one piece. -/
theorem splitFrom_append {chars : List Char} (h : '/' ∉ chars) (current rest : List Char) :
    splitFrom current (chars ++ '/' :: rest) = (current.reverse ++ chars) :: splitFrom [] rest := by
  induction chars generalizing current with
  | nil => simp [splitFrom]
  | cons c chars ih =>
      rw [List.mem_cons, not_or] at h
      rw [List.cons_append, splitFrom, if_neg (Ne.symm h.1), ih h.2]
      simp

/-- Names with slashes between them are read back. -/
theorem pieces_intercalate {names : List String} (hne : names ≠ [])
    (hslash : ∀ name ∈ names, '/' ∉ name.toList) : pieces ("/".intercalate names) = names := by
  induction names with
  | nil => exact absurd rfl hne
  | cons name rest ih =>
      obtain ⟨hname, hrest⟩ := List.forall_mem_cons.1 hslash
      cases rest with
      | nil =>
          rw [String.intercalate_singleton]
          exact Disk.pieces_of_no_slash hname
      | cons next more =>
          have htext : ("/".intercalate (name :: next :: more)).toList
              = name.toList ++ '/' :: ("/".intercalate (next :: more)).toList := by
            rw [String.intercalate_cons_cons, String.toList_append, String.toList_append,
              List.append_assoc]
            rfl
          have hpieces := ih nofun hrest
          unfold pieces at hpieces ⊢
          rw [htext, splitFrom_append hname, List.map_cons, hpieces]
          simp

theorem size_intercalate_replicate (name last : String) (k : Nat) :
    ("/".intercalate (List.replicate k name ++ [last])).utf8ByteSize
      = k * (name.utf8ByteSize + 1) + last.utf8ByteSize := by
  induction k with
  | zero => simp
  | succ k ih =>
      have hsize : "/".utf8ByteSize = 1 := by decide
      rw [List.replicate_succ, List.cons_append, String.intercalate_cons_of_ne_nil (by simp),
        String.utf8ByteSize_append, String.utf8ByteSize_append, ih, hsize, Nat.succ_mul]
      omega

end Path

namespace FileTree

variable {t : FileTree} {p q r : Path} {pieces more : List String} {m n : Nat}

theorem isLinkAt_of_directory {place : Place} (h : t.node? place = some .directory) :
    t.isLinkAt place = false := by
  unfold isLinkAt
  rw [h]

-- ============================================================ expansion

theorem Expands.append (h : t.Expands p pieces q n) (h' : t.Expands q more r m) :
    t.Expands p (pieces ++ more) r (n + m) := by
  induction h with
  | done =>
      rw [Nat.zero_add]
      exact h'
  | stay hstep _ ih => exact .stay hstep (ih h')
  | up hstep _ ih => exact .up hstep (ih h')
  | into hstep hplain _ ih => exact .into hstep hplain (ih h')
  | @follow _ _ _ _ _ _ _ k n hstep hlink hshort htarget _ _ ih =>
      have hall := Expands.follow hstep hlink hshort htarget (ih h')
      rwa [show k + (n + m) + 1 = k + n + 1 + m by omega] at hall

/-- What the names of a path expand to stands for the place that the path
leads to. -/
theorem Expands.textualPlace_eq {place : Place} (h : t.Expands p.base p.names q n)
    (hlead : t.Leads p place) : t.textualPlace q = place := by
  have hall : LeadsTo t (t.textualPlace p.base) (p.names.map Step.ofName ++ []) place := by
    rw [textualPlace_base, List.append_nil]
    exact hlead
  exact (LeadsTo.unique (h.leadsTo hall) .done).symm

-- ============================================================== descent

/-- The names `below` a root lead to the place `below` the directory that
the root leads to, and the real path there can be told. -/
structure Descends (t : FileTree) (root : Path) (dir : Place) (below : List String) : Prop where
  leads : t.Leads (root.below below) (dir ++ below)
  told : t.Tellable (root.below below)

namespace Descends

variable {root : Path} {dir : Place} {below : List String} {name : String} {node : Node}

theorem start (hroot : t.Leads root dir) (htold : t.Tellable root) :
    t.Descends root dir [] := by
  refine ⟨?_, ?_⟩
  · rw [Path.below_nil, List.append_nil]
    exact hroot
  · rw [Path.below_nil]
    exact htold

/-- One name further down, where no link stands. -/
theorem into (h : t.Descends root dir below) (hdir : t.node? (dir ++ below) = some .directory)
    (hnode : t.node? (dir ++ below ++ [name]) = some node)
    (hplain : t.isLinkAt (dir ++ below ++ [name]) = false) :
    t.Descends root dir (below ++ [name]) := by
  have hname := isEntryName_of_node? hnode
  refine ⟨?_, ?_⟩
  · rw [← List.append_assoc]
    exact (Discovery.leads_append_iff (d := ⟨t, [], [], []⟩) h.leads hname).2
      (.into hdir hnode hplain .done)
  · obtain ⟨q, n, hexp⟩ := h.told
    rw [← hexp.textualPlace_eq h.leads] at hplain
    have hlast : t.Expands q [name] (q.below [name]) 0 :=
      .into (Step.ofName_of_isEntryName hname) hplain .done
    have hnames : (root.below (below ++ [name])).names = (root.below below).names ++ [name] :=
      (List.append_assoc ..).symm
    refine ⟨q.below [name], n + 0, ?_⟩
    rw [hnames]
    exact hexp.append hlast

theorem realPath_eq (h : t.Descends root dir below) :
    t.realPath (root.below below) = .ok ⟨.top, dir ++ below⟩ :=
  h.told.realPath_eq h.leads (Leads.hasNul_eq_false h.leads)

end Descends

end FileTree

namespace Discovery

open FileTree

variable {d : Disk} {settings : Settings} {root : Path} {dir : Place}

-- ================================================================ turns

theorem list_of_locate {written : String} {p : Path} {place : Place}
    (hgranted : d.unlistable.lookup written = none) (hnul : p.hasNul = false)
    (hshort : isTooLong written = false) (hlocate : d.tree.locate p = .ok place)
    (hdir : d.tree.node? place = some .directory) :
    list d written p = .ok ⟨place, hdir, d.tree.namesIn place⟩ := by
  unfold list
  rw [hgranted, hnul, hshort]
  simp [hlocate, hdir]

theorem meet_of_list {below : List String} {listing : Listing d.tree} {real : Path}
    (hlist : list d (walkPath root below) (root.below below) = .ok listing)
    (hreal : d.tree.realPath (root.below below) = .ok real) (seen : List Path) :
    meet d root seen below = .ok (if real ∈ seen then .seenBefore else .new listing real) := by
  unfold meet
  rw [hlist]
  dsimp only
  rw [hreal]

theorem hasExtension_empty (p : Path) : p.hasExtension "" = true :=
  List.isSuffixOf_iff_suffix.2 (List.nil_suffix)

theorem gather_cons_file {extension : String} {dir : Path} {name : String} (y : Yield)
    (rest : List String) (hext : (dir.below [name]).hasExtension extension = true)
    (hfile : d.isFile (dir.below [name]) = .ok true) :
    gather d extension dir y (name :: rest)
      = gather d extension dir (y.addFile (dir.below [name])) rest := by
  simp only [gather, hext, hfile, if_true]

theorem turn_of_new {y z : Yield} {below : List String} {listing : Listing d.tree} {real : Path}
    (hmeet : meet d root y.seen below = .ok (.new listing real))
    (hgather : gather d settings.extension (root.below below) (y.enter real)
      (Stop.nonDirectories ⟨walkPath root below, root.below below, listing.place⟩ d
        listing.names) = .ok z) :
    turn d settings root y below
      = .ok (z, Stop.enterable ⟨walkPath root below, root.below below, listing.place⟩ d settings
        listing.names) := by
  unfold turn
  rw [hmeet]
  dsimp only
  rw [hgather]

theorem turn_of_seen (settings : Settings) {y : Yield} {below : List String}
    (h : meet d root y.seen below = .ok .seenBefore) :
    ∃ z, turn d settings root y below = .ok (z, []) ∧ z.files = y.files := by
  unfold turn
  rw [h]
  exact ⟨_, rfl, rfl⟩

-- ================================================================ walks

/-- What keeps a walk below the directory that its root leads to: the real
path of the root can be told, and links are not followed or there are none
further down. -/
structure StaysBelow (d : Disk) (settings : Settings) (root : Path) (dir : Place) : Prop where
  leads : d.tree.Leads root dir
  isDirectory : d.tree.node? dir = some .directory
  told : d.tree.Tellable root
  plain : settings.followLinks = true → ∀ names ≠ [], d.tree.isLinkAt (dir ++ names) = false

/-- A subdirectory to go into is a directory itself if it is no link. -/
theorem node?_of_mem_enterable {stop : Stop} {names : List String} {name : String}
    (h : name ∈ stop.enterable d settings names)
    (hplain : settings.followLinks = true → d.tree.isLinkAt (stop.place ++ [name]) = false) :
    d.tree.node? (stop.place ++ [name]) = some .directory := by
  have htest := (List.mem_filter.1 h).2
  simp only [Bool.and_eq_true, Bool.or_eq_true, Bool.not_eq_true'] at htest
  obtain ⟨⟨hisdir, -⟩, hlinks⟩ := htest
  have hno : d.tree.isLinkAt (stop.place ++ [name]) = false := hlinks.elim hplain id
  unfold Stop.isDirectory at hisdir
  split at hisdir
  · assumption
  · rename_i hlink
    rw [isLinkAt_of_link hlink] at hno
    cases hno
  · cases hisdir

namespace Run

variable {turned pending : List (List String)} {y : Yield}

/-- Every directory that the walk turns to is a directory below that of the
root. -/
theorem descends (h : Run d settings root turned y pending)
    (hstays : StaysBelow d settings root dir) :
    ∀ below ∈ turned ++ pending, d.tree.Descends root dir below
      ∧ d.tree.node? (dir ++ below) = some .directory := by
  induction h with
  | start =>
      intro below hmem
      rw [List.nil_append, List.mem_singleton] at hmem
      rw [hmem, List.append_nil]
      exact ⟨.start hstays.leads hstays.told, hstays.isDirectory⟩
  | @next turned rest y z last inner _ hturn ih =>
      obtain ⟨hlast, hdir⟩ := ih last (by simp)
      intro below hmem
      rw [List.cons_append, List.mem_cons, List.mem_append, List.mem_append] at hmem
      rcases hmem with rfl | hmem | hmem | hmem
      · exact ⟨hlast, hdir⟩
      · exact ih below (List.mem_append_left _ hmem)
      · obtain ⟨name, hname, rfl⟩ := List.mem_map.1 hmem
        cases turn_cases hturn with
        | passBy => cases hname
        | turnBack => cases hname
        | @goInto listing real _ hmeet _ =>
            obtain ⟨-, -, -, hlocate, -⟩ := list_eq_ok (meet_eq_new hmeet).1
            have hplace : listing.place = dir ++ last :=
              (leads_of_locate hlocate).unique hlast.leads
            have hnode := node?_of_mem_enterable hname fun hfollow => by
              rw [hplace, List.append_assoc]
              exact hstays.plain hfollow _ (by simp)
            dsimp only at hnode
            rw [hplace] at hnode
            refine ⟨hlast.into hdir hnode (isLinkAt_of_directory hnode), ?_⟩
            rw [← List.append_assoc]
            exact hnode
      · exact ih below (List.mem_append_right _ (List.mem_cons_of_mem _ hmem))

/-- What was gone into are directories turned to, told by their places. -/
theorem exists_of_mem_seen (h : Run d settings root turned y pending)
    (hstays : StaysBelow d settings root dir) :
    ∀ real ∈ y.seen, ∃ below ∈ turned, real = ⟨.top, dir ++ below⟩ := by
  induction h with
  | start => nofun
  | @next turned rest y z last inner hrun hturn ih =>
      intro real hmem
      have hold : real ∈ y.seen → ∃ below ∈ last :: turned, real = ⟨.top, dir ++ below⟩ := by
        intro hmem
        obtain ⟨below, hbelow, hreal⟩ := ih real hmem
        exact ⟨below, List.mem_cons_of_mem _ hbelow, hreal⟩
      rcases (turn_cases hturn).seen_eq with ⟨hseen, -, -⟩ | ⟨listing, new, hmeet, hseen⟩
      · rw [hseen] at hmem
        exact hold hmem
      · rw [hseen] at hmem
        rcases List.mem_cons.1 hmem with rfl | hmem
        · obtain ⟨hlast, -⟩ := hrun.descends hstays last (by simp)
          have hreal := (meet_eq_new hmeet).2.1
          rw [hlast.realPath_eq] at hreal
          exact ⟨last, List.mem_cons_self .., (Except.ok.inj hreal).symm⟩
        · exact hold hmem

/-- No directory is taken for one that was gone into before. -/
theorem meet_ne_seenBefore {below : List String} {rest : List (List String)}
    (h : Run d settings root turned y (below :: rest))
    (hstays : StaysBelow d settings root dir) : meet d root y.seen below ≠ .ok .seenBefore := by
  intro hmeet
  obtain ⟨hbelow, -⟩ := h.descends hstays below (by simp)
  -- its real path would be that of another directory turned to
  have hseen : (⟨.top, dir ++ below⟩ : Path) ∈ y.seen := by
    unfold meet at hmeet
    split at hmeet
    · cases hmeet
    · cases hmeet
    · rw [hbelow.realPath_eq] at hmeet
      dsimp only at hmeet
      split at hmeet
      · assumption
      · cases hmeet
  obtain ⟨other, hother, heq⟩ := h.exists_of_mem_seen hstays _ hseen
  obtain rfl : below = other := by simpa using heq
  exact (List.nodup_append.1 h.nodup).2.2 below hother below (List.mem_cons_self ..) rfl

end Run

end Discovery

-- =============================================================== astray

/-- Keys of a table that are told apart may be replaced. -/
theorem lookup_map_key {α β γ : Type} [BEq α] [LawfulBEq α] [BEq β] [LawfulBEq β] {f : α → β}
    (hf : Function.Injective f) (table : List (α × γ)) (key : α) :
    (table.map (Prod.map f id)).lookup (f key) = table.lookup key := by
  induction table with
  | nil => rfl
  | cons e table ih =>
      obtain ⟨other, value⟩ := e
      have hkey : (f key == f other) = (key == other) := by
        rw [Bool.eq_iff_iff, beq_iff_eq, beq_iff_eq, hf.eq_iff]
      rw [List.map_cons, Prod.map, List.lookup_cons, List.lookup_cons, hkey, ih]
      rfl

namespace Disk

open FileTree

/-- A name nearly as long as names can be. -/
def longName : String :=
  String.ofList (List.replicate 254 'n')

theorem size_repeated (k : Nat) : (String.ofList (List.replicate k 'n')).utf8ByteSize = k := by
  induction k with
  | zero => rfl
  | succ k ih =>
      have hsize : (String.singleton 'n').utf8ByteSize = 1 := by decide
      rw [List.replicate_succ, String.ofList_cons, String.utf8ByteSize_append, hsize, ih,
        Nat.add_comm]

theorem size_longName : longName.utf8ByteSize = 254 :=
  size_repeated 254

theorem longName_ne {name : String} (h : name.utf8ByteSize < 254) : longName ≠ name := by
  rintro rfl
  rw [size_longName] at h
  omega

theorem contains_longName {c : Char} (h : c ≠ 'n') : longName.toList.contains c = false := by
  have htext : longName.toList = List.replicate 254 'n' := String.toList_ofList
  refine Bool.eq_false_iff.2 fun hmem => h ?_
  rw [List.contains_iff_mem, htext] at hmem
  exact List.eq_of_mem_replicate hmem

theorem isEntryName_longName : isEntryName longName = true := by
  have hempty : longName ≠ "" := longName_ne (by decide)
  have hdot : longName ≠ "." := longName_ne (by decide)
  have hdots : longName ≠ ".." := longName_ne (by decide)
  rw [isEntryName, contains_longName (by decide), contains_longName (by decide),
    bne_iff_ne.2 hempty, bne_iff_ne.2 hdot, bne_iff_ne.2 hdots]
  rfl

/-- Directories of that name one in the other. -/
def nested (depth : Nat) : Place :=
  "w" :: List.replicate depth longName

theorem nested_succ (depth : Nat) : nested depth ++ [longName] = nested (depth + 1) := by
  simp [nested, List.replicate_succ']

theorem length_nested (depth : Nat) : (nested depth).length = depth + 1 := by
  simp [nested]

theorem all_nested (depth : Nat) : (nested depth).all isEntryName = true := by
  simp only [nested, List.all_cons, List.all_replicate, isEntryName_longName, ite_self,
    Bool.and_true]
  decide

/-- The text of sixteen such names. -/
def longTarget : String :=
  "/".intercalate (List.replicate 16 longName)

theorem pieces_longTarget : Path.pieces longTarget = List.replicate 16 longName := by
  refine Path.pieces_intercalate nofun fun name hname => ?_
  rw [List.eq_of_mem_replicate hname]
  exact slash_not_mem_of_isEntryName isEntryName_longName

theorem longTarget_relative : ¬"/".toList.isPrefixOf longTarget.toList = true := by
  intro hprefix
  obtain ⟨rest, hrest⟩ := List.isPrefixOf_iff_prefix.1 hprefix
  -- the first piece would be empty
  have hpieces := pieces_longTarget
  rw [Path.pieces, ← hrest, List.replicate_succ] at hpieces
  exact longName_ne (by decide) (List.cons.inj hpieces).1.symm

/-- What stands near the top: a link into the innermost of the nested
directories, and a directory with two files and a directory in it. -/
def outermost : List (Place × Node) :=
  [(["w"], .directory), (["w", "r"], .link longTarget), (["w", "o"], .directory),
    (["w", "o", "A.java"], .file []), (["w", "o", "B.java"], .file []),
    (["w", "o", "x"], .directory), (["w", "o", "x", "C.java"], .file [])]

/-- The links in the innermost of the nested directories. The name of the
first makes its path too long. -/
def innermost : List (String × Node) :=
  [("longer-link-name", .link "/w/o/x"), ("x", .link "."), ("A.java", .link "B.java")]

/-- A tree in which the real path of a directory is found to be that of
another. -/
def astray : Disk where
  tree :=
    { here := ["w"]
      entries := outermost ++ (innermost.map (Prod.map (fun name => nested 16 ++ [name]) id)
        ++ ((List.range 16).map fun k => (k, Node.directory)).map
          (Prod.map (fun k => nested (k + 1)) id))
      proper := by
        refine List.forall_mem_append.2 ⟨?_, List.forall_mem_append.2 ⟨?_, ?_⟩⟩
        · have hname : ["w", "r"].all isEntryName = true := by decide
          have hnul := nul_not_mem_of_isEntryName isEntryName_longName
          simp only [outermost, List.forall_mem_cons]
          refine ⟨by decide, ?_, by decide, by decide, by decide, by decide, by decide, nofun⟩
          simp [isEntry, hname, longTarget, hnul]
        · intro e he
          obtain ⟨⟨name, node⟩, hmem, rfl⟩ := List.mem_map.1 he
          have hentry : ∀ e ∈ innermost, isEntry ([e.1], e.2) = true := by decide
          simpa [isEntry, all_nested] using hentry _ hmem
        · intro e he
          obtain ⟨⟨k, node⟩, hmem, rfl⟩ := List.mem_map.1 he
          obtain ⟨k, -, hk⟩ := List.mem_map.1 hmem
          cases hk
          simp [isEntry, all_nested] }

/-- The path through both links and up again leads to the directory `o`. -/
def astrayRoot : Path :=
  ⟨.here, ["r", "longer-link-name", ".."]⟩

theorem node?_astray (rest : List String) :
    astray.tree.node? ("w" :: longName :: rest)
      = ((innermost.map (Prod.map (fun name => nested 16 ++ [name]) id)).lookup
          ("w" :: longName :: rest)).or
        ((((List.range 16).map fun k => (k, Node.directory)).map
          (Prod.map (fun k => nested (k + 1)) id)).lookup ("w" :: longName :: rest)) := by
  have hr : longName ≠ "r" := longName_ne (by decide)
  have ho : longName ≠ "o" := longName_ne (by decide)
  have houter : outermost.lookup ("w" :: longName :: rest) = none := by
    rw [List.lookup_eq_none_iff]
    simp [outermost, hr, ho]
  rw [node?, if_neg (List.cons_ne_nil _ _)]
  show (outermost ++ (_ ++ _)).lookup _ = _
  rw [List.lookup_append, houter, Option.none_or, List.lookup_append]

theorem node?_nested {depth : Nat} (h : depth ≤ 16) :
    astray.tree.node? (nested depth) = some .directory := by
  cases depth with
  | zero => rfl
  | succ k =>
      have hinner : (innermost.map (Prod.map (fun name => nested 16 ++ [name]) id)).lookup
          (nested (k + 1)) = none := by
        rw [List.lookup_eq_none_iff]
        intro e he
        obtain ⟨e, -, rfl⟩ := List.mem_map.1 he
        rw [bne_iff_ne]
        intro heq
        have hlen := congrArg List.length heq
        simp only [Prod.map, List.length_append, List.length_singleton, length_nested] at hlen
        omega
      have hinj : Function.Injective fun k => nested (k + 1) := by
        intro a b heq
        simpa [length_nested] using congrArg List.length heq
      have hrange : ∀ k < 16, ((List.range 16).map fun k => (k, Node.directory)).lookup k
          = some .directory := by decide
      refine (node?_astray (List.replicate k longName)).trans ?_
      show ((List.lookup (nested (k + 1)) _).or (List.lookup (nested (k + 1)) _)) = _
      rw [hinner, Option.none_or]
      exact (lookup_map_key hinj _ k).trans (hrange k h)

theorem node?_innermost (name : String) :
    astray.tree.node? (nested 16 ++ [name]) = innermost.lookup name := by
  have hdirs : (((List.range 16).map fun k => (k, Node.directory)).map
      (Prod.map (fun k => nested (k + 1)) id)).lookup (nested 16 ++ [name]) = none := by
    rw [List.lookup_eq_none_iff]
    intro e he
    obtain ⟨⟨j, node⟩, hmem, rfl⟩ := List.mem_map.1 he
    obtain ⟨k, hk, hj⟩ := List.mem_map.1 hmem
    cases hj
    have hlt := List.mem_range.1 hk
    rw [bne_iff_ne]
    intro heq
    have hlen := congrArg List.length heq
    simp only [Prod.map, List.length_append, List.length_singleton, length_nested] at hlen
    omega
  have hinj : Function.Injective fun name => nested 16 ++ [name] := by
    intro a b heq
    simpa using heq
  refine (node?_astray (List.replicate 15 longName ++ [name])).trans ?_
  show ((List.lookup (nested 16 ++ [name]) _).or (List.lookup (nested 16 ++ [name]) _)) = _
  rw [hdirs, Option.or_none]
  exact lookup_map_key hinj innermost name

theorem locateFrom_nested (links : Nat) {depth more : Nat} (h : depth + more ≤ 16)
    (rest : List Step) :
    astray.tree.locateFrom links (nested depth) (List.replicate more (.into longName) ++ rest)
      = astray.tree.locateFrom links (nested (depth + more)) rest := by
  induction more generalizing depth with
  | zero => rfl
  | succ more ih =>
      have hnode : astray.tree.node? (nested depth ++ [longName]) = some .directory := by
        rw [nested_succ]
        exact node?_nested (by omega)
      rw [List.replicate_succ, List.cons_append, locateFrom_into links (node?_nested (by omega))
        (by rw [size_longName]; decide) hnode (isLinkAt_of_directory hnode), nested_succ,
        ih (by omega), Nat.add_assoc, Nat.add_comm 1 more]

/-- Below the root the lookup goes on from the directory `o`. -/
theorem locate_astray {names : List String}
    (hshort : isTooLong (astrayRoot.below names).text = false) :
    astray.tree.locate (astrayRoot.below names)
      = astray.tree.locateFrom 38 ["w", "o"] (names.map Step.ofName) := by
  have hsteps : (astrayRoot.below names).steps
      = .into "r" :: .into "longer-link-name" :: .up :: names.map Step.ofName := rfl
  have hfirst : ∀ rest, astray.tree.advance ["w"] (.into "r" :: rest)
      = .linkAhead ["w"] longTarget rest := fun _ => advance_link rfl (by decide) rfl
  have hstart : targetStart ["w"] longTarget = nested 0 := by
    rw [targetStart, if_neg longTarget_relative]
    rfl
  have htarget : Step.ofText longTarget = List.replicate 16 (.into longName) := by
    rw [Step.ofText, pieces_longTarget, List.map_replicate,
      Step.ofName_of_isEntryName isEntryName_longName]
  have hsecond : ∀ rest, astray.tree.advance (nested 16) (.into "longer-link-name" :: rest)
      = .linkAhead (nested 16) "/w/o/x" rest := by
    intro rest
    refine advance_link (node?_nested (Nat.le_refl 16)) (by decide) ?_
    rw [node?_innermost]
    rfl
  rw [locate, hshort, if_neg Bool.false_ne_true, hsteps]
  show astray.tree.locateFrom (39 + 1) ["w"] _ = _
  rw [locateFrom, hfirst]
  show astray.tree.locateFrom (38 + 1) _ _ = _
  rw [hstart, htarget, locateFrom_nested _ (Nat.le_refl 16), locateFrom, hsecond]
  rfl

/-- A real path inside the nested directories. -/
def within (depth : Nat) : Path :=
  ⟨.here, List.replicate depth longName⟩

theorem within_succ (depth : Nat) : (within depth).below [longName] = within (depth + 1) := by
  simp [within, Path.below, List.replicate_succ']

theorem up_within (depth : Nat) {name : String} (h : name ≠ "..") :
    ((within depth).below [name]).up = within depth := by
  simp [Path.up, Path.below, within, h]

theorem textualPlace_within (depth : Nat) :
    astray.tree.textualPlace (within depth) = nested depth := by
  induction depth with
  | zero => rfl
  | succ depth ih =>
      have hup : longName ≠ ".." := longName_ne (by decide)
      rw [← within_succ, textualPlace_below _ _ hup, ih, nested_succ]

theorem hasNul_within (depth : Nat) {name : String} (h : isEntryName name = true) :
    ((within depth).below [name]).hasNul = false := by
  refine Path.hasNul_below (Path.hasNul_eq_false_iff.2 fun n hn => ?_)
    (nul_not_mem_of_isEntryName h)
  rw [List.eq_of_mem_replicate hn]
  exact nul_not_mem_of_isEntryName isEntryName_longName

/-- In the innermost directory names of more than 15 bytes make a path too
long. -/
theorem isTooLong_within (name : String) :
    isTooLong ((within 16).below [name]).text = decide (15 < name.utf8ByteSize) := by
  have htext : ((within 16).below [name]).text
      = "/".intercalate (List.replicate 16 longName ++ [name]) := by
    simp [Path.text, Path.below, within, Anchor.text]
  rw [isTooLong, htext, Path.size_intercalate_replicate, size_longName, maxPathBytes,
    decide_eq_decide]
  omega

theorem node?_within {name : String} (h : name ≠ "..") :
    astray.tree.node? (astray.tree.textualPlace ((within 16).below [name]))
      = innermost.lookup name := by
  rw [textualPlace_below _ _ h, textualPlace_within, node?_innermost]

theorem expand_within (fuel : Nat) (met : MetLinks) {depth more : Nat} (h : depth + more ≤ 16)
    (rest : List String) :
    astray.tree.expand fuel met (within depth) (List.replicate more longName ++ rest)
      = astray.tree.expand fuel met (within (depth + more)) rest := by
  induction more generalizing depth with
  | zero => rfl
  | succ more ih =>
      have hplain : astray.tree.linkAt? ((within depth).below [longName]) = none := by
        refine linkAt?_eq_none _ (isLinkAt_of_directory ?_)
        rw [within_succ, textualPlace_within]
        exact node?_nested (by omega)
      rw [List.replicate_succ, List.cons_append,
        expand_into fuel (Step.ofName_of_isEntryName isEntryName_longName)
          (hasNul_within _ isEntryName_longName) hplain,
        within_succ, ih (by omega), Nat.add_assoc, Nat.add_comm 1 more]

/-- The links met on the way along the root. -/
def metRoot : MetLinks :=
  [(Path.below ⟨.here, []⟩ ["r"], some (within 16)), (Path.below ⟨.here, []⟩ ["r"], none)]

theorem lookup_metRoot (name : String) : metRoot.lookup ((within 16).below [name]) = none := by
  have hne : (within 16).below [name] ≠ Path.below ⟨.here, []⟩ ["r"] := by
    intro heq
    have hlen := congrArg (fun p : Path => p.names.length) heq
    simp [within, Path.below] at hlen
  rw [List.lookup_eq_none_iff]
  simp [metRoot, hne]

/-- The real path of the root is found in the innermost directory: the link
there is not looked at, and `..` takes its name away. -/
theorem expand_astray (fuel : Nat) (rest : List String) :
    astray.tree.expand (fuel + 1) [] astrayRoot.base (astrayRoot.names ++ rest)
      = astray.tree.expand (fuel + 1) metRoot (within 16) rest := by
  have hlink : astray.tree.linkAt? (Path.below ⟨.here, []⟩ ["r"]) = some longTarget :=
    linkAt?_eq_some _ (by decide) rfl
  have htarget : astray.tree.expand fuel [(Path.below ⟨.here, []⟩ ["r"], none)]
      (Path.atTarget ⟨.here, []⟩ longTarget) (Path.pieces longTarget)
        = .ok ⟨within 16, false, [(Path.below ⟨.here, []⟩ ["r"], none)]⟩ := by
    have hall := expand_within fuel [(Path.below ⟨.here, []⟩ ["r"], none)]
      (Nat.le_refl (0 + 16)) []
    rw [List.append_nil, expand_nil] at hall
    rw [Path.atTarget, if_neg longTarget_relative, pieces_longTarget]
    exact hall
  have hunseen : astray.tree.linkAt? ((within 16).below ["longer-link-name"]) = none := by
    rw [linkAt?, isTooLong_within, if_pos (by decide)]
  show astray.tree.expand (fuel + 1) [] ⟨.here, []⟩ ("r" :: "longer-link-name" :: ".." :: rest) = _
  rw [expand_fresh fuel (Step.ofName_of_isEntryName (by decide)) (by decide) hlink rfl htarget,
    expand_into _ (Step.ofName_of_isEntryName (by decide)) (hasNul_within _ (by decide)) hunseen,
    expand_up _ (by decide), up_within _ (by decide), metRoot]

theorem realPath_astray {names : List String} {q : Path}
    (h : ∀ fuel, ∃ met, astray.tree.expand (fuel + 1) metRoot (within 16) names
      = .ok ⟨q, false, met⟩) :
    astray.tree.realPath (astrayRoot.below names) = .ok (astray.tree.absolute q) := by
  have hall := expand_astray ((astray.tree.here.length + 2) * astray.tree.linkCount) names
  obtain ⟨met, hmet⟩ := h ((astray.tree.here.length + 2) * astray.tree.linkCount)
  have hbase : (astrayRoot.below names).base = astrayRoot.base := rfl
  have hnames : (astrayRoot.below names).names = astrayRoot.names ++ names := rfl
  rw [realPath, expansionDepth, hbase, hnames, hall, hmet]

/-- An entry of the root is taken for a link in the innermost directory. -/
theorem realPath_innermost {name target : String} {q : Path} (hname : isEntryName name = true)
    (hsize : name.utf8ByteSize ≤ 15) (hlink : innermost.lookup name = some (.link target))
    (htarget : ∀ fuel met, astray.tree.expand fuel met ((within 16).atTarget target)
      (Path.pieces target) = .ok ⟨q, false, met⟩) :
    astray.tree.realPath (astrayRoot.below [name]) = .ok (astray.tree.absolute q) := by
  have hup : name ≠ ".." := by
    rintro rfl
    exact absurd hname (by decide)
  have hseen : astray.tree.linkAt? ((within 16).below [name]) = some target := by
    refine linkAt?_eq_some _ ?_ ((node?_within hup).trans hlink)
    rw [isTooLong_within]
    simpa using hsize
  refine realPath_astray fun fuel => ?_
  rw [expand_fresh fuel (Step.ofName_of_isEntryName hname) (hasNul_within _ hname) hseen
    (lookup_metRoot _) (htarget _ _), expand_nil]
  exact ⟨_, rfl⟩

theorem realPath_astrayRoot : astray.tree.realPath astrayRoot = .ok ⟨.top, nested 16⟩ := by
  have hreal := realPath_astray fun fuel => ⟨metRoot, expand_nil (fuel + 1)⟩
  rw [Path.below_nil] at hreal
  rw [hreal, absolute, textualPlace_within]
  rfl

/-- The directory `x` has the real path of the root. -/
theorem realPath_astray_directory :
    astray.tree.realPath (astrayRoot.below ["x"]) = .ok ⟨.top, nested 16⟩ := by
  have htarget : ∀ fuel met, astray.tree.expand fuel met ((within 16).atTarget ".")
      (Path.pieces ".") = .ok ⟨within 16, false, met⟩ := by
    intro fuel met
    have hpieces : Path.pieces "." = ["."] := by decide
    rw [hpieces, expand_stay _ (by decide), expand_nil]
    rfl
  rw [realPath_innermost (by decide) (by decide) rfl htarget, absolute, textualPlace_within]
  rfl

theorem expand_file (fuel : Nat) (met : MetLinks) :
    astray.tree.expand fuel met (within 16) ["B.java"]
      = .ok ⟨(within 16).below ["B.java"], false, met⟩ := by
  have hplain : astray.tree.linkAt? ((within 16).below ["B.java"]) = none := by
    refine linkAt?_eq_none _ ?_
    rw [isLinkAt, node?_within (by decide)]
    rfl
  rw [expand_into _ (Step.ofName_of_isEntryName (by decide)) (hasNul_within _ (by decide)) hplain,
    expand_nil]

theorem absolute_file :
    astray.tree.absolute ((within 16).below ["B.java"]) = ⟨.top, nested 16 ++ ["B.java"]⟩ := by
  rw [absolute, textualPlace_below _ _ (by decide), textualPlace_within]
  rfl

theorem realPath_astray_file :
    astray.tree.realPath (astrayRoot.below ["B.java"]) = .ok ⟨.top, nested 16 ++ ["B.java"]⟩ := by
  rw [realPath_astray fun fuel => ⟨metRoot, expand_file (fuel + 1) metRoot⟩, absolute_file]

/-- The file `A.java` has the real path of the file beside it. -/
theorem realPath_astray_link :
    astray.tree.realPath (astrayRoot.below ["A.java"]) = .ok ⟨.top, nested 16 ++ ["B.java"]⟩ := by
  have hpieces : Path.pieces "B.java" = ["B.java"] := by decide
  have htarget : ∀ fuel met, astray.tree.expand fuel met ((within 16).atTarget "B.java")
      (Path.pieces "B.java") = .ok ⟨(within 16).below ["B.java"], false, met⟩ := by
    intro fuel met
    rw [hpieces]
    exact expand_file fuel met
  rw [realPath_innermost (by decide) (by decide) rfl htarget, absolute_file]

end Disk

namespace Discovery

open FileTree

theorem names_astray : Disk.astray.tree.namesIn ["w", "o"] = ["A.java", "B.java", "x"] := by
  have ho : Disk.longName ≠ "o" := Disk.longName_ne (by decide)
  -- entries further in have the long name second
  have hdeep : ∀ more : Place, nameIn? ["w", "o"] ("w" :: Disk.longName :: more) = none := by
    intro more
    cases hname : nameIn? ["w", "o"] ("w" :: Disk.longName :: more) with
    | none => rfl
    | some name => exact absurd (List.cons.inj (List.cons.inj (eq_of_nameIn? hname)).2).1 ho
  have hinner : (Disk.innermost.map (Prod.map (fun name => Disk.nested 16 ++ [name]) id)).filterMap
      (fun e => nameIn? ["w", "o"] e.1) = [] := by
    refine List.filterMap_eq_nil_iff.2 fun e he => ?_
    obtain ⟨e, -, rfl⟩ := List.mem_map.1 he
    exact hdeep _
  have hnested : (((List.range 16).map fun k => (k, Node.directory)).map
      (Prod.map (fun k => Disk.nested (k + 1)) id)).filterMap
        (fun e => nameIn? ["w", "o"] e.1) = [] := by
    refine List.filterMap_eq_nil_iff.2 fun e he => ?_
    obtain ⟨e, -, rfl⟩ := List.mem_map.1 he
    exact hdeep _
  show NameSet.ofList ((Disk.outermost ++ (_ ++ _)).filterMap _) = _
  rw [List.filterMap_append, List.filterMap_append, hinner, hnested]
  decide

theorem isFile_astray {names : List String} {place : Place}
    (hshort : isTooLong (Disk.astrayRoot.below names).text = false)
    (hfrom : Disk.astray.tree.locateFrom 38 ["w", "o"] (names.map Step.ofName) = .ok place)
    (hnode : Disk.astray.tree.node? place = some (.file [])) :
    Disk.astray.isFile (Disk.astrayRoot.below names) = .ok true := by
  have hlocate := (Disk.locate_astray hshort).trans hfrom
  rw [Disk.isFile_eq_true (Leads.hasNul_eq_false (leads_of_locate hlocate))]
  refine ⟨[], ?_⟩
  rw [find, hlocate]
  simp [hnode]

/-- What the first turn below the root brings. -/
def astrayYield : Yield :=
  ⟨[⟨.top, Disk.nested 16⟩],
    [Disk.astrayRoot.below ["B.java"], Disk.astrayRoot.below ["A.java"]], []⟩

theorem gather_astray :
    gather Disk.astray "" Disk.astrayRoot (Yield.enter {} ⟨.top, Disk.nested 16⟩)
      ["A.java", "B.java"] = .ok astrayYield := by
  rw [gather_cons_file _ _ (hasExtension_empty _) (isFile_astray (by decide) rfl rfl),
    gather_cons_file _ _ (hasExtension_empty _) (isFile_astray (by decide) rfl rfl), gather]
  rfl

/-- The first turn finds two files and leaves the directory `x`. -/
theorem turn_astrayRoot :
    turn Disk.astray { extension := "", followLinks := false } Disk.astrayRoot {} []
      = .ok (astrayYield, ["x"]) := by
  obtain ⟨listing, hlist, hplace⟩ : ∃ listing : Listing Disk.astray.tree,
      list Disk.astray (walkPath Disk.astrayRoot []) (Disk.astrayRoot.below []) = .ok listing
        ∧ listing.place = ["w", "o"] :=
    ⟨_, list_of_locate rfl (by decide) (by decide) (Disk.locate_astray (by decide)) rfl, rfl⟩
  have hmeet : meet Disk.astray Disk.astrayRoot [] []
      = .ok (.new listing ⟨.top, Disk.nested 16⟩) := by
    have hreal := Disk.realPath_astrayRoot
    rw [← Path.below_nil Disk.astrayRoot] at hreal
    rw [meet_of_list hlist hreal, if_neg List.not_mem_nil]
  obtain ⟨-, -, -, -, hnames⟩ := list_eq_ok hlist
  rw [hplace, names_astray] at hnames
  have hfiles : Stop.nonDirectories ⟨walkPath Disk.astrayRoot [], Disk.astrayRoot.below [],
      ["w", "o"]⟩ Disk.astray ["A.java", "B.java", "x"] = ["A.java", "B.java"] := by decide
  have hinner : Stop.enterable ⟨walkPath Disk.astrayRoot [], Disk.astrayRoot.below [],
      ["w", "o"]⟩ Disk.astray { extension := "", followLinks := false } ["A.java", "B.java", "x"]
        = ["x"] := by decide
  have hgather : gather Disk.astray "" (Disk.astrayRoot.below [])
      (Yield.enter {} ⟨.top, Disk.nested 16⟩) (Stop.nonDirectories ⟨walkPath Disk.astrayRoot [],
        Disk.astrayRoot.below [], listing.place⟩ Disk.astray listing.names)
        = .ok astrayYield := by
    rw [hplace, hnames, hfiles, Path.below_nil]
    exact gather_astray
  rw [← hinner, ← hnames, ← hplace]
  exact turn_of_new hmeet hgather

/-- The next turn takes that directory for the root. -/
theorem meet_astray_directory :
    meet Disk.astray Disk.astrayRoot astrayYield.seen ["x"] = .ok .seenBefore := by
  obtain ⟨listing, hlist⟩ : ∃ listing : Listing Disk.astray.tree,
      list Disk.astray (walkPath Disk.astrayRoot ["x"]) (Disk.astrayRoot.below ["x"])
        = .ok listing :=
    ⟨_, list_of_locate rfl (by decide) (by decide) (Disk.locate_astray (by decide)) rfl⟩
  have hseen : ⟨.top, Disk.nested 16⟩ ∈ astrayYield.seen := List.mem_singleton_self _
  rw [meet_of_list hlist Disk.realPath_astray_directory, if_pos hseen]

theorem locate_astrayRoot : Disk.astray.tree.locate Disk.astrayRoot = .ok ["w", "o"] := by
  have hlocate : Disk.astray.tree.locate (Disk.astrayRoot.below []) = .ok ["w", "o"] :=
    Disk.locate_astray (by decide)
  rwa [Path.below_nil] at hlocate

theorem isDirectory_astrayRoot : Disk.astray.tree.isDirectory Disk.astrayRoot = true := by
  have hnode : Disk.astray.tree.node? ["w", "o"] = some .directory := rfl
  rw [isDirectory, find, locate_astrayRoot]
  dsimp only
  rw [hnode]

theorem run_astray :
    Run Disk.astray { extension := "", followLinks := false } Disk.astrayRoot [[]] astrayYield
      [["x"]] :=
  Run.start.next turn_astrayRoot

/-- The search finds the files of the root alone. -/
theorem filesBelow_astray :
    ∃ found, filesBelow Disk.astray { extension := "", followLinks := false } Disk.astrayRoot
        = .ok found
      ∧ found.files = [Disk.astrayRoot.below ["A.java"], Disk.astrayRoot.below ["B.java"]] := by
  obtain ⟨z, hturn, hfiles⟩ :=
    turn_of_seen { extension := "", followLinks := false } meet_astray_directory
  have hfile := (Disk.root_of_isDirectory isDirectory_astrayRoot).2
  refine ⟨_, filesBelow_of_run hfile (run_astray.next hturn), ?_⟩
  rw [hfiles]
  rfl

end Discovery

end DocAudit
