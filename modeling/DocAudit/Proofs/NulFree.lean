/-
Paths without U+0000. No system call takes that character, and a failure
on account of it would end whatever is under way. No entry of a tree has
it in its name or in the target of a link, so a path that leads anywhere
is free of it. The real path of a path that is free of it can always be
found, since links that lead nowhere or in circles are kept as they are
written, and it is free of it as well.
-/
import DocAudit.Proofs.RealPaths

namespace DocAudit

-- =============================================================== U+0000

theorem nul_not_mem_of_isEntryName {name : String} (h : isEntryName name = true) :
    '\x00' ∉ name.toList := by
  simp only [isEntryName, Bool.and_eq_true] at h
  simpa using h.2

namespace FileTree

variable {t : FileTree}

theorem isEntryName_of_node? {place : Place} {name : String} {node : Node}
    (h : t.node? (place ++ [name]) = some node) : isEntryName name = true := by
  rw [node?, if_neg (by simp)] at h
  obtain ⟨before, after, hentries, -⟩ := List.lookup_eq_some_iff.1 h
  have hproper := t.proper (place ++ [name], node) (by simp [hentries])
  simp only [isEntry, Bool.and_eq_true, List.all_eq_true] at hproper
  exact hproper.1 name (by simp)

/-- The names that steps lead through hold no U+0000. -/
theorem LeadsTo.nul_not_mem {place q : Place} {steps : List Step} {name : String}
    (h : t.LeadsTo place steps q) (hname : .into name ∈ steps) : '\x00' ∉ name.toList := by
  induction h with
  | done => cases hname
  | stay _ _ ih =>
      rcases List.mem_cons.1 hname with heq | hname
      · cases heq
      · exact ih hname
  | up _ _ ih =>
      rcases List.mem_cons.1 hname with heq | hname
      · cases heq
      · exact ih hname
  | into _ hnode _ _ ih =>
      rcases List.mem_cons.1 hname with heq | hname
      · cases heq
        exact nul_not_mem_of_isEntryName (isEntryName_of_node? hnode)
      · exact ih hname
  | follow _ hlink _ ih =>
      rcases List.mem_cons.1 hname with heq | hname
      · cases heq
        exact nul_not_mem_of_isEntryName (isEntryName_of_node? hlink)
      · exact ih (List.mem_append_right _ hname)

theorem Leads.hasNul_eq_false {p : Path} {q : Place} (h : t.Leads p q) : p.hasNul = false := by
  refine Path.hasNul_eq_false_iff.2 fun name hname => ?_
  by_cases hstay : name = "" ∨ name = "."
  · rcases hstay with rfl | rfl <;> decide
  · by_cases hup : name = ".."
    · rw [hup]
      decide
    · have hstep : Step.ofName name = .into name := by
        simp only [not_or] at hstay
        simp [Step.ofName, hstay.1, hstay.2, hup]
      refine LeadsTo.nul_not_mem h ?_
      rw [← hstep]
      exact List.mem_map_of_mem hname

theorem exists_leads_of_isDirectory {p : Path} (h : t.isDirectory p = true) :
    ∃ dir, t.locate p = .ok dir ∧ t.node? dir = some .directory := by
  unfold isDirectory find at h
  cases hlocate : t.locate p with
  | error why => simp [hlocate] at h
  | ok dir =>
      refine ⟨dir, rfl, ?_⟩
      cases hnode : t.node? dir with
      | none => simp [hlocate, hnode] at h
      | some node => cases node <;> simp_all

-- ============================================================ expansion

/-- Real paths kept in a table hold no U+0000. -/
def NulFree (met : MetLinks) : Prop :=
  ∀ key real, met.lookup key = some (some real) → real.hasNul = false

theorem nulFree_nil : NulFree [] :=
  nofun

theorem NulFree.cons {met : MetLinks} (h : NulFree met) (next : Path) (entry : Option Path)
    (hentry : ∀ real, entry = some real → real.hasNul = false) :
    NulFree ((next, entry) :: met) := by
  intro key real hlookup
  rw [List.lookup_cons] at hlookup
  split at hlookup
  · exact hentry real (Option.some.inj hlookup)
  · exact h key real hlookup

/-- What an expansion leaves to go on with holds no U+0000. -/
def UsableTrail (trail : Trail) : Prop :=
  trail.path.hasNul = false ∧ NulFree trail.met

theorem node?_of_linkAt? {p : Path} {target : String} (h : t.linkAt? p = some target) :
    t.node? (t.textualPlace p) = some (.link target) := by
  unfold linkAt? at h
  split at h
  · cases h
  · split at h
    · rename_i hnode
      cases h
      exact hnode
    · cases h

/-- Pieces are expanded if the targets of links are. -/
theorem exists_expandWith {follow : MetLinks → Path → String → Except Failure Trail}
    (hfollow : ∀ met p place target, NulFree met → p.hasNul = false →
      t.node? place = some (.link target) →
      ∃ trail, follow met p target = .ok trail ∧ UsableTrail trail)
    {met : MetLinks} {p : Path} {pieces : List String} (hmet : NulFree met)
    (hp : p.hasNul = false) (hpieces : ∀ piece ∈ pieces, '\x00' ∉ piece.toList) :
    ∃ trail, t.expandWith follow met p pieces = .ok trail ∧ UsableTrail trail := by
  induction pieces generalizing met p with
  | nil => exact ⟨_, rfl, hp, hmet⟩
  | cons piece rest ih =>
      obtain ⟨hpiece, hrest⟩ := List.forall_mem_cons.1 hpieces
      rw [expandWith]
      cases hstep : Step.ofName piece with
      | stay => exact ih hmet hp hrest
      | up => exact ih hmet (Path.hasNul_up hp) hrest
      | into name =>
          obtain ⟨rfl, -⟩ := Step.of_ofName_eq_into hstep
          have hnul := Path.hasNul_below hp hpiece
          simp only [hnul, Bool.false_eq_true, if_false]
          cases hlink : t.linkAt? (p.below [piece]) with
          | none => exact ih hmet hnul hrest
          | some target =>
              cases hknown : met.lookup (p.below [piece]) with
              | some entry =>
                  cases entry with
                  | some real => exact ih hmet (hmet _ _ hknown) hrest
                  | none => exact ⟨_, rfl, Path.hasNul_followedBy hnul hrest, hmet⟩
              | none =>
                  -- a link met for the first time is expanded by itself
                  obtain ⟨⟨q, looped, met'⟩, hok, hq, hmet'⟩ :=
                    hfollow _ _ _ target (hmet.cons (p.below [piece]) none nofun)
                      (Path.hasNul_atTarget hp target) (node?_of_linkAt? hlink)
                  simp only [hok]
                  cases looped with
                  | true => exact ⟨_, rfl, Path.hasNul_followedBy hq hrest, hmet'⟩
                  | false =>
                      refine ih (hmet'.cons _ (some q) ?_) hq hrest
                      rintro _ ⟨⟩
                      exact hq

theorem exists_expand (depth : Nat) {met : MetLinks} {p : Path} {pieces : List String}
    (hmet : NulFree met) (hp : p.hasNul = false)
    (hpieces : ∀ piece ∈ pieces, '\x00' ∉ piece.toList) :
    ∃ trail, t.expand depth met p pieces = .ok trail ∧ UsableTrail trail := by
  induction depth generalizing met p pieces with
  | zero =>
      refine exists_expandWith ?_ hmet hp hpieces
      intro met p place target hmet hp hlink
      exact ⟨_, rfl, hp, hmet⟩
  | succ depth ih =>
      refine exists_expandWith ?_ hmet hp hpieces
      intro met p place target hmet hp hlink
      exact ih hmet hp (nul_not_mem_pieces_target hlink)

theorem exists_realPath_absolute {p : Path} (hp : p.hasNul = false) :
    ∃ q, t.realPath p = .ok (t.absolute q) ∧ q.hasNul = false := by
  have hbase : p.base.hasNul = false := Path.hasNul_eq_false_iff.2 nofun
  obtain ⟨trail, hok, hpath, -⟩ :=
    exists_expand t.expansionDepth nulFree_nil hbase (Path.hasNul_eq_false_iff.1 hp)
  unfold realPath
  rw [hok]
  exact ⟨trail.path, rfl, hpath⟩

/-- A path without U+0000 has a real path, whatever its links. -/
theorem exists_realPath {p : Path} (hp : p.hasNul = false) : ∃ real, t.realPath p = .ok real := by
  obtain ⟨q, hreal, -⟩ := exists_realPath_absolute (t := t) hp
  exact ⟨_, hreal⟩

/-- A real path holds no U+0000 either, if the current directory has none
in its place. -/
theorem hasNul_realPath {p real : Path} (hhere : ∀ name ∈ t.here, '\x00' ∉ name.toList)
    (hp : p.hasNul = false) (h : t.realPath p = .ok real) : real.hasNul = false := by
  obtain ⟨q, hq, hnul⟩ := exists_realPath_absolute (t := t) hp
  rw [hq] at h
  obtain rfl := Except.ok.inj h
  refine Path.hasNul_eq_false_iff.2 fun name hname => ?_
  rcases mem_textualPlace hname with hstart | hname
  · unfold startOf at hstart
    split at hstart
    · exact hhere name hstart
    · cases hstart
  · exact Path.hasNul_eq_false_iff.1 hnul name hname

end FileTree

end DocAudit
