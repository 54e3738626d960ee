/-
Where a path leads, without limits. `LeadsTo` says which place steps come
to from a place when each link in the way is replaced by the steps of its
target, however many there are and however long their names: it is what
the tree means, as against what the system is ready to follow.

The lookup agrees with it from both sides. What it finds is where the
steps lead (`LeadsTo.of_locateFrom`); and where steps lead, it finds the
place or gives up for the number of links or the length of a name
(`LeadsTo.locateFrom_cases`). So once neither limit hides a place, the two
are the same (`Answered.locate_iff`).

Links lead in circles where no derivation ends; nothing more has to be
said about them.
-/
import DocAudit.Disk

namespace DocAudit.FileTree

variable {t : FileTree} {place q : Place} {steps rest : List Step} {name : String}

-- ============================================================== leading

/-- From a place, steps lead to a place. -/
inductive LeadsTo (t : FileTree) : Place → List Step → Place → Prop where
  | done {place : Place} : LeadsTo t place [] place
  | stay {place q : Place} {rest : List Step} (hdir : t.node? place = some .directory)
      (h : LeadsTo t place rest q) : LeadsTo t place (.stay :: rest) q
  | up {place q : Place} {rest : List Step} (hdir : t.node? place = some .directory)
      (h : LeadsTo t place.dropLast rest q) : LeadsTo t place (.up :: rest) q
  | into {place q : Place} {rest : List Step} {name : String} {node : Node}
      (hdir : t.node? place = some .directory) (hnode : t.node? (place ++ [name]) = some node)
      (hplain : t.isLinkAt (place ++ [name]) = false)
      (h : LeadsTo t (place ++ [name]) rest q) : LeadsTo t place (.into name :: rest) q
  /-- The steps of a link's target take the link's place. -/
  | follow {place q : Place} {rest : List Step} {name target : String}
      (hdir : t.node? place = some .directory)
      (hlink : t.node? (place ++ [name]) = some (.link target))
      (h : LeadsTo t (targetStart place target) (Step.ofText target ++ rest) q) :
      LeadsTo t place (.into name :: rest) q

theorem isLinkAt_of_link {target : String} (h : t.node? place = some (.link target)) :
    t.isLinkAt place = true := by
  unfold isLinkAt
  rw [h]

theorem exists_target_of_isLinkAt (h : t.isLinkAt place = true) :
    ∃ target, t.node? place = some (.link target) := by
  unfold isLinkAt at h
  split at h
  · exact ⟨_, by assumption⟩
  · cases h

namespace LeadsTo

/-- Steps lead to one place at most. -/
theorem unique {q' : Place} (h : LeadsTo t place steps q) (h' : LeadsTo t place steps q') :
    q = q' := by
  induction h with
  | done =>
      cases h'
      rfl
  | stay _ _ ih =>
      cases h' with
      | stay _ h' => exact ih h'
  | up _ _ ih =>
      cases h' with
      | up _ h' => exact ih h'
  | into _ _ hplain _ ih =>
      cases h' with
      | into _ _ _ h' => exact ih h'
      | follow _ hlink _ =>
          rw [isLinkAt_of_link hlink] at hplain
          cases hplain
  | follow _ hlink _ ih =>
      cases h' with
      | into _ _ hplain _ =>
          rw [isLinkAt_of_link hlink] at hplain
          cases hplain
      | follow _ hlink' h' =>
          rw [hlink] at hlink'
          cases hlink'
          exact ih h'

theorem append {r : Place} {more : List Step} (h : LeadsTo t place steps r)
    (hmore : LeadsTo t r more q) : LeadsTo t place (steps ++ more) q := by
  induction h with
  | done => exact hmore
  | stay hdir _ ih => exact .stay hdir (ih hmore)
  | up hdir _ ih => exact .up hdir (ih hmore)
  | into hdir hnode hplain _ ih => exact .into hdir hnode hplain (ih hmore)
  | follow hdir hlink _ ih =>
      have h := ih hmore
      rw [List.append_assoc] at h
      exact .follow hdir hlink h

/-- A way can be broken off after any of its steps. -/
theorem split {more : List Step} (h : LeadsTo t place (steps ++ more) q) :
    ∃ r, LeadsTo t place steps r ∧ LeadsTo t r more q := by
  generalize hall : steps ++ more = all at h
  induction h generalizing steps with
  | done =>
      obtain ⟨rfl, rfl⟩ := List.append_eq_nil_iff.1 hall
      exact ⟨_, .done, .done⟩
  | stay hdir h ih =>
      cases steps with
      | nil =>
          obtain rfl : more = _ := hall
          exact ⟨_, .done, .stay hdir h⟩
      | cons step steps =>
          obtain ⟨rfl, hrest⟩ := List.cons.inj hall
          obtain ⟨r, hfirst, hlast⟩ := ih hrest
          exact ⟨r, .stay hdir hfirst, hlast⟩
  | up hdir h ih =>
      cases steps with
      | nil =>
          obtain rfl : more = _ := hall
          exact ⟨_, .done, .up hdir h⟩
      | cons step steps =>
          obtain ⟨rfl, hrest⟩ := List.cons.inj hall
          obtain ⟨r, hfirst, hlast⟩ := ih hrest
          exact ⟨r, .up hdir hfirst, hlast⟩
  | into hdir hnode hplain h ih =>
      cases steps with
      | nil =>
          obtain rfl : more = _ := hall
          exact ⟨_, .done, .into hdir hnode hplain h⟩
      | cons step steps =>
          obtain ⟨rfl, hrest⟩ := List.cons.inj hall
          obtain ⟨r, hfirst, hlast⟩ := ih hrest
          exact ⟨r, .into hdir hnode hplain hfirst, hlast⟩
  | @follow place q rest name target hdir hlink h ih =>
      cases steps with
      | nil =>
          obtain rfl : more = _ := hall
          exact ⟨_, .done, .follow hdir hlink h⟩
      | cons step steps =>
          obtain ⟨rfl, rfl⟩ := List.cons.inj hall
          -- the break falls behind the target's steps
          obtain ⟨r, hfirst, hlast⟩ := ih (List.append_assoc (Step.ofText target) steps more)
          exact ⟨r, .follow hdir hlink hfirst, hlast⟩

theorem rest_of_append {r : Place} {more : List Step} (h : LeadsTo t place (steps ++ more) q)
    (hfirst : LeadsTo t place steps r) : LeadsTo t r more q := by
  obtain ⟨r', hfirst', hlast⟩ := h.split
  rwa [hfirst.unique hfirst']

end LeadsTo

-- =============================================================== lookup

theorem locateFrom_nil (links : Nat) : t.locateFrom links place [] = .ok place := by
  cases links <;> rfl

theorem locateFrom_stay (links : Nat) (hdir : t.node? place = some .directory) :
    t.locateFrom links place (.stay :: rest) = t.locateFrom links place rest := by
  cases links <;> simp [locateFrom, advance, hdir]

theorem locateFrom_up (links : Nat) (hdir : t.node? place = some .directory) :
    t.locateFrom links place (.up :: rest) = t.locateFrom links place.dropLast rest := by
  cases links <;> simp [locateFrom, advance, hdir]

theorem locateFrom_into (links : Nat) {node : Node} (hdir : t.node? place = some .directory)
    (hsize : name.utf8ByteSize ≤ maxNameBytes) (hnode : t.node? (place ++ [name]) = some node)
    (hplain : t.isLinkAt (place ++ [name]) = false) :
    t.locateFrom links place (.into name :: rest) = t.locateFrom links (place ++ [name]) rest := by
  have hstep : t.advance place (.into name :: rest) = t.advance (place ++ [name]) rest := by
    cases node with
    | link target =>
        rw [isLinkAt_of_link hnode] at hplain
        cases hplain
    | _ => simp [advance, hdir, hnode, Nat.not_lt.2 hsize]
  cases links <;> simp [locateFrom, hstep]

theorem advance_link {target : String} (hdir : t.node? place = some .directory)
    (hsize : name.utf8ByteSize ≤ maxNameBytes)
    (hlink : t.node? (place ++ [name]) = some (.link target)) :
    t.advance place (.into name :: rest) = .linkAhead place target rest := by
  simp [advance, hdir, hlink, Nat.not_lt.2 hsize]

/-- What steps need to be followed at all: a directory to stand on, and
for a name that it is short enough and there. -/
theorem of_locateFrom_cons {links : Nat} {step : Step}
    (h : t.locateFrom links place (step :: rest) = .ok q) :
    t.node? place = some .directory
      ∧ ∀ name, step = .into name → name.utf8ByteSize ≤ maxNameBytes
        ∧ ∃ node, t.node? (place ++ [name]) = some node := by
  by_cases hdir : t.node? place = some .directory
  · refine ⟨hdir, ?_⟩
    rintro name rfl
    by_cases hsize : name.utf8ByteSize ≤ maxNameBytes
    · refine ⟨hsize, ?_⟩
      cases hnode : t.node? (place ++ [name]) with
      | some node => exact ⟨node, rfl⟩
      | none => cases links <;> simp [locateFrom, advance, hdir, Nat.not_lt.2 hsize, hnode] at h
    · cases links <;> simp [locateFrom, advance, hdir, Nat.not_le.1 hsize] at h
  · cases links <;> simp [locateFrom, advance, hdir] at h

/-- What the lookup finds is where the steps lead. -/
theorem LeadsTo.of_locateFrom {links : Nat} (h : t.locateFrom links place steps = .ok q) :
    LeadsTo t place steps q := by
  -- on the links still allowed, and then step by step up to the next link
  induction links using Nat.strongRecOn generalizing place steps with
  | ind links hfewer =>
      induction steps generalizing place with
      | nil =>
          rw [locateFrom_nil] at h
          cases h
          exact .done
      | cons step rest ih =>
          obtain ⟨hdir, hname⟩ := of_locateFrom_cons h
          cases step with
          | stay =>
              rw [locateFrom_stay links hdir] at h
              exact .stay hdir (ih h)
          | up =>
              rw [locateFrom_up links hdir] at h
              exact .up hdir (ih h)
          | into name =>
              obtain ⟨hsize, node, hnode⟩ := hname name rfl
              cases hlink : t.isLinkAt (place ++ [name]) with
              | false =>
                  rw [locateFrom_into links hdir hsize hnode hlink] at h
                  exact .into hdir hnode hlink (ih h)
              | true =>
                  obtain ⟨target, htarget⟩ := exists_target_of_isLinkAt hlink
                  cases links with
                  | zero =>
                      rw [locateFrom, advance_link hdir hsize htarget] at h
                      cases h
                  | succ links =>
                      rw [locateFrom, advance_link hdir hsize htarget] at h
                      exact .follow hdir htarget (hfewer links (Nat.lt_succ_self _) h)

/-- Where steps lead, the lookup finds the place or gives up at a limit. -/
theorem LeadsTo.locateFrom_cases (h : LeadsTo t place steps q) (links : Nat) :
    t.locateFrom links place steps = .ok q
      ∨ t.locateFrom links place steps = .error .tooManyLinks
      ∨ t.locateFrom links place steps = .error .nameTooLong := by
  induction h generalizing links with
  | done => exact .inl (locateFrom_nil links)
  | stay hdir _ ih =>
      rw [locateFrom_stay links hdir]
      exact ih links
  | up hdir _ ih =>
      rw [locateFrom_up links hdir]
      exact ih links
  | @into place q rest name node hdir hnode hplain _ ih =>
      by_cases hsize : name.utf8ByteSize ≤ maxNameBytes
      · rw [locateFrom_into links hdir hsize hnode hplain]
        exact ih links
      · refine .inr (.inr ?_)
        cases links <;> simp [locateFrom, advance, hdir, Nat.not_le.1 hsize]
  | @follow place q rest name target hdir hlink _ ih =>
      by_cases hsize : name.utf8ByteSize ≤ maxNameBytes
      · cases links with
        | zero =>
            rw [locateFrom, advance_link hdir hsize hlink]
            exact .inr (.inl rfl)
        | succ links =>
            rw [locateFrom, advance_link hdir hsize hlink]
            exact ih links
      · refine .inr (.inr ?_)
        cases links <;> simp [locateFrom, advance, hdir, Nat.not_le.1 hsize]

-- ============================================================== answers

/-- A path leads to a place. -/
def Leads (t : FileTree) (p : Path) (q : Place) : Prop :=
  LeadsTo t (t.startOf p) p.steps q

/-- The system tells where a path leads: its length is no obstacle, and
if its links are too many it leads nowhere anyway. -/
def Answered (t : FileTree) (p : Path) : Prop :=
  t.locate p ≠ .error .nameTooLong ∧ (t.locate p = .error .tooManyLinks → ∀ q, ¬t.Leads p q)

theorem leads_of_locate {p : Path} (h : t.locate p = .ok q) : t.Leads p q := by
  unfold locate at h
  split at h
  · cases h
  · exact .of_locateFrom h

theorem Answered.locate_iff {p : Path} (h : t.Answered p) : t.locate p = .ok q ↔ t.Leads p q := by
  constructor
  · exact leads_of_locate
  · intro hlead
    obtain ⟨hshort, hloop⟩ := h
    have hcases := hlead.locateFrom_cases maxLinks
    unfold locate at hshort hloop ⊢
    split at hshort
    · exact absurd rfl hshort
    · rename_i hlen
      rw [if_neg hlen] at hloop ⊢
      rcases hcases with hfound | hmany | hlong
      · exact hfound
      · exact absurd hlead (hloop hmany q)
      · exact absurd hlong hshort

theorem Leads.unique {p : Path} {q' : Place} (h : t.Leads p q) (h' : t.Leads p q') : q = q' :=
  LeadsTo.unique h h'

theorem Answered.isDirectory_iff {p : Path} (h : t.Answered p) :
    t.isDirectory p = true ↔ ∃ q, t.Leads p q ∧ t.node? q = some .directory := by
  constructor
  · intro hdir
    unfold isDirectory find at hdir
    cases hloc : t.locate p with
    | error why => simp [hloc] at hdir
    | ok q =>
        refine ⟨q, leads_of_locate hloc, ?_⟩
        cases hnode : t.node? q with
        | none => simp [hloc, hnode] at hdir
        | some node => cases node <;> simp_all
  · rintro ⟨q, hlead, hnode⟩
    unfold isDirectory find
    rw [h.locate_iff.2 hlead]
    simp [hnode]

/-- Where the system tells where a path leads, it tells whether that is a
file. -/
theorem Answered.exists_isFile {d : Disk} {p : Path} (h : d.tree.Answered p)
    (hnul : p.hasNul = false) :
    ∃ isFile, d.isFile p = .ok isFile
      ∧ (isFile = true ↔ ∃ q content, d.tree.Leads p q ∧ d.tree.node? q = some (.file content)) := by
  unfold Disk.isFile find
  rw [hnul]
  cases hloc : d.tree.locate p with
  | error why =>
      have hnowhere : ∀ q, ¬d.tree.Leads p q := by
        intro q hlead
        rw [h.locate_iff.2 hlead] at hloc
        cases hloc
      refine ⟨false, ?_, nofun, fun ⟨q, _, hlead, _⟩ => absurd hlead (hnowhere q)⟩
      cases why with
      | nameTooLong => exact absurd hloc h.1
      | _ => rfl
  | ok q =>
      have hlead := leads_of_locate hloc
      cases hnode : d.tree.node? q with
      | none =>
          refine ⟨false, by simp [hnode], nofun, ?_⟩
          rintro ⟨q', content, hlead', hfile⟩
          rw [← hlead.unique hlead', hnode] at hfile
          cases hfile
      | some node =>
          cases node with
          | file content =>
              exact ⟨true, by simp [hnode], fun _ => ⟨q, content, hlead, hnode⟩, fun _ => rfl⟩
          | _ =>
              refine ⟨false, by simp [hnode], nofun, ?_⟩
              rintro ⟨q', content, hlead', hfile⟩
              rw [← hlead.unique hlead', hnode] at hfile
              cases hfile

end DocAudit.FileTree
