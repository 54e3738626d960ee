/-
The real path of a path is the place that the path leads to, written from
the top. `Expands` says what the pieces of a path expand to, and over how
many links, as long as each link met is written short enough to be looked
at; the expansion that keeps a table of the links met comes to the same.

# Why the table does no harm

A finished entry holds what the link expands to, and that is unique. An
entry still under way would stop the expansion, and none is met: the
links that an expansion goes through are counted, a nested expansion goes
through fewer than the one around it, and what a link costs depends on its
place alone (`LinkCost.unique`). So no link can be met inside its own
expansion.

The same count says that links expanded inside one another stand at
different places. There are no more of them than the tree has links, which
is why the depth allowed is enough.
-/
import DocAudit.Proofs.Links
import Mathlib.Data.List.Perm.Subperm

namespace DocAudit

-- =============================================================== U+0000

namespace Path

theorem nul_mem_intercalate (names : List String) :
    '\x00' ∈ ("/".intercalate names).toList ↔ ∃ name ∈ names, '\x00' ∈ name.toList := by
  rw [String.toList_intercalate]
  induction names with
  | nil => simp
  | cons name rest ih =>
      cases rest with
      | nil => simp
      | cons next rest =>
          rw [List.map_cons, List.map_cons, List.intercalate_cons_cons, ← List.map_cons,
            List.mem_append, List.mem_append, ih]
          simp

theorem hasNul_eq_false_iff {p : Path} :
    p.hasNul = false ↔ ∀ name ∈ p.names, '\x00' ∉ name.toList := by
  have htext : '\x00' ∈ p.text.toList ↔ ∃ name ∈ p.names, '\x00' ∈ name.toList := by
    unfold text
    split
    · rename_i hempty
      simp only [Bool.and_eq_true, List.isEmpty_iff] at hempty
      simp [hempty.2]
    · rw [String.toList_append, List.mem_append, nul_mem_intercalate]
      cases p.anchor <;> simp [Anchor.text]
  rw [hasNul, Bool.eq_false_iff, ne_eq, List.contains_iff_mem, htext]
  simp

theorem mem_of_mem_splitFrom {c : Char} {current chars : List Char} {piece : List Char}
    (hpiece : piece ∈ splitFrom current chars) (hc : c ∈ piece) : c ∈ current ∨ c ∈ chars := by
  induction chars generalizing current with
  | nil =>
      rw [splitFrom, List.mem_singleton] at hpiece
      subst hpiece
      exact .inl (List.mem_reverse.1 hc)
  | cons first rest ih =>
      rw [splitFrom] at hpiece
      split at hpiece
      · rcases List.mem_cons.1 hpiece with rfl | hpiece
        · exact .inl (List.mem_reverse.1 hc)
        · rcases ih hpiece with hnil | hrest
          · cases hnil
          · exact .inr (List.mem_cons_of_mem _ hrest)
      · rcases ih hpiece with hcurrent | hrest
        · rcases List.mem_cons.1 hcurrent with rfl | hcurrent
          · exact .inr (List.mem_cons_self ..)
          · exact .inl hcurrent
        · exact .inr (List.mem_cons_of_mem _ hrest)

theorem hasNul_below {p : Path} {name : String} (hp : p.hasNul = false)
    (hname : '\x00' ∉ name.toList) : (p.below [name]).hasNul = false := by
  rw [hasNul_eq_false_iff] at hp ⊢
  intro n hn
  rcases List.mem_append.1 hn with hn | hn
  · exact hp n hn
  · rwa [List.mem_singleton.1 hn]

theorem hasNul_up {p : Path} (hp : p.hasNul = false) : p.up.hasNul = false := by
  have hdots : (p.below [".."]).hasNul = false := hasNul_below hp (by decide)
  unfold up
  split
  · split
    · exact hdots
    · exact hp
  · split
    · exact hdots
    · rw [hasNul_eq_false_iff] at hp ⊢
      exact fun n hn => hp n (List.dropLast_subset _ hn)

theorem hasNul_atTarget {p : Path} (hp : p.hasNul = false) (target : String) :
    (p.atTarget target).hasNul = false := by
  unfold atTarget
  split
  · exact hasNul_eq_false_iff.2 nofun
  · exact hp

/-- The pieces of a text hold no other characters than it does. -/
theorem nul_not_mem_pieces {text piece : String} (h : '\x00' ∉ text.toList)
    (hpiece : piece ∈ pieces text) : '\x00' ∉ piece.toList := by
  obtain ⟨chars, hchars, rfl⟩ := List.mem_map.1 hpiece
  intro hnul
  rw [String.toList_ofList] at hnul
  rcases mem_of_mem_splitFrom hchars hnul with hnil | htext
  · cases hnil
  · exact h htext

/-- Text without U+0000 behind a path brings none to it. -/
theorem hasNul_followedBy {p : Path} {rest : List String} (hp : p.hasNul = false)
    (hrest : ∀ piece ∈ rest, '\x00' ∉ piece.toList) :
    (p.followedBy ("/".intercalate rest)).hasNul = false := by
  have htext : '\x00' ∉ ("/".intercalate rest).toList := by
    rw [nul_mem_intercalate]
    exact fun ⟨piece, hpiece, hnul⟩ => hrest piece hpiece hnul
  have hnames : ∀ name ∈ (ofText ("/".intercalate rest)).names, '\x00' ∉ name.toList :=
    fun name hname => nul_not_mem_pieces htext (List.mem_filter.1 hname).1
  dsimp only [followedBy]
  split
  · refine hasNul_eq_false_iff.2 fun name hname => ?_
    rcases List.mem_append.1 hname with hname | hname
    · exact hasNul_eq_false_iff.1 hp name hname
    · exact hnames name hname
  · exact hasNul_eq_false_iff.2 hnames

end Path

theorem Step.of_ofName_eq_into {piece name : String} (h : Step.ofName piece = .into name) :
    piece = name ∧ name ≠ ".." := by
  unfold Step.ofName at h
  split at h
  · cases h
  · split at h
    · cases h
    · cases h
      exact ⟨rfl, by assumption⟩

namespace FileTree

variable {t : FileTree} {p q : Path} {pieces : List String} {n : Nat}

-- ======================================================= places of paths

theorem textualPlace_concat (t : FileTree) (anchor : Anchor) (names : List String) (name : String) :
    t.textualPlace ⟨anchor, names ++ [name]⟩
      = if name = ".." then (t.textualPlace ⟨anchor, names⟩).dropLast
        else t.textualPlace ⟨anchor, names⟩ ++ [name] := by
  unfold textualPlace
  rw [List.foldl_append]
  rfl

/-- The names of a place are those that a path begins at and its own. -/
theorem mem_textualPlace {p : Path} {name : String} (h : name ∈ t.textualPlace p) :
    name ∈ t.startOf p ∨ name ∈ p.names := by
  unfold textualPlace at h
  generalize t.startOf p = start at h ⊢
  generalize p.names = names at h ⊢
  induction names generalizing start with
  | nil => exact .inl h
  | cons next rest ih =>
      rw [List.foldl_cons] at h
      rcases ih _ h with hstart | hrest
      · split at hstart
        · exact .inl (List.dropLast_subset _ hstart)
        · rcases List.mem_append.1 hstart with hstart | hnext
          · exact .inl hstart
          · exact .inr (List.mem_cons.2 (.inl (List.mem_singleton.1 hnext)))
      · exact .inr (List.mem_cons_of_mem _ hrest)

theorem textualPlace_below (t : FileTree) (p : Path) {name : String} (h : name ≠ "..") :
    t.textualPlace (p.below [name]) = t.textualPlace p ++ [name] :=
  (textualPlace_concat t p.anchor p.names name).trans (if_neg h)

theorem textualPlace_up (t : FileTree) (p : Path) :
    t.textualPlace p.up = (t.textualPlace p).dropLast := by
  unfold Path.up
  split
  · rename_i hlast
    split
    · exact (textualPlace_concat t p.anchor p.names "..").trans (if_pos rfl)
    · rename_i hanchor
      simp [textualPlace, List.getLast?_eq_none_iff.1 hlast, startOf, hanchor]
  · rename_i name hlast
    split
    · exact (textualPlace_concat t p.anchor p.names "..").trans (if_pos rfl)
    · rename_i hname
      obtain ⟨before, hnames⟩ := List.getLast?_eq_some_iff.1 hlast
      have hplace := textualPlace_concat t p.anchor before name
      rw [if_neg hname, ← hnames] at hplace
      rw [hnames, List.dropLast_concat]
      exact (hplace ▸ List.dropLast_concat).symm

theorem textualPlace_atTarget (t : FileTree) (p : Path) (target : String) :
    t.textualPlace (p.atTarget target) = targetStart (t.textualPlace p) target := by
  unfold Path.atTarget targetStart
  split <;> simp [textualPlace, startOf]

theorem textualPlace_base (t : FileTree) (p : Path) : t.textualPlace p.base = t.startOf p := by
  unfold textualPlace Path.base startOf
  by_cases hanchor : p.anchor = .here <;> simp [hanchor]

theorem nul_not_mem_target {place : Place} {target : String}
    (h : t.node? place = some (.link target)) : '\x00' ∉ target.toList := by
  unfold node? at h
  split at h
  · cases h
  · obtain ⟨before, after, hentries, -⟩ := List.lookup_eq_some_iff.1 h
    have hproper := t.proper (place, .link target) (by simp [hentries])
    simpa [isEntry] using (Bool.and_eq_true_iff.1 hproper).2

theorem nul_not_mem_pieces_target {place : Place} {target : String}
    (h : t.node? place = some (.link target)) :
    ∀ piece ∈ Path.pieces target, '\x00' ∉ piece.toList :=
  fun _ hpiece => Path.nul_not_mem_pieces (nul_not_mem_target h) hpiece

-- ============================================================ expansion

/-- Behind the real path `p`, pieces expand to a real path over as many
links, each of which is written short enough to be looked at. -/
inductive Expands (t : FileTree) : Path → List String → Path → Nat → Prop where
  | done {p : Path} : Expands t p [] p 0
  | stay {p q : Path} {piece : String} {rest : List String} {n : Nat}
      (hstep : Step.ofName piece = .stay) (h : Expands t p rest q n) :
      Expands t p (piece :: rest) q n
  | up {p q : Path} {piece : String} {rest : List String} {n : Nat}
      (hstep : Step.ofName piece = .up) (h : Expands t p.up rest q n) :
      Expands t p (piece :: rest) q n
  | into {p q : Path} {piece name : String} {rest : List String} {n : Nat}
      (hstep : Step.ofName piece = .into name)
      (hplain : t.isLinkAt (t.textualPlace p ++ [name]) = false)
      (h : Expands t (p.below [name]) rest q n) : Expands t p (piece :: rest) q n
  | follow {p q r : Path} {piece name target : String} {rest : List String} {m n : Nat}
      (hstep : Step.ofName piece = .into name)
      (hlink : t.node? (t.textualPlace p ++ [name]) = some (.link target))
      (hshort : isTooLong (p.below [name]).text = false)
      (htarget : Expands t (p.atTarget target) (Path.pieces target) r m)
      (h : Expands t r rest q n) : Expands t p (piece :: rest) q (m + n + 1)

namespace Expands

/-- From one place, however it is written, the same pieces expand to one
place over as many links; and from one path to one path. -/
theorem agree {p' q' : Path} {n' : Nat} (h : Expands t p pieces q n)
    (h' : Expands t p' pieces q' n') (hplace : t.textualPlace p = t.textualPlace p') :
    t.textualPlace q = t.textualPlace q' ∧ n = n' ∧ (p = p' → q = q') := by
  induction h generalizing p' q' n' with
  | done =>
      cases h'
      exact ⟨hplace, rfl, fun heq => heq⟩
  | stay hstep _ ih =>
      cases h' with
      | stay _ h' => exact ih h' hplace
      | _ => simp_all
  | up hstep _ ih =>
      cases h' with
      | up _ h' =>
          obtain ⟨hq, hn, hpath⟩ := ih h' (by rw [textualPlace_up, textualPlace_up, hplace])
          exact ⟨hq, hn, fun heq => hpath (by rw [heq])⟩
      | _ => simp_all
  | into hstep hplain _ ih =>
      cases h' with
      | into hstep' _ h' =>
          rw [hstep] at hstep'
          cases hstep'
          have hname := (Step.of_ofName_eq_into hstep).2
          obtain ⟨hq, hn, hpath⟩ := ih h' (by
            rw [textualPlace_below t _ hname, textualPlace_below t _ hname, hplace])
          exact ⟨hq, hn, fun heq => hpath (by rw [heq])⟩
      | follow hstep' hlink =>
          rw [hstep] at hstep'
          cases hstep'
          rw [hplace, isLinkAt_of_link hlink] at hplain
          cases hplain
      | _ => simp_all
  | follow hstep hlink _ _ _ ihtarget ih =>
      cases h' with
      | into hstep' hplain =>
          rw [hstep] at hstep'
          cases hstep'
          rw [← hplace, isLinkAt_of_link hlink] at hplain
          cases hplain
      | follow hstep' hlink' _ htarget' h' =>
          rw [hstep] at hstep'
          cases hstep'
          rw [← hplace, hlink] at hlink'
          cases hlink'
          obtain ⟨hr, rfl, htarget⟩ := ihtarget htarget' (by
            rw [textualPlace_atTarget, textualPlace_atTarget, hplace])
          obtain ⟨hq, rfl, hpath⟩ := ih h' hr
          exact ⟨hq, rfl, fun heq => hpath (htarget (by rw [heq]))⟩
      | _ => simp_all

theorem unique {q' : Path} {n' : Nat} (h : Expands t p pieces q n)
    (h' : Expands t p pieces q' n') : q = q' :=
  (h.agree h' rfl).2.2 rfl

/-- What pieces expand to names the place that they lead to. -/
theorem leadsTo {rest : List Step} {place : Place} (h : Expands t p pieces q n)
    (hlead : LeadsTo t (t.textualPlace p) (pieces.map Step.ofName ++ rest) place) :
    LeadsTo t (t.textualPlace q) rest place := by
  induction h generalizing rest with
  | done => exact hlead
  | stay hstep _ ih =>
      rw [List.map_cons, hstep] at hlead
      cases hlead with
      | stay _ hlead => exact ih hlead
  | up hstep _ ih =>
      rw [List.map_cons, hstep] at hlead
      cases hlead with
      | up _ hlead => exact ih (by rwa [textualPlace_up])
  | into hstep hplain _ ih =>
      rw [List.map_cons, hstep] at hlead
      cases hlead with
      | into _ _ _ hlead =>
          refine ih ?_
          rwa [textualPlace_below t _ (Step.of_ofName_eq_into hstep).2]
      | follow _ hlink _ =>
          rw [isLinkAt_of_link hlink] at hplain
          cases hplain
  | follow hstep hlink _ _ _ ihtarget ih =>
      rw [List.map_cons, hstep] at hlead
      cases hlead with
      | into _ _ hplain _ =>
          rw [isLinkAt_of_link hlink] at hplain
          cases hplain
      | follow _ hlink' hlead =>
          rw [hlink] at hlink'
          cases hlink'
          refine ih (ihtarget ?_)
          rwa [textualPlace_atTarget]

/-- A real path never starts with two slashes. -/
theorem anchor_ne (h : Expands t p pieces q n) (hp : p.anchor ≠ .doubleTop) :
    q.anchor ≠ .doubleTop := by
  induction h with
  | done => exact hp
  | stay _ _ ih => exact ih hp
  | up _ _ ih =>
      refine ih ?_
      unfold Path.up
      split
      · split <;> exact hp
      · split <;> exact hp
  | into _ _ _ ih => exact ih hp
  | follow _ _ _ _ _ ihtarget ih =>
      refine ih (ihtarget ?_)
      unfold Path.atTarget
      split
      · nofun
      · exact hp

theorem hasNul_eq_false (h : Expands t p pieces q n) (hp : p.hasNul = false)
    (hpieces : ∀ piece ∈ pieces, '\x00' ∉ piece.toList) : q.hasNul = false := by
  induction h with
  | done => exact hp
  | stay _ _ ih => exact ih hp (List.forall_mem_cons.1 hpieces).2
  | up _ _ ih => exact ih (Path.hasNul_up hp) (List.forall_mem_cons.1 hpieces).2
  | into hstep _ _ ih =>
      obtain ⟨hpiece, hrest⟩ := List.forall_mem_cons.1 hpieces
      rw [(Step.of_ofName_eq_into hstep).1] at hpiece
      exact ih (Path.hasNul_below hp hpiece) hrest
  | follow _ hlink _ _ _ ihtarget ih =>
      have hr := ihtarget (Path.hasNul_atTarget hp _) (nul_not_mem_pieces_target hlink)
      exact ih hr (List.forall_mem_cons.1 hpieces).2

end Expands

-- ============================================================ link cost

/-- Expanding the link at a place goes through as many links behind it. -/
def LinkCost (t : FileTree) (place : Place) (m : Nat) : Prop :=
  ∃ p name target r, place = t.textualPlace p ++ [name]
    ∧ t.node? place = some (.link target)
    ∧ t.Expands (p.atTarget target) (Path.pieces target) r m

theorem LinkCost.of_link {name target : String} {r : Path} {m : Nat}
    (hlink : t.node? (t.textualPlace p ++ [name]) = some (.link target))
    (hexp : t.Expands (p.atTarget target) (Path.pieces target) r m) :
    t.LinkCost (t.textualPlace p ++ [name]) m :=
  ⟨p, name, target, r, rfl, hlink, hexp⟩

theorem LinkCost.unique {place : Place} {m m' : Nat} (h : t.LinkCost place m)
    (h' : t.LinkCost place m') : m = m' := by
  obtain ⟨p, name, target, r, hplace, hlink, hexp⟩ := h
  obtain ⟨p', name', target', r', hplace', hlink', hexp'⟩ := h'
  rw [hlink] at hlink'
  cases hlink'
  have hdir := (List.append_inj' (hplace.symm.trans hplace') rfl).1
  refine (hexp.agree hexp' ?_).2.1
  rw [textualPlace_atTarget, textualPlace_atTarget, hdir]

/-- Different places with links are no more than the links. -/
theorem length_le_linkCount {places : List Place} (hnodup : places.Nodup)
    (hlink : ∀ place ∈ places, ∃ m, t.LinkCost place m) : places.length ≤ t.linkCount := by
  have hsub : places ⊆ (t.entries.filter fun e => e.2.isLink).map Prod.fst := by
    intro place hmem
    obtain ⟨m, p, name, target, r, hplace, hnode, -⟩ := hlink place hmem
    have hne : place ≠ [] := by simp [hplace]
    rw [node?, if_neg hne] at hnode
    obtain ⟨before, after, hentries, -⟩ := List.lookup_eq_some_iff.1 hnode
    refine List.mem_map.2 ⟨(place, .link target), List.mem_filter.2 ⟨?_, rfl⟩, rfl⟩
    simp [hentries]
  have hle := hnodup.length_le_of_subset hsub
  rwa [List.length_map, ← List.countP_eq_length_filter] at hle

-- ================================================== expanding by a table

section Table

variable {met : MetLinks} {piece name target : String} {rest : List String}

theorem linkAt?_eq_none (t : FileTree) {next : Path}
    (h : t.isLinkAt (t.textualPlace next) = false) : t.linkAt? next = none := by
  unfold linkAt?
  split
  · rfl
  · split
    · rename_i hlink
      rw [isLinkAt_of_link hlink] at h
      cases h
    · rfl

theorem linkAt?_eq_some (t : FileTree) {next : Path} (hshort : isTooLong next.text = false)
    (hlink : t.node? (t.textualPlace next) = some (.link target)) :
    t.linkAt? next = some target := by
  simp [linkAt?, hshort, hlink]

theorem expand_nil (depth : Nat) : t.expand depth met p [] = .ok ⟨p, false, met⟩ := by
  cases depth <;> rfl

theorem expand_stay (depth : Nat) (hstep : Step.ofName piece = .stay) :
    t.expand depth met p (piece :: rest) = t.expand depth met p rest := by
  cases depth <;> simp [expand, expandWith, hstep]

theorem expand_up (depth : Nat) (hstep : Step.ofName piece = .up) :
    t.expand depth met p (piece :: rest) = t.expand depth met p.up rest := by
  cases depth <;> simp [expand, expandWith, hstep]

theorem expand_into (depth : Nat) (hstep : Step.ofName piece = .into name)
    (hnul : (p.below [name]).hasNul = false) (hplain : t.linkAt? (p.below [name]) = none) :
    t.expand depth met p (piece :: rest) = t.expand depth met (p.below [name]) rest := by
  cases depth <;> simp [expand, expandWith, hstep, hnul, hplain]

theorem expand_known (depth : Nat) {real : Path} (hstep : Step.ofName piece = .into name)
    (hnul : (p.below [name]).hasNul = false) (hlink : t.linkAt? (p.below [name]) = some target)
    (hmet : met.lookup (p.below [name]) = some (some real)) :
    t.expand depth met p (piece :: rest) = t.expand depth met real rest := by
  cases depth <;> simp [expand, expandWith, hstep, hnul, hlink, hmet]

theorem expand_fresh (depth : Nat) {r : Path} {met' : MetLinks}
    (hstep : Step.ofName piece = .into name) (hnul : (p.below [name]).hasNul = false)
    (hlink : t.linkAt? (p.below [name]) = some target)
    (hmet : met.lookup (p.below [name]) = none)
    (htarget : t.expand depth ((p.below [name], none) :: met) (p.atTarget target)
      (Path.pieces target) = .ok ⟨r, false, met'⟩) :
    t.expand (depth + 1) met p (piece :: rest)
      = t.expand (depth + 1) ((p.below [name], some r) :: met') r rest := by
  simp [expand, expandWith, hstep, hnul, hlink, hmet, htarget]

/-- Every finished entry of a table holds what its link expands to. -/
def Finished (t : FileTree) (met : MetLinks) : Prop :=
  ∀ p name target real r m, met.lookup (p.below [name]) = some (some real) →
    t.node? (t.textualPlace p ++ [name]) = some (.link target) →
    t.Expands (p.atTarget target) (Path.pieces target) r m → real = r

/-- Every entry under way stands at one of the places. -/
def UnderWay (t : FileTree) (met : MetLinks) (above : List Place) : Prop :=
  ∀ p name, met.lookup (p.below [name]) = some none → t.textualPlace p ++ [name] ∈ above

theorem Finished.cons_none (h : t.Finished met) (next : Path) :
    t.Finished ((next, none) :: met) := by
  intro p name target real r m hlookup
  rw [List.lookup_cons] at hlookup
  split at hlookup
  · cases hlookup
  · exact h p name target real r m hlookup

theorem Finished.cons_some {r : Path} {m : Nat} (h : t.Finished met)
    (hlink : t.node? (t.textualPlace p ++ [name]) = some (.link target))
    (hexp : t.Expands (p.atTarget target) (Path.pieces target) r m) :
    t.Finished ((p.below [name], some r) :: met) := by
  intro p' name' target' real r' m' hlookup hlink' hexp'
  rw [List.lookup_cons] at hlookup
  split at hlookup
  · rename_i heq
    obtain ⟨rfl, rfl⟩ := Path.below_singleton_inj.1 (eq_of_beq heq)
    cases hlookup
    rw [hlink] at hlink'
    cases hlink'
    exact hexp.unique hexp'
  · exact h p' name' target' real r' m' hlookup hlink' hexp'

theorem UnderWay.cons_none {above : List Place} (h : t.UnderWay met above) (p : Path)
    (name : String) :
    t.UnderWay ((p.below [name], none) :: met) ((t.textualPlace p ++ [name]) :: above) := by
  intro p' name' hlookup
  rw [List.lookup_cons] at hlookup
  split at hlookup
  · rename_i heq
    obtain ⟨rfl, rfl⟩ := Path.below_singleton_inj.1 (eq_of_beq heq)
    exact List.mem_cons_self ..
  · exact List.mem_cons_of_mem _ (h p' name' hlookup)

end Table

-- ================================================ the table does no harm

/-- What holds when pieces are expanded that go through `n` links: the
links under way stand at different places, each costs at least as much,
and the depth is enough for all others. -/
structure Ready (t : FileTree) (met : MetLinks) (above : List Place) (depth n : Nat) : Prop where
  finished : t.Finished met
  underWay : t.UnderWay met above
  nodup : above.Nodup
  costly : ∀ place ∈ above, ∃ m, t.LinkCost place m ∧ n ≤ m
  deep : t.linkCount < depth + above.length

namespace Ready

variable {met : MetLinks} {above : List Place} {depth m : Nat} {name target : String} {r : Path}

theorem mono {n' : Nat} (h : t.Ready met above depth n) (hle : n' ≤ n) :
    t.Ready met above depth n' := by
  refine ⟨h.finished, h.underWay, h.nodup, ?_, h.deep⟩
  intro place hmem
  obtain ⟨m, hcost, hm⟩ := h.costly place hmem
  exact ⟨m, hcost, Nat.le_trans hle hm⟩

/-- A link that costs less is not under way. -/
theorem not_mem {place : Place} (h : t.Ready met above depth n) (hcost : t.LinkCost place m)
    (hless : m < n) : place ∉ above := by
  intro hmem
  obtain ⟨m', hcost', hle⟩ := h.costly place hmem
  have heq := hcost.unique hcost'
  omega

/-- Inside a link that is met for the first time. -/
theorem nested (h : t.Ready met above depth (m + n + 1))
    (hlink : t.node? (t.textualPlace p ++ [name]) = some (.link target))
    (hexp : t.Expands (p.atTarget target) (Path.pieces target) r m) :
    ∃ depth', depth = depth' + 1
      ∧ t.Ready ((p.below [name], none) :: met) ((t.textualPlace p ++ [name]) :: above) depth' m := by
  have hcost := LinkCost.of_link hlink hexp
  have hnodup : ((t.textualPlace p ++ [name]) :: above).Nodup :=
    List.nodup_cons.2 ⟨h.not_mem hcost (by omega), h.nodup⟩
  have hcostly : ∀ place ∈ (t.textualPlace p ++ [name]) :: above,
      ∃ m', t.LinkCost place m' ∧ m ≤ m' := by
    intro place hmem
    rcases List.mem_cons.1 hmem with rfl | hmem
    · exact ⟨m, hcost, Nat.le_refl _⟩
    · obtain ⟨m', hcost', hle⟩ := h.costly place hmem
      exact ⟨m', hcost', by omega⟩
  -- the links under way and this one are no more than all links
  have hfew := length_le_linkCount hnodup fun place hmem =>
    let ⟨m', hcost', _⟩ := hcostly place hmem
    ⟨m', hcost'⟩
  have hdeep := h.deep
  rw [List.length_cons] at hfew
  refine ⟨depth - 1, by omega, h.finished.cons_none _, h.underWay.cons_none p name, hnodup,
    hcostly, ?_⟩
  rw [List.length_cons]
  omega

/-- Behind a link that has just been expanded. -/
theorem after {met' : MetLinks} (h : t.Ready met above depth (m + n + 1))
    (hlink : t.node? (t.textualPlace p ++ [name]) = some (.link target))
    (hexp : t.Expands (p.atTarget target) (Path.pieces target) r m)
    (hfinished : t.Finished met')
    (hopen : ∀ key, met'.lookup key = some none →
      List.lookup key ((p.below [name], none) :: met) = some none) :
    t.Ready ((p.below [name], some r) :: met') above depth n := by
  refine ⟨hfinished.cons_some hlink hexp, ?_, h.nodup, (h.mono (by omega)).costly, h.deep⟩
  -- the link itself is finished, and no other has come under way
  intro p' name' hlookup
  rw [List.lookup_cons] at hlookup
  split at hlookup
  · cases hlookup
  · rename_i hne
    have hold := hopen _ hlookup
    rw [List.lookup_cons, hne] at hold
    exact h.underWay p' name' hold

end Ready

/-- Expanding with the table comes to what the pieces expand to, and
leaves no more entries under way than there were. -/
theorem Expands.expand_eq {met : MetLinks} {above : List Place} {depth : Nat}
    (h : t.Expands p pieces q n) (hready : t.Ready met above depth n) (hp : p.hasNul = false)
    (hpieces : ∀ piece ∈ pieces, '\x00' ∉ piece.toList) :
    ∃ met', t.expand depth met p pieces = .ok ⟨q, false, met'⟩ ∧ t.Finished met'
      ∧ ∀ key, met'.lookup key = some none → met.lookup key = some none := by
  induction h generalizing met above depth with
  | done => exact ⟨met, expand_nil depth, hready.finished, fun _ h => h⟩
  | stay hstep _ ih =>
      rw [expand_stay depth hstep]
      exact ih hready hp (List.forall_mem_cons.1 hpieces).2
  | up hstep _ ih =>
      rw [expand_up depth hstep]
      exact ih hready (Path.hasNul_up hp) (List.forall_mem_cons.1 hpieces).2
  | @into p q piece name rest n hstep hplain _ ih =>
      obtain ⟨hpiece, hrest⟩ := List.forall_mem_cons.1 hpieces
      obtain ⟨rfl, hname⟩ := Step.of_ofName_eq_into hstep
      have hnul := Path.hasNul_below hp hpiece
      have hnone : t.linkAt? (p.below [piece]) = none := by
        refine linkAt?_eq_none t ?_
        rwa [textualPlace_below t p hname]
      rw [expand_into depth hstep hnul hnone]
      exact ih hready hnul hrest
  | @follow p q r piece name target rest m n hstep hlink hshort htarget _ ihtarget ih =>
      obtain ⟨hpiece, hrest⟩ := List.forall_mem_cons.1 hpieces
      obtain ⟨rfl, hname⟩ := Step.of_ofName_eq_into hstep
      have hnul := Path.hasNul_below hp hpiece
      have hinner := nul_not_mem_pieces_target hlink
      have hr : r.hasNul = false := htarget.hasNul_eq_false (Path.hasNul_atTarget hp _) hinner
      have hsome : t.linkAt? (p.below [piece]) = some target := by
        refine linkAt?_eq_some t hshort ?_
        rwa [textualPlace_below t p hname]
      cases hmet : met.lookup (p.below [piece]) with
      | some entry =>
          cases entry with
          | some real =>
              obtain rfl := hready.finished p piece target real r m hmet hlink htarget
              rw [expand_known depth hstep hnul hsome hmet]
              exact ih (hready.mono (by omega)) hr hrest
          | none =>
              -- a link under way costs more than what is left
              have hmem := hready.underWay p piece hmet
              exact absurd hmem (hready.not_mem (.of_link hlink htarget) (by omega))
      | none =>
          obtain ⟨depth, rfl, hnested⟩ := hready.nested hlink htarget
          obtain ⟨met', hexpand, hfinished, hopen⟩ :=
            ihtarget hnested (Path.hasNul_atTarget hp _) hinner
          have hafter := hready.after hlink htarget hfinished hopen
          obtain ⟨met'', hexpand', hfinished', hopen'⟩ := ih hafter hr hrest
          refine ⟨met'', ?_, hfinished', ?_⟩
          · rw [expand_fresh depth hstep hnul hsome hmet hexpand, hexpand']
          · intro key hkey
            have hkey' := hopen' key hkey
            rw [List.lookup_cons] at hkey'
            split at hkey'
            · cases hkey'
            · rename_i hne
              have hkey'' := hopen key hkey'
              rwa [List.lookup_cons, hne] at hkey''

-- ============================================================= real path

/-- No link is too long to be looked at on the way along a path. -/
def Tellable (t : FileTree) (p : Path) : Prop :=
  ∃ q n, t.Expands p.base p.names q n

/-- The real path of a path is the place that it leads to. -/
theorem Tellable.realPath_eq {place : Place} (h : t.Tellable p) (hlead : t.Leads p place)
    (hnul : p.hasNul = false) : t.realPath p = .ok ⟨.top, place⟩ := by
  obtain ⟨q, n, hexp⟩ := h
  have hready : t.Ready [] [] t.expansionDepth n := by
    refine ⟨nofun, nofun, List.nodup_nil, nofun, ?_⟩
    unfold expansionDepth
    have hmul : 1 * t.linkCount ≤ (t.here.length + 2) * t.linkCount :=
      Nat.mul_le_mul_right _ (by omega)
    rw [List.length_nil]
    omega
  have hbase : p.base.hasNul = false := Path.hasNul_eq_false_iff.2 nofun
  obtain ⟨met, hexpand, -, -⟩ := hexp.expand_eq hready hbase (Path.hasNul_eq_false_iff.1 hnul)
  have hplace : t.textualPlace q = place := by
    have hlead' : LeadsTo t (t.textualPlace p.base) (p.names.map Step.ofName ++ []) place := by
      rw [textualPlace_base, List.append_nil]
      exact hlead
    exact (LeadsTo.unique (hexp.leadsTo hlead') .done).symm
  have hanchor : q.anchor ≠ .doubleTop := by
    refine hexp.anchor_ne ?_
    unfold Path.base
    split <;> nofun
  unfold realPath
  rw [hexpand]
  show Except.ok (t.absolute q) = _
  rw [absolute, hplace]
  cases hq : q.anchor with
  | doubleTop => exact absurd hq hanchor
  | _ => rfl

end FileTree

end DocAudit
