/-
Accepted settings are in normal form, and stay as they are.

What a user types is checked and brought into a normal form at once: the
extension is stripped and lower-cased, the names to skip are stripped, and
the number of workers is kept within its limits. `IsNormal` says what this
comes to, without saying how it is done. Settings that are accepted are in
normal form (`isNormal_of_ofTyped`), and settings in normal form, typed
again, are accepted and come back, on any machine and however the names to
skip are listed (`IsNormal.ofTyped_eq`).

The checks on the extension look at its normal form, so they have to see
the same text the second time. That is a matter of letter case: putting a
text in lower case brings no blank to its ends (`IsTrimmed.lowerCase`) and
leaves nothing to do for a second time (`lowerCase_lowerCase`). For the
same reason a file name has the accepted extension exactly if it has the
one that was typed.
-/
import DocAudit.Proofs.LowerCased
import DocAudit.Proofs.Numerals
import DocAudit.Proofs.Ordering
import DocAudit.Settings.Typed

namespace DocAudit.Settings

open Text

variable {typed : Typed} {processors : Option Int} {c : Settings}

-- ==================================================== what is accepted

theorem skipNames_eq_ok {given names : List String} :
    skipNames given = .ok names
      ↔ (∀ name ∈ given, strip name.toList ≠ [])
        ∧ names = NameSet.ofList (given.map fun name => String.ofList (strip name.toList)) := by
  have hempty : (given.map fun name => strip name.toList).any List.isEmpty = true
      ↔ ¬∀ name ∈ given, strip name.toList ≠ [] := by
    simp
  simp only [skipNames, List.map_map, Function.comp_def, hempty]
  split
  · rename_i hsome
    simp [hsome]
  · rename_i hnone
    rw [Except.ok.injEq, and_iff_right (not_not.1 hnone), eq_comm]

theorem isPrefixOf_dot_iff {s : List Char} : ".".toList.isPrefixOf s = true ↔ s.head? = some '.' := by
  rw [List.isPrefixOf_iff_prefix]
  constructor
  · intro h
    obtain ⟨rest, rfl⟩ := h
    rfl
  · intro h
    obtain ⟨rest, rfl⟩ := List.head?_eq_some_iff.1 h
    exact ⟨rest, rfl⟩

/-- An extension is judged by its normal form. -/
theorem extensionOf_eq_ok {given ext : String} :
    extensionOf given = .ok ext
      ↔ ((word given).head? = some '.' ∧ 2 ≤ (word given).length)
        ∧ ('/' ∉ word given ∧ '\\' ∉ word given) ∧ ext.toList = word given := by
  have hshape : (!".".toList.isPrefixOf (word given) || (word given).length < 2) = true
      ↔ ¬((word given).head? = some '.' ∧ 2 ≤ (word given).length) := by
    rw [Bool.or_eq_true, Bool.not_eq_true', ← Bool.not_eq_true, isPrefixOf_dot_iff,
      decide_eq_true_iff, not_and_or, Nat.not_le]
  have hseparators : ((word given).contains '/' || (word given).contains '\\') = true
      ↔ ¬('/' ∉ word given ∧ '\\' ∉ word given) := by
    rw [Bool.or_eq_true, List.contains_iff_mem, List.contains_iff_mem, not_and_or, not_not, not_not]
  have hext : String.ofList (word given) = ext ↔ ext.toList = word given := by
    rw [← String.toList_inj, String.toList_ofList, eq_comm]
  show (if (!".".toList.isPrefixOf (word given) || (word given).length < 2) = true then _
    else if ((word given).contains '/' || (word given).contains '\\') = true then _
    else Except.ok (String.ofList (word given))) = _ ↔ _
  rw [ite_cond_congr (propext hshape), ite_cond_congr (propext hseparators)]
  split
  · rename_i hnot
    simp [hnot]
  · rename_i hgood
    rw [and_iff_right (not_not.1 hgood)]
    split
    · rename_i hnot
      simp [hnot]
    · rename_i hname
      rw [and_iff_right (not_not.1 hname), Except.ok.injEq, hext]

/-- Settings are accepted part by part. -/
theorem ofTyped_eq_ok :
    ofTyped typed processors = .ok c
      ↔ extensionOf typed.extension = .ok c.extension
        ∧ workerCount typed.workers 1 maxWorkers processors = .ok c.workers
        ∧ skipNames typed.skipDirs = .ok c.skipDirs ∧ typed.followLinks = c.followLinks := by
  obtain ⟨ext, workers, names, follow⟩ := c
  unfold ofTyped
  cases skipNames typed.skipDirs with
  | error e => simp [bind, Except.bind]
  | ok names' =>
      cases extensionOf typed.extension with
      | error e => simp [bind, Except.bind]
      | ok ext' =>
          cases workerCount typed.workers 1 maxWorkers processors with
          | error e => simp [bind, Except.bind]
          | ok workers' => simp [bind, Except.bind, pure, Except.pure]

-- ===================================================== the normal form

/-- Settings in normal form. -/
structure IsNormal (c : Settings) : Prop where
  /-- The extension is a dot and something behind it. -/
  dotted : c.extension.toList.head? = some '.'
  length : 2 ≤ c.extension.length
  /-- It is part of one name. -/
  noSlash : '/' ∉ c.extension.toList
  noBackslash : '\\' ∉ c.extension.toList
  /-- There are no blanks around it, and it is in lower case. -/
  strip_extension : strip c.extension.toList = c.extension.toList
  lowerCase_extension : lowerCase c.extension.toList = c.extension.toList
  /-- The names to skip are not empty, and there are no blanks around them. -/
  names : ∀ name ∈ c.skipDirs, name ≠ "" ∧ strip name.toList = name.toList
  ordered : c.skipDirs.Pairwise (· < ·)
  workers : 1 ≤ c.workers ∧ c.workers ≤ 32

theorem strip_strip (s : List Char) : strip (strip s) = strip s :=
  (isTrimmed_trimBoth isBlank s).trimBoth_eq

/-- Blanks around a word are gone, also once it is in lower case. -/
theorem strip_word (text : String) : strip (word text) = word text :=
  (isTrimmed_trimBoth isBlank text.toList).lowerCase.trimBoth_eq

theorem workers_bounds (hprocessors : ∀ n ∈ processors, 0 ≤ n) {given : Option String} {n : Int}
    (h : workerCount given 1 maxWorkers processors = .ok n) : 1 ≤ n ∧ n ≤ 32 := by
  have hlimit : 1 ≤ maxWorkers := by decide
  cases given with
  | some text => exact workerCount_bounds hlimit hprocessors h
  | none =>
      obtain rfl := Except.ok.inj h
      exact defaultWorkers_bounds 1 hlimit

/-- What is accepted is in normal form. -/
theorem isNormal_of_ofTyped (hprocessors : ∀ n ∈ processors, 0 ≤ n)
    (h : ofTyped typed processors = .ok c) : c.IsNormal := by
  obtain ⟨hextension, hworkers, hskip, -⟩ := ofTyped_eq_ok.1 h
  obtain ⟨⟨hdot, hlength⟩, ⟨hslash, hbackslash⟩, hword⟩ := extensionOf_eq_ok.1 hextension
  obtain ⟨hnonempty, hnames⟩ := skipNames_eq_ok.1 hskip
  constructor
  case dotted => rwa [hword]
  case length => rwa [← String.length_toList, hword]
  case noSlash => rwa [hword]
  case noBackslash => rwa [hword]
  case strip_extension => rw [hword, strip_word]
  case lowerCase_extension => rw [hword, word, lowerCase_lowerCase]
  case names =>
    intro name hname
    rw [hnames, NameSet.mem_ofList] at hname
    obtain ⟨given, hgiven, rfl⟩ := List.mem_map.1 hname
    refine ⟨?_, ?_⟩
    · rw [← String.toList_inj.ne, String.toList_ofList]
      exact hnonempty given hgiven
    · rw [String.toList_ofList, strip_strip]
  case ordered =>
    rw [hnames]
    exact NameSet.pairwise_ofList _
  case workers => exact workers_bounds hprocessors hworkers

-- ========================================================= typed again

namespace IsNormal

/-- A text without blanks around it and in lower case is a word. -/
theorem word_extension (h : c.IsNormal) : word c.extension = c.extension.toList := by
  rw [word, h.strip_extension, h.lowerCase_extension]

theorem extensionOf_eq (h : c.IsNormal) : extensionOf c.extension = .ok c.extension := by
  rw [extensionOf_eq_ok, h.word_extension, String.length_toList]
  exact ⟨⟨h.dotted, h.length⟩, ⟨h.noSlash, h.noBackslash⟩, rfl⟩

theorem skipNames_eq (h : c.IsNormal) {names : List String}
    (hnames : ∀ name, name ∈ names ↔ name ∈ c.skipDirs) : skipNames names = .ok c.skipDirs := by
  have hstrip : names.map (fun name => String.ofList (strip name.toList)) = names := by
    refine (List.map_congr_left fun name hname => ?_).trans (List.map_id names)
    rw [(h.names name ((hnames name).1 hname)).2, String.ofList_toList, id]
  rw [skipNames_eq_ok, hstrip]
  constructor
  · intro name hname
    obtain ⟨hne, hsame⟩ := h.names name ((hnames name).1 hname)
    rwa [hsame, ne_eq, String.toList_eq_nil_iff]
  · refine NameSet.eq_of_mem_iff h.ordered (NameSet.pairwise_ofList names) fun name => ?_
    rw [NameSet.mem_ofList, hnames]

theorem workerCount_eq (h : c.IsNormal) (processors : Option Int) :
    workerCount (some (toString c.workers)) 1 maxWorkers processors = .ok c.workers := by
  obtain ⟨hlow, hhigh⟩ := h.workers
  obtain ⟨n, hn⟩ := Int.eq_ofNat_of_zero_le (by omega : 0 ≤ c.workers)
  rw [hn] at hlow hhigh ⊢
  have hshort : ∀ n ≤ 32, (toString n).length ≤ 4300 ∧ (toString n).toList ≠ [] := by decide
  obtain ⟨hlength, hne⟩ := hshort n (by omega)
  have hcount : workerCount (some (String.ofList ([] ++ (toString n).toList ++ []))) 1 maxWorkers
      processors = .ok (min (n : Int) maxWorkers) :=
    workerCount_of_spaced (by omega) hlength (by simp) (by simp) (.refl hne)
  have hwithin : min (n : Int) maxWorkers = n := Int.min_eq_left hhigh
  rw [List.nil_append, List.append_nil, String.ofList_toList, hwithin] at hcount
  exact hcount

/-- Settings in normal form are accepted as they are. -/
theorem ofTyped_eq (h : c.IsNormal) {names : List String}
    (hnames : ∀ name, name ∈ names ↔ name ∈ c.skipDirs) (processors : Option Int) :
    ofTyped ⟨c.extension, some (toString c.workers), names, c.followLinks⟩ processors = .ok c :=
  ofTyped_eq_ok.2 ⟨h.extensionOf_eq, h.workerCount_eq processors, h.skipNames_eq hnames, rfl⟩

end IsNormal

/-- Settings that are accepted are in normal form; typed again, with the
names to skip listed in any order and any number of times, they are
accepted on any machine and come back; and files have the accepted
extension exactly if they have the one that was typed. -/
theorem ofTyped_fixed (typed : Typed) (processors : Option Int)
    (hprocessors : ∀ n ∈ processors, 0 ≤ n) (c : Settings)
    (h : ofTyped typed processors = .ok c) :
    c.IsNormal
    ∧ (∀ names : List String, (∀ name, name ∈ names ↔ name ∈ c.skipDirs) →
        ∀ machine : Option Int,
          ofTyped ⟨c.extension, some (toString c.workers), names, c.followLinks⟩ machine = .ok c)
    ∧ ∀ p : Path, p.hasExtension c.extension
        = p.hasExtension (String.ofList (strip typed.extension.toList)) := by
  have hnormal := isNormal_of_ofTyped hprocessors h
  refine ⟨hnormal, fun names hnames machine => hnormal.ofTyped_eq hnames machine, fun p => ?_⟩
  obtain ⟨-, -, hword⟩ := extensionOf_eq_ok.1 (ofTyped_eq_ok.1 h).1
  rw [Path.hasExtension, Path.hasExtension, hnormal.lowerCase_extension, hword,
    String.toList_ofList, word]

/-- An extension with two letters whose lower case is not a single letter
of their own, and a machine that counts no processors. -/
theorem ofTyped_fixed_sigma :
    ofTyped ⟨"\u2003.\u0130\u03a3 ", some " Auto", ["out ", "bin", "out"], false⟩ (some 0)
        = .ok ⟨".i\u0307\u03c2", 2, ["bin", "out"], false⟩
      ∧ ofTyped ⟨".i\u0307\u03c2", some "2", ["out", "out", "bin"], false⟩ none
        = .ok ⟨".i\u0307\u03c2", 2, ["bin", "out"], false⟩ := by
  have hextension : extensionOf "\u2003.\u0130\u03a3 " = .ok ".i\u0307\u03c2" := by
    set_option maxRecDepth 4000 in decide
  have haccepted : ofTyped ⟨"\u2003.\u0130\u03a3 ", some " Auto", ["out ", "bin", "out"], false⟩
      (some 0) = .ok ⟨".i\u0307\u03c2", 2, ["bin", "out"], false⟩ :=
    ofTyped_eq_ok.2 ⟨hextension, by decide, by decide, rfl⟩
  have hnames : ∀ name, name ∈ ["out", "out", "bin"] ↔ name ∈ ["bin", "out"] := by
    simp [or_comm]
  exact ⟨haccepted, (ofTyped_fixed _ _ (by simp) _ haccepted).2.1 _ hnames none⟩

end DocAudit.Settings
