/-
Which paths a report can tell, and which it cannot.

A report tells a file by comparing what its path stands for with what the
path of the root stands for. A path stands for its real path, and for
itself where the system declines to resolve it (`StandsFor`). Neither
links that lead nowhere nor names that are missing or too long keep a path
from standing for another, so among paths without U+0000 only one kind is
left that stands for nothing: those whose real path still runs into a
circle of links (`EndsInCircle`). It is not replaced by itself, and the
report fails.

There is one more failure. Where the file and the root stand for one path,
the report asks whether that path leads to a file, and there is no answer
for a path that is too long. `Untold` lists these failures, with what each
of them says. In all other cases the file is told, and by its path as it
is written wherever what it stands for does not lie below what the root
stands for.
-/
import DocAudit.Proofs.ReportedPaths

namespace DocAudit

-- ========================================================= below a base

namespace Path

theorem relativeTo?_self (p : Path) : p.relativeTo? p = some ⟨.here, []⟩ := by
  simp [relativeTo?]

/-- What remains of a path below a base is what the base was extended by. -/
theorem exists_below_of_relativeTo? {p base rest : Path} (h : p.relativeTo? base = some rest) :
    ∃ names, p = base.below names := by
  unfold relativeTo? at h
  split at h
  · rename_i hbelow
    rw [Bool.and_eq_true, decide_eq_true_iff, List.isPrefixOf_iff_prefix] at hbelow
    obtain ⟨hanchor, names, hnames⟩ := hbelow
    refine ⟨names, ?_⟩
    rw [below, hnames, ← hanchor]
  · cases h

end Path

namespace Disk

variable {d : Disk} {p root q real realFile realRoot : Path} {failure : Failure}

-- ============================================= what a path stands for

/-- What a path stands for when it is compared. -/
inductive StandsFor (d : Disk) (q : Path) : Path → Prop
  /-- The system declines to resolve it. -/
  | declined : q.text ∈ d.unresolvable → StandsFor d q q
  | resolved {real : Path} : q.text ∉ d.unresolvable → d.tree.realPath q = .ok real →
      d.tree.find real ≠ .error .tooManyLinks → StandsFor d q real

/-- The real path of a path still runs into a circle of links. -/
structure EndsInCircle (d : Disk) (q real : Path) : Prop where
  asked : q.text ∉ d.unresolvable
  realPath_eq : d.tree.realPath q = .ok real
  circle : d.tree.find real = .error .tooManyLinks

/-- A path stands for another, or it ends in a circle. -/
theorem standsFor_or_endsInCircle (d : Disk) (hq : q.hasNul = false) :
    (∃ real, d.StandsFor q real) ∨ ∃ real, d.EndsInCircle q real := by
  by_cases hasked : q.text ∈ d.unresolvable
  · exact .inl ⟨q, .declined hasked⟩
  · obtain ⟨real, hreal⟩ := FileTree.exists_realPath (t := d.tree) hq
    by_cases hcircle : d.tree.find real = .error .tooManyLinks
    · exact .inr ⟨real, hasked, hreal, hcircle⟩
    · exact .inl ⟨real, .resolved hasked hreal hcircle⟩

section

variable (hhere : ∀ name ∈ d.tree.here, '\x00' ∉ name.toList)

include hhere

theorem StandsFor.hasNul_eq_false (h : d.StandsFor q real) (hq : q.hasNul = false) :
    real.hasNul = false := by
  cases h with
  | declined _ => exact hq
  | resolved _ hreal _ => exact FileTree.hasNul_realPath hhere hq hreal

theorem StandsFor.resolve_eq (h : d.StandsFor q real) (hq : q.hasNul = false) :
    d.resolve q = .ok real := by
  have hnul := h.hasNul_eq_false hhere hq
  unfold resolve
  cases h with
  | declined hasked => rw [if_pos hasked]
  | resolved hasked hreal hfind =>
      simp only [if_neg hasked, hreal, hnul, Bool.false_eq_true, if_false]

theorem EndsInCircle.resolve_eq (h : d.EndsInCircle q real) (hq : q.hasNul = false) :
    d.resolve q = .error (.linkLoop real.text) := by
  have hnul := FileTree.hasNul_realPath hhere hq h.realPath_eq
  simp only [resolve, if_neg h.asked, h.realPath_eq, hnul, Bool.false_eq_true, if_false, h.circle]

end

-- ======================================================= what is told

/-- A file that does not lie below the root is told as it is written. -/
theorem reportedPath_of_apart (hp : d.resolve p = .ok realFile) (hroot : d.resolve root = .ok realRoot)
    (hapart : ∀ names, realFile ≠ realRoot.below names) : d.reportedPath p root = .ok p.text := by
  have hother : realFile ≠ realRoot := by
    have hnil := hapart []
    rwa [Path.below_nil] at hnil
  have hrest : realFile.relativeTo? realRoot = none := by
    cases hrest : realFile.relativeTo? realRoot with
    | none => rfl
    | some rest =>
        obtain ⟨names, hnames⟩ := Path.exists_below_of_relativeTo? hrest
        exact absurd hnames (hapart names)
  unfold reportedPath
  rw [hp, hroot]
  simp only [bind, Except.bind, if_neg hother, pure, Except.pure, Bool.false_eq_true, if_false, hrest]

/-- The root itself is told by its name if it is a file. -/
theorem reportedPath_of_same (hp : d.resolve p = .ok real) (hroot : d.resolve root = .ok real) :
    d.reportedPath p root = (d.isFile real).map fun isFile => if isFile then p.name else "." := by
  unfold reportedPath
  rw [hp, hroot]
  simp only [bind, Except.bind, if_true]
  cases d.isFile real with
  | error e => rfl
  | ok isFile =>
      cases isFile with
      | true => rfl
      | false =>
          rw [Path.relativeTo?_self]
          rfl

/-- Why a file cannot be told. -/
inductive Untold (d : Disk) (p root : Path) : Failure → Prop
  | circle {real : Path} : d.EndsInCircle p real → Untold d p root (.linkLoop real.text)
  | rootCircle {realFile real : Path} : d.StandsFor p realFile → d.EndsInCircle root real →
      Untold d p root (.linkLoop real.text)
  /-- The file and the root stand for one path that is too long. -/
  | tooLong {real : Path} : d.StandsFor p real → d.StandsFor root real →
      d.tree.find real = .error .nameTooLong →
      Untold d p root (.fault (.ofObstacle .nameTooLong real.text))

section

variable (hhere : ∀ name ∈ d.tree.here, '\x00' ∉ name.toList) (hp : p.hasNul = false)
  (hroot : root.hasNul = false)

include hhere hp hroot

theorem Untold.reportedPath_eq (h : d.Untold p root failure) :
    d.reportedPath p root = .error failure := by
  cases h with
  | circle hcircle =>
      unfold reportedPath
      rw [hcircle.resolve_eq hhere hp]
      rfl
  | rootCircle hfile hcircle =>
      unfold reportedPath
      rw [hfile.resolve_eq hhere hp, hcircle.resolve_eq hhere hroot]
      rfl
  | tooLong hfile hsame hfind =>
      have hnul := hfile.hasNul_eq_false hhere hp
      have hunknown := (isFile_eq_error hnul).2 ⟨find_eq_nameTooLong.1 hfind, rfl⟩
      rw [reportedPath_of_same (hfile.resolve_eq hhere hp) (hsame.resolve_eq hhere hroot), hunknown]
      rfl

theorem told_or_untold :
    (∃ text, d.reportedPath p root = .ok text) ∨ ∃ failure, d.Untold p root failure := by
  rcases standsFor_or_endsInCircle d hp with ⟨realFile, hfile⟩ | ⟨real, hcircle⟩
  · rcases standsFor_or_endsInCircle d hroot with ⟨realRoot, hbase⟩ | ⟨real, hcircle⟩
    · have hresolved := hfile.resolve_eq hhere hp
      have hresolvedRoot := hbase.resolve_eq hhere hroot
      by_cases hbelow : ∃ names, realFile = realRoot.below names
      · obtain ⟨names, rfl⟩ := hbelow
        by_cases hnames : names = []
        · rw [hnames, Path.below_nil] at hfile hresolved
          cases hisFile : d.isFile realRoot with
          | ok isFile =>
              have htold := reportedPath_of_same hresolved hresolvedRoot
              rw [hisFile] at htold
              exact .inl ⟨_, htold⟩
          | error failure =>
              have hnul := hbase.hasNul_eq_false hhere hroot
              have hlong := ((isFile_eq_error hnul).1 hisFile).1
              exact .inr ⟨_, .tooLong hfile hbase (find_eq_nameTooLong.2 hlong)⟩
        · exact .inl ⟨_, reportedPath_of_resolve hresolved hresolvedRoot hnames⟩
      · exact .inl ⟨_, reportedPath_of_apart hresolved hresolvedRoot (not_exists.1 hbelow)⟩
    · exact .inr ⟨_, .rootCircle hfile hcircle⟩
  · exact .inr ⟨_, .circle hcircle⟩

end

/-- Two links that lead to each other, and a link to a directory in which
the system declines to resolve a file. -/
def crossedLinks : Disk where
  tree :=
    { here := ["w"]
      entries := [(["w"], .directory), (["w", "c1"], .link "c2"), (["w", "c2"], .link "c1"),
        (["w", "src"], .directory), (["w", "src", "A.java"], .file []), (["w", "s"], .link "src")]
      proper := by decide }
  unresolvable := ["src/A.java"]

end Disk

end DocAudit
