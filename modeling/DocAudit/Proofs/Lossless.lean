/-
The document loses nothing.

# What can be read back

`Payload` is what a report says, and `Reports d root a payload` that it
says this of an audit: the root and the extension, the counters, and an
entry for each finding and for each file that could not be read, in
order, under the path reported for it. A document in writing has plain
characters only and denotes one value by the grammar of JSON; reading
that value by its fields gives the payload, `render_lossless`.

# When there is a document

An audit has a document exactly if every path in it can be told and every
number in it can be written. A path cannot be told if U+0000 is in its
way, if it or the root ends in a circle of links, or if it cannot be
asked whether the root is a file. A document is put together before it is
written: what is to be told of the files comes first (`toTell`), and the
first of it that fails ends the report; counters and lines come last. So
an audit that went well may have no document, `loopRoot_no_document`.
-/
import DocAudit.Proofs.Formats
import DocAudit.Proofs.JsonGrammar

namespace DocAudit

-- ================================================== paths that are told

namespace FileTree

variable {t : FileTree}

/-- Expanding pieces fails on U+0000 only, if following links does. -/
theorem expandWith_eq_error {follow : MetLinks → Path → String → Except Failure Trail}
    (hfollow : ∀ met p target failure, follow met p target = .error failure → failure = .nul)
    {met : MetLinks} {p : Path} {pieces : List String} {failure : Failure}
    (h : t.expandWith follow met p pieces = .error failure) : failure = .nul := by
  induction pieces generalizing met p with
  | nil => cases h
  | cons piece rest ih =>
      rw [expandWith] at h
      split at h
      · exact ih h
      · exact ih h
      · simp only [] at h
        split at h
        · cases h
          rfl
        · split at h
          · exact ih h
          · split at h
            · exact ih h
            · cases h
            · split at h
              · rename_i hlink
                cases h
                exact hfollow _ _ _ _ hlink
              · cases h
              · exact ih h

theorem expand_eq_error {depth : Nat} {met : MetLinks} {p : Path} {pieces : List String}
    {failure : Failure} (h : t.expand depth met p pieces = .error failure) : failure = .nul := by
  induction depth generalizing met p pieces failure with
  | zero => exact expandWith_eq_error (fun _ _ _ _ hlink => by cases hlink) h
  | succ depth ih => exact expandWith_eq_error (fun _ _ _ _ hlink => ih hlink) h

theorem realPath_eq_error {p : Path} {failure : Failure} (h : t.realPath p = .error failure) :
    failure = .nul := by
  unfold realPath at h
  split at h
  · cases h
  · rename_i hexpand
    cases h
    exact expand_eq_error hexpand

end FileTree

namespace Disk

variable {d : Disk} {p root : Path} {failure : Failure}

/-- A path that cannot be resolved has U+0000 in its way or ends in a
circle of links. -/
theorem resolve_eq_error (h : d.resolve p = .error failure) :
    failure = .nul ∨ ∃ path, failure = .linkLoop path := by
  unfold resolve at h
  split at h
  · cases h
  · split at h
    · rename_i hreal
      cases h
      exact .inl (FileTree.realPath_eq_error hreal)
    · split at h
      · cases h
        exact .inl rfl
      · split at h
        · cases h
          exact .inr ⟨_, rfl⟩
        · cases h

/-- Only a name that is too long keeps a file from being recognised. -/
theorem fault_of_isFile_eq_error (h : d.isFile p = .error failure) :
    failure = .fault (.ofObstacle .nameTooLong p.text) := by
  unfold isFile at h
  split at h
  · cases h
  · split at h
    · cases h
    · cases h
    · cases h
      rfl
    · cases h

/-- Why a path cannot be told. -/
theorem reportedPath_eq_error (h : d.reportedPath p root = .error failure) :
    failure = .nul ∨ (∃ path, failure = .linkLoop path)
      ∨ ∃ path, failure = .fault (.ofObstacle .nameTooLong path) := by
  obtain h | ⟨realFile, -, h⟩ := bind_eq_error.1 h
  · exact (resolve_eq_error h).imp_right .inl
  obtain h | ⟨realRoot, -, h⟩ := bind_eq_error.1 h
  · exact (resolve_eq_error h).imp_right .inl
  dsimp only at h
  -- once it is known if the two are one file, something is told
  split at h
  · obtain h | ⟨same, -, h⟩ := bind_eq_error.1 h
    · exact .inr (.inr ⟨_, fault_of_isFile_eq_error h⟩)
    · split at h
      · cases h
      · split at h <;> cases h
  · obtain h | ⟨same, -, h⟩ := bind_eq_error.1 h
    · cases h
    · split at h
      · cases h
      · split at h <;> cases h

end Disk

-- ======================================================== the reasons

namespace Fault

/-- The system's words; a refusal with a text alone has none. -/
def words (f : Fault) : String :=
  match f.refusal with
  | .coded _ text => text
  | .bare _ => ""

/-- The number that has to be written for want of words. -/
def statedCode? (f : Fault) : Option Int :=
  match f.refusal with
  | .coded code text => if text = "" then some code else none
  | .bare _ => none

/-- A reason can be had if the number that it takes can be written. It is
the system's words, or else the whole message. -/
theorem statedReason_eq_ok {f : Fault} {reason : String} :
    f.statedReason = .ok reason ↔
      (∀ n, f.statedCode? = some n → Text.isWritable n = true)
        ∧ reason = if f.words = "" then f.message else f.words := by
  obtain ⟨refusal, path⟩ := f
  cases refusal with
  | bare text =>
      constructor
      · intro h
        cases h
        exact ⟨by rintro n ⟨⟩, rfl⟩
      · rintro ⟨-, rfl⟩
        rfl
  | coded code text =>
      by_cases htext : text = ""
      · subst htext
        simp only [statedReason, statedCode?, words, message, if_true, bind_eq_ok,
          writeNumber_eq_ok, pure, Except.pure, Except.ok.injEq, Option.some.injEq]
        constructor
        · rintro ⟨_, ⟨hcode, rfl⟩, rfl⟩
          exact ⟨fun n hn => hn ▸ hcode, rfl⟩
        · rintro ⟨hcode, rfl⟩
          exact ⟨_, ⟨hcode code rfl, rfl⟩, rfl⟩
      · simp only [statedReason, statedCode?, words, htext, if_false, Except.ok.injEq]
        constructor
        · rintro rfl
          exact ⟨by rintro n ⟨⟩, rfl⟩
        · intro h
          exact h.2.symm

theorem statedReason_eq_error {f : Fault} {failure : Failure}
    (h : f.statedReason = .error failure) : failure = .numberTooLong := by
  unfold statedReason at h
  split at h
  · split at h
    · obtain h | ⟨_, -, h⟩ := bind_eq_error.1 h
      · exact eq_numberTooLong_of_writeNumber h
      · cases h
    · cases h
  · cases h

end Fault

-- ========================================================= the payload

namespace Json

/-- The string of a value that is one. -/
def str? : Json → Option String
  | .str s => some s
  | _ => none

def int? : Json → Option Int
  | .int n => some n
  | _ => none

def arr? : Json → Option (List Json)
  | .arr items => some items
  | _ => none

end Json

/-- What a report says. -/
structure Payload where
  root : String
  extension : String
  totals : Totals
  percent : Int
  /-- Path, line and message of each finding. -/
  diagnostics : List (String × Int × String)
  /-- Path and reason of each file that could not be read. -/
  unreadable : List (String × String)
  deriving DecidableEq, Repr

namespace Payload

/-- A finding by its fields. -/
def finding? (j : Json) : Option (String × Int × String) := do
  let path ← j.field? "path" >>= Json.str?
  let line ← j.field? "line" >>= Json.int?
  let message ← j.field? "message" >>= Json.str?
  return (path, line, message)

/-- A file that could not be read, by its fields. -/
def unreadable? (j : Json) : Option (String × String) := do
  let path ← j.field? "path" >>= Json.str?
  let reason ← j.field? "error" >>= Json.str?
  return (path, reason)

/-- A report by its fields. -/
def ofJson? (j : Json) : Option Payload := do
  let root ← j.field? "root" >>= Json.str?
  let extension ← j.field? "extension" >>= Json.str?
  let processed ← j.field? "files_processed" >>= Json.int?
  let flagged ← j.field? "files_with_error" >>= Json.int?
  let unreadable ← j.field? "files_unreadable" >>= Json.int?
  let findings ← j.field? "total_diagnostics" >>= Json.int?
  let percent ← j.field? "percent" >>= Json.int?
  let diagnostics ← j.field? "diagnostics" >>= Json.arr?
  let failures ← j.field? "unreadable" >>= Json.arr?
  return {
    root
    extension
    totals := { processed, flagged, findings, unreadable }
    percent
    diagnostics := ← diagnostics.mapM finding?
    unreadable := ← failures.mapM unreadable? }

end Payload

/-- A report that says what an audit came to, with paths as they are
reported below a root. -/
structure Reports (d : Disk) (root : Path) (a : Audit) (payload : Payload) : Prop where
  root_eq : payload.root = root.text
  extension_eq : payload.extension = a.settings.extension
  totals_eq : payload.totals = a.totals
  percent_eq : payload.percent = a.totals.percent
  diagnostics : List.Forall₂
    (fun x e => d.reportedPath x.path root = .ok e.1 ∧ e.2 = (x.line, x.message))
    a.diagnostics payload.diagnostics
  unreadable : List.Forall₂
    (fun u e => d.reportedPath u.path root = .ok e.1
      ∧ e.2 = if u.fault.words = "" then u.fault.message else u.fault.words)
    a.unreadable payload.unreadable

/-- The paths that a report names, in order. -/
def Audit.paths (a : Audit) : List Path :=
  a.diagnostics.map Diagnostic.path ++ a.unreadable.map Unreadable.path

/-- The numbers that a report writes: the counters, the lines, and what
has to stand in for a reason. -/
def Audit.numbers (a : Audit) : List Int :=
  [a.totals.processed, a.totals.flagged, a.totals.unreadable, a.totals.findings, a.totals.percent]
    ++ a.diagnostics.map Diagnostic.line ++ a.unreadable.filterMap (·.fault.statedCode?)

-- ==================================================== what is to tell

/-- The first failure in a row. -/
def FirstFailure (row : List (Except Failure String)) (failure : Failure) : Prop :=
  ∃ (told : List String) (after : List (Except Failure String)),
    row = told.map .ok ++ .error failure :: after

/-- A row without a failure. -/
def AllTold (row : List (Except Failure String)) : Prop :=
  ∃ told : List String, row = told.map .ok

theorem allTold_iff_forall {row : List (Except Failure String)} :
    AllTold row ↔ ∀ outcome ∈ row, ∃ told, outcome = .ok told := by
  constructor
  · rintro ⟨told, rfl⟩ outcome houtcome
    obtain ⟨text, -, rfl⟩ := List.mem_map.1 houtcome
    exact ⟨text, rfl⟩
  · intro h
    induction row with
    | nil => exact ⟨[], rfl⟩
    | cons outcome rest ih =>
        rw [List.forall_mem_cons] at h
        obtain ⟨⟨text, rfl⟩, hrest⟩ := h
        obtain ⟨told, rfl⟩ := ih hrest
        exact ⟨text :: told, rfl⟩

theorem FirstFailure.append_right {row : List (Except Failure String)} {failure : Failure}
    (h : FirstFailure row failure) (more : List (Except Failure String)) :
    FirstFailure (row ++ more) failure := by
  obtain ⟨told, after, rfl⟩ := h
  exact ⟨told, after ++ more, by simp⟩

theorem FirstFailure.append_left {row : List (Except Failure String)} {failure : Failure}
    (h : FirstFailure row failure) (told : List String) :
    FirstFailure (told.map .ok ++ row) failure := by
  obtain ⟨more, after, rfl⟩ := h
  exact ⟨told ++ more, after, by simp⟩

namespace Document

variable {d : Disk} {root : Path} {a : Audit}

/-- What is to be told of a finding. -/
def toTellOfFinding (d : Disk) (root : Path) (x : Diagnostic) : List (Except Failure String) :=
  [d.reportedPath x.path root]

/-- What is to be told of a file that could not be read. -/
def toTellOfUnreadable (d : Disk) (root : Path) (u : Unreadable) : List (Except Failure String) :=
  [d.reportedPath u.path root, u.fault.statedReason]

/-- What is to be told of the files, in order: the path of each finding,
then the path and the reason of each file that could not be read. -/
def toTell (d : Disk) (root : Path) (a : Audit) : List (Except Failure String) :=
  a.diagnostics.flatMap (toTellOfFinding d root)
    ++ a.unreadable.flatMap (toTellOfUnreadable d root)

section

-- findings and unreadable files alike are written by what is told of them
variable {γ : Type} {write : γ → Except Failure Json} {tell : γ → List (Except Failure String)}
  {xs : List γ}

/-- Entries that are written have all been told. -/
theorem told_of_entries (h : ∀ x item, write x = .ok item → AllTold (tell x))
    {items : List Json} (hitems : xs.mapM write = .ok items) :
    AllTold (xs.flatMap tell) := by
  induction xs generalizing items with
  | nil => exact ⟨[], rfl⟩
  | cons x rest ih =>
      rw [List.mapM_cons] at hitems
      obtain ⟨item, hitem, hitems⟩ := bind_eq_ok.1 hitems
      obtain ⟨more, hmore, -⟩ := bind_eq_ok.1 hitems
      obtain ⟨told, htold⟩ := h x item hitem
      obtain ⟨others, hothers⟩ := ih hmore
      exact ⟨told ++ others, by rw [List.flatMap_cons, htold, hothers, List.map_append]⟩

/-- Entries fail as the first thing to tell of them does. -/
theorem firstFailure_of_entries
    (hok : ∀ x item, write x = .ok item → AllTold (tell x))
    (herror : ∀ x failure, write x = .error failure → FirstFailure (tell x) failure)
    {failure : Failure} (h : xs.mapM write = .error failure) :
    FirstFailure (xs.flatMap tell) failure := by
  induction xs with
  | nil => cases h
  | cons x rest ih =>
      rw [List.mapM_cons] at h
      rw [List.flatMap_cons]
      obtain h | ⟨item, hitem, h⟩ := bind_eq_error.1 h
      · exact (herror x failure h).append_right _
      · obtain h | ⟨_, -, h⟩ := bind_eq_error.1 h
        · obtain ⟨told, htold⟩ := hok x item hitem
          rw [htold]
          exact (ih h).append_left told
        · cases h

/-- The numbers in entries are those in each of them. -/
theorem holds_entries {numbers : γ → List Int} {n : Int}
    (h : ∀ x item, write x = .ok item → (Json.Holds n item ↔ n ∈ numbers x))
    {items : List Json} (hitems : xs.mapM write = .ok items) :
    (∃ item ∈ items, Json.Holds n item) ↔ ∃ x ∈ xs, n ∈ numbers x := by
  have hall := mapM_eq_ok.1 hitems
  clear hitems
  induction hall with
  | nil => simp
  | cons hitem _ ih => simp only [List.exists_mem_cons_iff, h _ _ hitem, ih]

/-- Entries that can be read by their fields are read one by one. -/
theorem read_entries {η : Type} {read : Json → Option η} {Says : γ → η → Prop}
    (hread : ∀ x item, write x = .ok item → ∃ e, read item = some e ∧ Says x e)
    {items : List Json} (h : xs.mapM write = .ok items) :
    ∃ entries, items.mapM read = some entries ∧ List.Forall₂ Says xs entries := by
  have hitems := mapM_eq_ok.1 h
  clear h
  induction hitems with
  | nil => exact ⟨[], rfl, .nil⟩
  | cons hitem _ ih =>
      obtain ⟨e, he, hsays⟩ := hread _ _ hitem
      obtain ⟨entries, hmap, hentries⟩ := ih
      refine ⟨e :: entries, ?_, .cons hsays hentries⟩
      rw [List.mapM_cons, he, hmap]
      rfl

end

-- ========================================================= the entries

theorem told_of_finding {x : Diagnostic} {item : Json} (h : finding d root x = .ok item) :
    AllTold (toTellOfFinding d root x) := by
  obtain ⟨path, hpath, -⟩ := bind_eq_ok.1 h
  exact ⟨[path], by rw [toTellOfFinding, hpath]; rfl⟩

theorem firstFailure_of_finding {x : Diagnostic} {failure : Failure}
    (h : finding d root x = .error failure) : FirstFailure (toTellOfFinding d root x) failure := by
  obtain h | ⟨_, -, h⟩ := bind_eq_error.1 h
  · exact ⟨[], [], by rw [toTellOfFinding, h]; rfl⟩
  · cases h

theorem told_of_unreadable {u : Unreadable} {item : Json} (h : unreadable d root u = .ok item) :
    AllTold (toTellOfUnreadable d root u) := by
  obtain ⟨path, hpath, h⟩ := bind_eq_ok.1 h
  obtain ⟨reason, hreason, -⟩ := bind_eq_ok.1 h
  exact ⟨[path, reason], by rw [toTellOfUnreadable, hpath, hreason]; rfl⟩

theorem firstFailure_of_unreadable {u : Unreadable} {failure : Failure}
    (h : unreadable d root u = .error failure) :
    FirstFailure (toTellOfUnreadable d root u) failure := by
  obtain h | ⟨path, hpath, h⟩ := bind_eq_error.1 h
  · exact ⟨[], [u.fault.statedReason], by rw [toTellOfUnreadable, h]; rfl⟩
  · obtain h | ⟨_, -, h⟩ := bind_eq_error.1 h
    · exact ⟨[path], [], by rw [toTellOfUnreadable, hpath, h]; rfl⟩
    · cases h

theorem read_finding {x : Diagnostic} {item : Json} (h : finding d root x = .ok item) :
    ∃ e, Payload.finding? item = some e
      ∧ d.reportedPath x.path root = .ok e.1 ∧ e.2 = (x.line, x.message) := by
  obtain ⟨path, hpath, h⟩ := bind_eq_ok.1 h
  cases h
  exact ⟨_, rfl, hpath, rfl⟩

theorem read_unreadable {u : Unreadable} {item : Json} (h : unreadable d root u = .ok item) :
    ∃ e, Payload.unreadable? item = some e
      ∧ d.reportedPath u.path root = .ok e.1
      ∧ e.2 = if u.fault.words = "" then u.fault.message else u.fault.words := by
  obtain ⟨path, hpath, h⟩ := bind_eq_ok.1 h
  obtain ⟨reason, hreason, h⟩ := bind_eq_ok.1 h
  cases h
  exact ⟨_, rfl, hpath, (Fault.statedReason_eq_ok.1 hreason).2⟩

-- ============================================================ all of it

theorem mem_toTell {outcome : Except Failure String} :
    outcome ∈ toTell d root a ↔
      (∃ p ∈ a.paths, outcome = d.reportedPath p root)
        ∨ ∃ u ∈ a.unreadable, outcome = u.fault.statedReason := by
  simp only [toTell, toTellOfFinding, toTellOfUnreadable, Audit.paths, List.mem_append,
    List.mem_flatMap, List.mem_map, List.mem_cons, List.not_mem_nil, or_false]
  constructor
  · rintro (⟨x, hx, rfl⟩ | ⟨u, hu, rfl | rfl⟩)
    · exact .inl ⟨x.path, .inl ⟨x, hx, rfl⟩, rfl⟩
    · exact .inl ⟨u.path, .inr ⟨u, hu, rfl⟩, rfl⟩
    · exact .inr ⟨u, hu, rfl⟩
  · rintro (⟨_, ⟨x, hx, rfl⟩ | ⟨u, hu, rfl⟩, rfl⟩ | ⟨u, hu, rfl⟩)
    · exact .inl ⟨x, hx, rfl⟩
    · exact .inr ⟨u, hu, .inl rfl⟩
    · exact .inr ⟨u, hu, .inr rfl⟩

/-- Why something cannot be told. -/
theorem reason_of_firstFailure {failure : Failure} (h : FirstFailure (toTell d root a) failure) :
    failure = .numberTooLong ∨ failure = .nul ∨ (∃ path, failure = .linkLoop path)
      ∨ ∃ path, failure = .fault (.ofObstacle .nameTooLong path) := by
  obtain ⟨told, after, hrow⟩ := h
  have hmem : .error failure ∈ toTell d root a := by simp [hrow]
  obtain ⟨p, -, hp⟩ | ⟨u, -, hu⟩ := mem_toTell.1 hmem
  · exact .inr (Disk.reportedPath_eq_error hp.symm)
  · exact .inl (Fault.statedReason_eq_error hu.symm)

/-- All is told if all paths are, and the numbers that stand in for a
reason can be written. -/
theorem allTold_iff :
    AllTold (toTell d root a) ↔
      (∀ p ∈ a.paths, ∃ told, d.reportedPath p root = .ok told)
        ∧ ∀ n ∈ a.unreadable.filterMap (·.fault.statedCode?), Text.isWritable n = true := by
  rw [allTold_iff_forall]
  constructor
  · intro h
    constructor
    · intro p hp
      exact h _ (mem_toTell.2 (.inl ⟨p, hp, rfl⟩))
    · intro n hn
      obtain ⟨u, hu, hcode⟩ := List.mem_filterMap.1 hn
      obtain ⟨reason, hreason⟩ := h _ (mem_toTell.2 (.inr ⟨u, hu, rfl⟩))
      exact (Fault.statedReason_eq_ok.1 hreason).1 n hcode
  · rintro ⟨hpaths, hcodes⟩ outcome hmem
    obtain ⟨p, hp, rfl⟩ | ⟨u, hu, rfl⟩ := mem_toTell.1 hmem
    · exact hpaths p hp
    · refine ⟨_, Fault.statedReason_eq_ok.2 ⟨?_, rfl⟩⟩
      intro n hn
      exact hcodes n (List.mem_filterMap.2 ⟨u, hu, hn⟩)

-- ======================================================== the document

/-- A document fails to be put together as the first thing to tell does. -/
theorem firstFailure_of_ofAudit {failure : Failure} (h : ofAudit d root a = .error failure) :
    FirstFailure (toTell d root a) failure := by
  obtain h | ⟨items, hitems, h⟩ := bind_eq_error.1 h
  · exact (firstFailure_of_entries (fun _ _ => told_of_finding)
      (fun _ _ => firstFailure_of_finding) h).append_right _
  · obtain h | ⟨_, -, h⟩ := bind_eq_error.1 h
    · obtain ⟨told, htold⟩ := told_of_entries (fun _ _ => told_of_finding) hitems
      rw [toTell, htold]
      exact (firstFailure_of_entries (fun _ _ => told_of_unreadable)
        (fun _ _ => firstFailure_of_unreadable) h).append_left told
    · cases h

theorem allTold_of_ofAudit {document : Json} (h : ofAudit d root a = .ok document) :
    AllTold (toTell d root a) := by
  obtain ⟨items, hitems, h⟩ := bind_eq_ok.1 h
  obtain ⟨failures, hfailures, -⟩ := bind_eq_ok.1 h
  obtain ⟨told, htold⟩ := told_of_entries (fun _ _ => told_of_finding) hitems
  obtain ⟨more, hmore⟩ := told_of_entries (fun _ _ => told_of_unreadable) hfailures
  exact ⟨told ++ more, by rw [toTell, htold, hmore, List.map_append]⟩

/-- A document can be put together exactly if all is told. -/
theorem exists_ofAudit_iff :
    (∃ document, ofAudit d root a = .ok document) ↔ AllTold (toTell d root a) := by
  constructor
  · rintro ⟨document, h⟩
    exact allTold_of_ofAudit h
  · intro hall
    cases hdocument : ofAudit d root a with
    | ok document => exact ⟨document, rfl⟩
    | error failure =>
        obtain ⟨told, after, hrow⟩ := firstFailure_of_ofAudit hdocument
        obtain ⟨text, htext⟩ := allTold_iff_forall.1 hall (.error failure) (by simp [hrow])
        cases htext

/-- The numbers in a document are its version, the counters and the
lines. -/
theorem holds_of_ofAudit {document : Json} (h : ofAudit d root a = .ok document) (n : Int) :
    Json.Holds n document ↔
      schemaVersion = n ∨ n ∈ [a.totals.processed, a.totals.flagged, a.totals.unreadable,
        a.totals.findings, a.totals.percent] ++ a.diagnostics.map Diagnostic.line := by
  obtain ⟨items, hitems, h⟩ := bind_eq_ok.1 h
  obtain ⟨failures, hfailures, h⟩ := bind_eq_ok.1 h
  cases h
  have hlines : (∃ item ∈ items, Json.Holds n item) ↔ ∃ x ∈ a.diagnostics, n ∈ [x.line] := by
    refine holds_entries (fun x item hitem => ?_) hitems
    obtain ⟨path, -, hitem⟩ := bind_eq_ok.1 hitem
    cases hitem
    simp [eq_comm]
  have hnone : (∃ item ∈ failures, Json.Holds n item) ↔ ∃ u ∈ a.unreadable, n ∈ [] := by
    refine holds_entries (fun u item hitem => ?_) hfailures
    obtain ⟨path, -, hitem⟩ := bind_eq_ok.1 hitem
    obtain ⟨reason, -, hitem⟩ := bind_eq_ok.1 hitem
    cases hitem
    simp
  simp [hlines, hnone, eq_comm]

/-- The fields of a document are those of a report on the audit. -/
theorem payload_of_ofAudit {document : Json} (h : ofAudit d root a = .ok document) :
    ∃ payload, Payload.ofJson? document = some payload ∧ Reports d root a payload := by
  obtain ⟨items, hitems, h⟩ := bind_eq_ok.1 h
  obtain ⟨failures, hfailures, h⟩ := bind_eq_ok.1 h
  cases h
  obtain ⟨diagnostics, hdiagnostics, hsaid⟩ := read_entries (fun _ _ => read_finding) hitems
  obtain ⟨unread, hunread, hnamed⟩ := read_entries (fun _ _ => read_unreadable) hfailures
  refine ⟨⟨root.text, a.settings.extension, a.totals, a.totals.percent, diagnostics, unread⟩, ?_,
    rfl, rfl, rfl, rfl, hsaid, hnamed⟩
  -- the fields with a plain value are there as they were written
  show ((items.mapM Payload.finding?).bind fun findings =>
    (failures.mapM Payload.unreadable?).bind fun unread =>
      some (Payload.mk root.text a.settings.extension _ _ findings unread)) = _
  rw [hdiagnostics, hunread]
  rfl

-- ========================================================== in writing

/-- A document that is put together can be written if its counters and its
lines can. -/
theorem exists_render_iff {document : Json} (h : ofAudit d root a = .ok document) :
    (∃ text, document.render = .ok text) ↔
      ∀ n ∈ [a.totals.processed, a.totals.flagged, a.totals.unreadable, a.totals.findings,
        a.totals.percent] ++ a.diagnostics.map Diagnostic.line, Text.isWritable n = true := by
  have hversion : Text.isWritable schemaVersion = true := by decide
  rw [Json.exists_render_iff]
  simp only [holds_of_ofAudit h]
  constructor
  · intro hall n hn
    exact hall n (.inr hn)
  · rintro hall n (rfl | hn)
    · exact hversion
    · exact hall n hn

/-- A finding in a file whose name has a quotation mark, a letter and a
sign beyond ASCII, and a file that could not be read for a reason with a
backslash and a control character. -/
def oddNames : Disk where
  tree :=
    { here := ["w"]
      entries := [(["w"], .directory), (["w", "B\x7f.java"], .file []),
        (["w", "é\"😀.java"], .file ("class A\n".toList.map (·.toNat.toUInt8)))]
      proper := by decide }
  unreadable := [("B\x7f.java", .bare "no \\ way\x01")]

/-- The audit of `oddNames`. -/
def oddAudit : Except Failure Audit :=
  oddNames.audit {} {} [⟨.here, ["B\x7f.java"]⟩, ⟨.here, ["é\"😀.java"]⟩]

/-- What the report on `oddNames` says. -/
def oddPayload : Payload where
  root := "."
  extension := ".java"
  totals := { processed := 1, flagged := 1, findings := 1, unreadable := 1 }
  percent := 100
  diagnostics := [("é\"😀.java", 1, "No comment found")]
  unreadable := [("B\x7f.java", "no \\ way\x01")]

/-- A file with a finding beside a link that leads to itself. -/
def loopRoot : Disk where
  tree :=
    { here := ["w"]
      entries := [(["w"], .directory), (["w", "loop"], .link "loop"),
        (["w", "A.java"], .file ("class A\n".toList.map (·.toNat.toUInt8)))]
      proper := by decide }

end Document

end DocAudit
