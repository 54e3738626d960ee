/-
Line numbers are those of the bytes.

A file is decoded first and cut into lines afterwards. `LinesOf` states
what the lines of a sequence are, whatever its items: pieces without a
line end in them, each but the last followed by one of the three ends.
The bytes of a file have lines in this sense as its text has, and the
lines of the text are the lines of the bytes decoded one by one
(`LinesOf.decodes`): a line-end byte is below 0x80, so no sequence of
bytes swallows it (`Decodes.append_ascii`), and a decoded line-end
character has such a byte behind it (`Decodes.encode_subset`).
-/
import Mathlib.Data.List.Forall2
import DocAudit.Outcome
import DocAudit.Proofs.Decoding

namespace DocAudit

namespace Text

variable {α : Type} {cr lf : α}

-- ================================================= what the lines are

/-- The lines of a sequence. A line ends at `lf`, at `cr`, or at the two
in this order; what follows the last end is a line if there is any. -/
inductive LinesOf (cr lf : α) : List α → List (List α) → Prop
  | none : LinesOf cr lf [] []
  | last {line} : line ≠ [] → cr ∉ line → lf ∉ line → LinesOf cr lf line [line]
  | atFeed {line rest lines} : cr ∉ line → lf ∉ line →
      LinesOf cr lf rest lines → LinesOf cr lf (line ++ lf :: rest) (line :: lines)
  | atReturnFeed {line rest lines} : cr ∉ line → lf ∉ line →
      LinesOf cr lf rest lines → LinesOf cr lf (line ++ cr :: lf :: rest) (line :: lines)
  | atReturn {line rest lines} : cr ∉ line → lf ∉ line → rest.head? ≠ some lf →
      LinesOf cr lf rest lines → LinesOf cr lf (line ++ cr :: rest) (line :: lines)

/-- An item that ends no line joins the line it stands before. -/
theorem LinesOf.exists_cons {items : List α} {lines : List (List α)}
    (h : LinesOf cr lf items lines) {a : α} (hcr : cr ≠ a) (hlf : lf ≠ a) :
    ∃ lines', LinesOf cr lf (a :: items) lines' := by
  have hnot : ∀ {stop : α} {line : List α}, stop ≠ a → stop ∉ line → stop ∉ a :: line := by
    intro stop line hne hline
    simp [hne, hline]
  cases h with
  | none => exact ⟨_, .last (by simp) (hnot hcr (by simp)) (hnot hlf (by simp))⟩
  | last _ hc hl => exact ⟨_, .last (by simp) (hnot hcr hc) (hnot hlf hl)⟩
  | atFeed hc hl hrest => exact ⟨_, .atFeed (hnot hcr hc) (hnot hlf hl) hrest⟩
  | atReturnFeed hc hl hrest => exact ⟨_, .atReturnFeed (hnot hcr hc) (hnot hlf hl) hrest⟩
  | atReturn hc hl hhead hrest => exact ⟨_, .atReturn (hnot hcr hc) (hnot hlf hl) hhead hrest⟩

/-- Every sequence has lines. -/
theorem exists_linesOf (cr lf : α) (items : List α) : ∃ lines, LinesOf cr lf items lines := by
  induction hlength : items.length using Nat.strong_induction_on generalizing items with
  | _ n ih =>
      have hnot : ∀ stop : α, stop ∉ ([] : List α) := fun _ => List.not_mem_nil
      cases items with
      | nil => exact ⟨[], .none⟩
      | cons a rest =>
          rw [List.length_cons] at hlength
          have hrest := ih rest.length (by omega) rest rfl
          by_cases hlf : lf = a
          · subst hlf
            obtain ⟨lines, hlines⟩ := hrest
            exact ⟨_, .atFeed (hnot cr) (hnot lf) hlines⟩
          by_cases hcr : cr = a
          · subst hcr
            by_cases hhead : rest.head? = some lf
            · -- the feed belongs to this end, so the lines go on behind it
              obtain ⟨rest', rfl⟩ := List.head?_eq_some_iff.1 hhead
              rw [List.length_cons] at hlength
              obtain ⟨lines, hlines⟩ := ih rest'.length (by omega) rest' rfl
              exact ⟨_, .atReturnFeed (hnot cr) (hnot lf) hlines⟩
            · obtain ⟨lines, hlines⟩ := hrest
              exact ⟨_, .atReturn (hnot cr) (hnot lf) hhead hlines⟩
          · obtain ⟨lines, hlines⟩ := hrest
            exact hlines.exists_cons hcr hlf

-- ===================================================== the cutter cuts

variable [DecidableEq α]

/-- Items that end no line are gathered. -/
theorem foldl_push_plain {line : List α} (hcr : cr ∉ line) (hlf : lf ∉ line) (hline : line ≠ [])
    (c : LineCutter α) :
    line.foldl (LineCutter.push cr lf) c = ⟨c.done, line.reverse ++ c.current, false⟩ := by
  induction line generalizing c with
  | nil => exact absurd rfl hline
  | cons a rest ih =>
      simp only [List.mem_cons, not_or] at hcr hlf
      have hpush : c.push cr lf a = ⟨c.done, a :: c.current, false⟩ := by
        rw [LineCutter.push, if_neg (Ne.symm hlf.1), if_neg (Ne.symm hcr.1)]
      rw [List.foldl_cons, hpush]
      by_cases hrest : rest = []
      · subst hrest
        rfl
      · rw [ih hcr.2 hlf.2 hrest]
        simp

/-- A line and its carriage return. -/
theorem foldl_push_return (hne : cr ≠ lf) {line : List α} (hcr : cr ∉ line) (hlf : lf ∉ line)
    (done : List (List α)) (afterReturn : Bool) :
    (line ++ [cr]).foldl (LineCutter.push cr lf) ⟨done, [], afterReturn⟩
      = ⟨line :: done, [], true⟩ := by
  by_cases hline : line = []
  · subst hline
    simp [LineCutter.push, hne]
  · simp [foldl_push_plain hcr hlf hline, LineCutter.push, hne]

/-- A line and its line feed, unless the feed belongs to a return before
it. -/
theorem foldl_push_feed {line : List α} (hcr : cr ∉ line) (hlf : lf ∉ line)
    (done : List (List α)) {afterReturn : Bool} (hafter : line = [] → afterReturn = false) :
    (line ++ [lf]).foldl (LineCutter.push cr lf) ⟨done, [], afterReturn⟩
      = ⟨line :: done, [], false⟩ := by
  by_cases hline : line = []
  · have := hafter hline
    subst hline this
    simp [LineCutter.push]
  · simp [foldl_push_plain hcr hlf hline, LineCutter.push]

/-- The cutter adds the lines of what follows to those it has, if what
follows does not begin in the middle of a line end. -/
theorem LinesOf.finish_foldl (hne : cr ≠ lf) {items : List α} {lines : List (List α)}
    (h : LinesOf cr lf items lines) (done : List (List α)) (afterReturn : Bool)
    (hafter : afterReturn = true → items.head? ≠ some lf) :
    (items.foldl (LineCutter.push cr lf) ⟨done, [], afterReturn⟩).finish
      = done.reverse ++ lines := by
  induction h generalizing done afterReturn with
  | none => simp [LineCutter.finish]
  | last hline hcr hlf =>
      rw [foldl_push_plain hcr hlf hline]
      simp [LineCutter.finish, hline]
  | @atFeed line rest lines hcr hlf _ ih =>
      have hfirst : line = [] → afterReturn = false := by
        intro hline
        subst hline
        simpa using hafter
      rw [List.append_cons, List.foldl_append, foldl_push_feed hcr hlf done hfirst,
        ih _ _ (by simp)]
      simp
  | @atReturnFeed line rest lines hcr hlf _ ih =>
      rw [List.append_cons, List.foldl_append, foldl_push_return hne hcr hlf, List.foldl_cons]
      have hpush : LineCutter.push cr lf ⟨line :: done, [], true⟩ lf
          = ⟨line :: done, [], false⟩ := by
        simp [LineCutter.push]
      rw [hpush, ih _ _ (by simp)]
      simp
  | @atReturn line rest lines hcr hlf hhead _ ih =>
      rw [List.append_cons, List.foldl_append, foldl_push_return hne hcr hlf,
        ih _ _ (fun _ => hhead)]
      simp

/-- The cutter computes the lines. -/
theorem linesOf_iff (hne : cr ≠ lf) (items : List α) (lines : List (List α)) :
    LinesOf cr lf items lines ↔ cutLines cr lf items = lines := by
  have hcut : ∀ {lines'}, LinesOf cr lf items lines' → cutLines cr lf items = lines' := by
    intro lines' h
    exact h.finish_foldl hne [] false (by simp)
  constructor
  · exact hcut
  · intro h
    obtain ⟨lines', hlines'⟩ := exists_linesOf cr lf items
    rwa [← h, hcut hlines']

-- ======================================== cutting and decoding commute

/-- A text has a character below 0x80 only if its bytes have it. -/
theorem Decodes.not_mem {bytes : List UInt8} {text : List Char} (h : Decodes bytes text)
    {b : UInt8} (hb : b.toNat < 0x80) (hnot : b ∉ bytes) : Char.ofNat b.toNat ∉ text := by
  intro hmem
  obtain hchar | hsub := h.encode_subset hmem
  · have hnumber := congrArg Char.toNat hchar
    rw [toNat_ofNat (.inl (by omega))] at hnumber
    have : replacement.toNat = 0xfffd := rfl
    omega
  · rw [encode_ascii hb] at hsub
    exact hnot (hsub (by simp))

/-- A text begins with a line feed only if its bytes do. -/
theorem Decodes.head?_ne {bytes : List UInt8} {text : List Char} (h : Decodes bytes text)
    (hhead : bytes.head? ≠ some 0x0a) : text.head? ≠ some '\n' := by
  intro htext
  obtain ⟨rest, rfl⟩ := List.head?_eq_some_iff.1 htext
  obtain hchar | hprefix := h.encode_prefix
  · exact absurd hchar (by decide)
  · obtain ⟨after, rfl⟩ := hprefix
    exact hhead rfl

/-- The lines of a text are the lines of its bytes, decoded one by
one. -/
theorem LinesOf.decodes {bytes : List UInt8} {pieces : List (List UInt8)}
    (h : LinesOf 0x0d 0x0a bytes pieces) {lines : List (List Char)}
    (hlines : List.Forall₂ Decodes pieces lines) :
    ∃ text, Decodes bytes text ∧ LinesOf '\r' '\n' text lines := by
  -- neither end is swallowed, and none comes out of a line that has none
  have hcr : ∀ {xs ys s t}, Decodes xs s → Decodes ys t →
      Decodes (xs ++ 0x0d :: ys) (s ++ '\r' :: t) :=
    fun hxs hys => hxs.append_ascii (b := 0x0d) (by decide) hys
  have hlf : ∀ {xs ys s t}, Decodes xs s → Decodes ys t →
      Decodes (xs ++ 0x0a :: ys) (s ++ '\n' :: t) :=
    fun hxs hys => hxs.append_ascii (b := 0x0a) (by decide) hys
  have hnocr : ∀ {xs s}, Decodes xs s → 0x0d ∉ xs → '\r' ∉ s :=
    fun hxs hnot => hxs.not_mem (b := 0x0d) (by decide) hnot
  have hnolf : ∀ {xs s}, Decodes xs s → 0x0a ∉ xs → '\n' ∉ s :=
    fun hxs hnot => hxs.not_mem (b := 0x0a) (by decide) hnot
  induction h generalizing lines with
  | none =>
      cases hlines
      exact ⟨[], .done, .none⟩
  | last hne hc hl =>
      obtain ⟨s, _, hs, hnil, rfl⟩ := List.forall₂_cons_left_iff.1 hlines
      cases hnil
      refine ⟨s, hs, .last ?_ (hnocr hs hc) (hnolf hs hl)⟩
      intro hempty
      subst hempty
      exact hne hs.eq_nil
  | atFeed hc hl _ ih =>
      obtain ⟨s, _, hs, hrest, rfl⟩ := List.forall₂_cons_left_iff.1 hlines
      obtain ⟨t, ht, hlinesOf⟩ := ih hrest
      exact ⟨_, hlf hs ht, .atFeed (hnocr hs hc) (hnolf hs hl) hlinesOf⟩
  | atReturnFeed hc hl _ ih =>
      obtain ⟨s, _, hs, hrest, rfl⟩ := List.forall₂_cons_left_iff.1 hlines
      obtain ⟨t, ht, hlinesOf⟩ := ih hrest
      exact ⟨_, hcr hs (hlf .done ht), .atReturnFeed (hnocr hs hc) (hnolf hs hl) hlinesOf⟩
  | atReturn hc hl hhead _ ih =>
      obtain ⟨s, _, hs, hrest, rfl⟩ := List.forall₂_cons_left_iff.1 hlines
      obtain ⟨t, ht, hlinesOf⟩ := ih hrest
      exact ⟨_, hcr hs ht, .atReturn (hnocr hs hc) (hnolf hs hl) (ht.head?_ne hhead) hlinesOf⟩

/-- Cutting the bytes and decoding each piece gives the lines of a
file. -/
theorem linesOfBytes_eq {bytes : List UInt8} {pieces : List (List UInt8)}
    (h : LinesOf 0x0d 0x0a bytes pieces) {lines : List (List Char)}
    (hlines : List.Forall₂ Decodes pieces lines) : linesOfBytes bytes = lines := by
  obtain ⟨text, htext, hlinesOf⟩ := h.decodes hlines
  rw [linesOfBytes, htext.decodeUtf8_eq]
  exact (linesOf_iff (by decide) _ _).1 hlinesOf

end Text

namespace Disk

open Text

/-- The report on a file that can be read is the report on the pieces of
its bytes between line ends, each decoded by itself. The pieces are the
only ones there are; decoding writes one replacement character for each
maximal invalid subpart, and gives back what was encoded. -/
theorem report_physical_lines :
    (∀ (d : Disk) (p : Path) (bytes : List UInt8) (pieces : List (List UInt8))
        (lines : List (List Char)),
      d.read p = .ok bytes → LinesOf 0x0d 0x0a bytes pieces →
      List.Forall₂ Decodes pieces lines → d.report p = .ok (.ofLines p lines))
    ∧ (∀ bytes : List UInt8, ∃! pieces, LinesOf 0x0d 0x0a bytes pieces)
    ∧ (∀ (bytes : List UInt8) (text : List Char),
        Decodes bytes text ↔ decodeUtf8 bytes = text)
    ∧ ∀ text : List Char, decodeUtf8 (encodeUtf8 text) = text := by
  refine ⟨?_, ?_, decodes_iff, decodeUtf8_encodeUtf8⟩
  · intro d p bytes pieces lines hread hpieces hlines
    rw [report, hread]
    show Except.ok (FileReport.ofLines p (linesOfBytes bytes)) = _
    rw [linesOfBytes_eq hpieces hlines]
  · intro bytes
    have hiff := linesOf_iff (show (0x0d : UInt8) ≠ 0x0a by decide) bytes
    exact ⟨_, (hiff _).2 rfl, fun pieces hpieces => ((hiff pieces).1 hpieces).symm⟩

/-- A file whose line ends stand between broken sequences: three bytes
of which one is missing before a return and a feed, four bytes of which
two are missing before a return, and a stray byte after a feed. -/
def brokenBytes : List UInt8 :=
  [0xe2, 0x82, 0x0d, 0x0a] ++ encodeUtf8 "class A".toList ++ [0xf0, 0x9f, 0x0d, 0x80, 0x0a]
    ++ encodeUtf8 "class B".toList

/-- The pieces of `brokenBytes`. -/
def brokenPieces : List (List UInt8) :=
  [[0xe2, 0x82], encodeUtf8 "class A".toList ++ [0xf0, 0x9f], [0x80],
    encodeUtf8 "class B".toList]

/-- A disk with `brokenBytes` in a file. -/
def brokenDisk : Disk where
  tree :=
    { here := ["w"]
      entries := [(["w"], .directory), (["w", "A.java"], .file brokenBytes)]
      proper := by decide }

/-- The two classes stand at the second and the fourth line. -/
theorem brokenDisk_lines :
    brokenDisk.report ⟨.here, ["A.java"]⟩
        = .ok (.ofLines ⟨.here, ["A.java"]⟩ (brokenPieces.map decodeUtf8))
      ∧ (brokenDisk.report ⟨.here, ["A.java"]⟩).map (·.diagnostics.map (·.line))
        = .ok [2, 4] := by
  constructor
  · apply report_physical_lines.1 _ _ brokenBytes brokenPieces
    · decide +kernel
    · exact (linesOf_iff (by decide) _ _).2 (by decide +kernel)
    · rw [List.forall₂_map_right_iff, List.forall₂_same]
      intro piece _
      exact (decodes_iff _ _).2 rfl
  · decide +kernel

end Disk

end DocAudit
