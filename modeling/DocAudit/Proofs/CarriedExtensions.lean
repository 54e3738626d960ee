/-
Files that carry the extension a user typed.

The typed extension is stripped and put in lower case, and so is the whole
name of a file before its end is compared. A name that ends in the very
text that was typed, or in that text with other cases of its ASCII
letters, should thus have the extension. It does, with one exception: the
extension is put in lower case alone and the name as a whole, and a sigma
looks at what stands before it.

# Where the name and the extension part

A character of the extension becomes the same in both texts unless it is a
capital sigma, and a sigma only if it sees what stands before the
extension. It does so past characters that a search passes over, the dot
among them, so it is the first letter of the extension. With a letter
behind it, it is not at the end of a word either way. Without one
(`OpensWithLoneSigma`), it ends the word that the rest of the name leaves
open (`BeginsInWord`, read backwards) and takes the final form there, but
not at the beginning of a text.

Both texts are equally long (`length_lowerFrom`), so the end of the name is
the extension only if they are the same. The induction is over the
extension, for two pasts of which one shows a letter and the other none
(`lowerFrom_eq_iff`).
-/
import DocAudit.Proofs.AcceptedSettings

namespace DocAudit

namespace Text

-- =============================================================== words

/-- The first character of a text that a search does not pass over, and
what stands behind it. -/
def Meets (s : List Char) (c : Char) (rest : List Char) : Prop :=
  ∃ passed, s = passed ++ c :: rest ∧ (∀ x ∈ passed, isCaseIgnorable x = true)
    ∧ isCaseIgnorable c = false

/-- The first such character is a letter with case. -/
def BeginsInWord (s : List Char) : Prop :=
  ∃ c rest, Meets s c rest ∧ isCased c = true

/-- The first such character is a capital sigma, and no letter with case
follows. -/
def OpensWithLoneSigma (s : List Char) : Prop :=
  ∃ rest, Meets s '\u03a3' rest ∧ ¬ BeginsInWord rest

section Words

variable {a c : Char} {s rest : List Char}

theorem not_meets_nil : ¬ Meets [] c rest := by
  intro h
  obtain ⟨passed, hs, -⟩ := h
  exact List.append_ne_nil_of_right_ne_nil passed (List.cons_ne_nil c rest) hs.symm

theorem meets_cons_of_ignorable (ha : isCaseIgnorable a = true) :
    Meets (a :: s) c rest ↔ Meets s c rest := by
  constructor
  · intro h
    obtain ⟨passed, hs, hpassed, hc⟩ := h
    cases passed with
    | nil =>
        obtain ⟨rfl, -⟩ := List.cons.inj hs
        rw [ha] at hc
        cases hc
    | cons b passed =>
        exact ⟨passed, (List.cons.inj hs).2, (List.forall_mem_cons.1 hpassed).2, hc⟩
  · intro h
    obtain ⟨passed, rfl, hpassed, hc⟩ := h
    exact ⟨a :: passed, rfl, List.forall_mem_cons.2 ⟨ha, hpassed⟩, hc⟩

theorem meets_cons_of_met (ha : isCaseIgnorable a = false) :
    Meets (a :: s) c rest ↔ a = c ∧ s = rest := by
  constructor
  · intro h
    obtain ⟨passed, hs, hpassed, -⟩ := h
    cases passed with
    | nil => exact List.cons.inj hs
    | cons b passed =>
        obtain ⟨rfl, -⟩ := List.cons.inj hs
        rw [(List.forall_mem_cons.1 hpassed).1] at ha
        cases ha
  · intro h
    obtain ⟨rfl, rfl⟩ := h
    exact ⟨[], rfl, List.forall_mem_nil _, ha⟩

theorem beginsInWord_iff : BeginsInWord s ↔ meetsCased s = true := by
  induction s with
  | nil =>
      constructor
      · intro h
        obtain ⟨c, rest, hmeets, -⟩ := h
        exact absurd hmeets not_meets_nil
      · intro h
        cases h
  | cons a s ih =>
      unfold BeginsInWord at ih ⊢
      rw [meetsCased_cons]
      cases ha : isCaseIgnorable a with
      | true =>
          simp only [meets_cons_of_ignorable ha]
          exact ih
      | false => simp [meets_cons_of_met ha]

theorem not_opensWithLoneSigma_nil : ¬ OpensWithLoneSigma [] := by
  intro h
  obtain ⟨rest, hmeets, -⟩ := h
  exact not_meets_nil hmeets

theorem opensWithLoneSigma_cons_of_ignorable (ha : isCaseIgnorable a = true) :
    OpensWithLoneSigma (a :: s) ↔ OpensWithLoneSigma s := by
  unfold OpensWithLoneSigma
  simp only [meets_cons_of_ignorable ha]

theorem opensWithLoneSigma_cons_of_met (ha : isCaseIgnorable a = false) :
    OpensWithLoneSigma (a :: s) ↔ a = '\u03a3' ∧ meetsCased s = false := by
  unfold OpensWithLoneSigma
  simp only [meets_cons_of_met ha, beginsInWord_iff, Bool.not_eq_true]
  constructor
  · intro h
    obtain ⟨rest, ⟨rfl, rfl⟩, hrest⟩ := h
    exact ⟨rfl, hrest⟩
  · intro h
    exact ⟨s, ⟨h.1, rfl⟩, h.2⟩

end Words

-- ========================================================== two pasts

theorem length_lowerAt (before before' : List Char) (c : Char) (after after' : List Char) :
    (lowerAt before c after).length = (lowerAt before' c after').length := by
  unfold lowerAt
  split
  · rfl
  · split <;> rfl

/-- How long a text becomes does not depend on what stands before it. -/
theorem length_lowerFrom (before before' s : List Char) :
    (lowerFrom [] before s).length = (lowerFrom [] before' s).length := by
  induction s generalizing before before' with
  | nil => rfl
  | cons c after ih =>
      rw [lowerFrom_cons, lowerFrom_cons, List.length_append, List.length_append,
        length_lowerAt before before' c after after, ih (c :: before) (c :: before')]

/-- The end of a text is lower-cased with the beginning for its past. -/
theorem exists_lowerFrom_append (before s t : List Char) :
    ∃ front, lowerFrom [] before (s ++ t) = front ++ lowerFrom [] (s.reverse ++ before) t := by
  induction s generalizing before with
  | nil => exact ⟨[], rfl⟩
  | cons c s ih =>
      obtain ⟨front, hfront⟩ := ih (c :: before)
      refine ⟨lowerAt before c (s ++ t) ++ front, ?_⟩
      rw [List.cons_append, lowerFrom_cons, hfront, List.append_assoc, List.reverse_cons,
        List.append_assoc, List.singleton_append]

theorem lowerAt_of_ne_sigma {c : Char} (hc : c ≠ '\u03a3') (before before' after : List Char) :
    lowerAt before c after = lowerAt before' c after := by
  unfold lowerAt
  rw [if_neg hc, if_neg hc]

theorem lowerAt_sigma (before after : List Char) :
    lowerAt before '\u03a3' after
      = [if meetsCased before && !meetsCased after then '\u03c2' else '\u03c3'] :=
  rfl

theorem isCaseIgnorable_sigma : isCaseIgnorable '\u03a3' = false := by
  set_option maxRecDepth 4000 in decide

/-- A past that shows a letter makes a difference exactly to a text that
opens with a lone sigma. -/
theorem lowerFrom_eq_iff {before before' : List Char} (hbefore : meetsCased before = true)
    (hbefore' : meetsCased before' = false) (s : List Char) :
    lowerFrom [] before s = lowerFrom [] before' s ↔ ¬ OpensWithLoneSigma s := by
  induction s generalizing before before' with
  | nil => exact iff_of_true rfl not_opensWithLoneSigma_nil
  | cons c after ih =>
      rw [lowerFrom_cons, lowerFrom_cons]
      cases hc : isCaseIgnorable c with
      | true =>
          -- the search goes on past `c` into what stands before it
          have hsigma : c ≠ '\u03a3' := by
            intro heq
            rw [heq, isCaseIgnorable_sigma] at hc
            cases hc
          have hpast : meetsCased (c :: before) = true := by
            rw [meetsCased_cons, hc]
            exact hbefore
          have hpast' : meetsCased (c :: before') = false := by
            rw [meetsCased_cons, hc]
            exact hbefore'
          rw [lowerAt_of_ne_sigma hsigma before before', List.append_right_inj, ih hpast hpast',
            opensWithLoneSigma_cons_of_ignorable hc]
      | false =>
          -- from here on both pasts show `c`
          have hrest : lowerFrom [] (c :: before) after = lowerFrom [] (c :: before') after := by
            apply lowerFrom_congr
            rw [meetsCased_cons, meetsCased_cons, hc]
            rfl
          rw [hrest, List.append_left_inj, opensWithLoneSigma_cons_of_met hc]
          by_cases hsigma : c = '\u03a3'
          · subst hsigma
            rw [lowerAt_sigma, lowerAt_sigma, hbefore, hbefore']
            cases meetsCased after <;> decide
          · exact iff_of_true (lowerAt_of_ne_sigma hsigma before before' after)
              fun h => hsigma h.1

/-- A text ends in another one, lower-cased alone, exactly if it does not
change its sigma. -/
theorem lowerCase_suffix_iff (u x : List Char) :
    lowerCase x <:+ lowerCase (u ++ x) ↔ ¬ (BeginsInWord u.reverse ∧ OpensWithLoneSigma x) := by
  obtain ⟨front, hfront⟩ := exists_lowerFrom_append [] u x
  rw [List.append_nil] at hfront
  have hends : lowerCase x <:+ lowerCase (u ++ x)
      ↔ lowerFrom [] u.reverse x = lowerFrom [] [] x := by
    unfold lowerCase
    rw [hfront]
    constructor
    · intro h
      have hshort := List.suffix_of_suffix_length_le h (List.suffix_append front _)
        (Nat.le_of_eq (length_lowerFrom [] u.reverse x))
      exact (hshort.eq_of_length (length_lowerFrom [] u.reverse x)).symm
    · intro h
      exact ⟨front, by rw [h]⟩
  rw [hends, beginsInWord_iff]
  cases hu : meetsCased u.reverse with
  | true => rw [lowerFrom_eq_iff hu rfl, and_iff_right rfl]
  | false => exact iff_of_true (lowerFrom_congr hu x) fun h => Bool.false_ne_true h.1

end Text

-- ========================================================== file names

namespace Settings

open Text

/-- A file whose name ends in the extension as it was typed, or in that
text with other cases of its ASCII letters, has the accepted extension,
unless the extension opens with a lone sigma and the name leaves a word
open before it. -/
theorem carried_extension_iff (typed : Typed) (processors : Option Int) (c : Settings)
    (h : ofTyped typed processors = .ok c) (u w : List Char)
    (hw : w.map Char.toLower = (strip typed.extension.toList).map Char.toLower)
    (p : Path) (hname : p.name.toList = u ++ w) :
    p.hasExtension c.extension = true
      ↔ ¬ (BeginsInWord u.reverse ∧ OpensWithLoneSigma (strip typed.extension.toList)) := by
  obtain ⟨-, -, hword⟩ := extensionOf_eq_ok.1 (ofTyped_eq_ok.1 h).1
  have hcase : lowerCase (u ++ w) = lowerCase (u ++ strip typed.extension.toList) :=
    lowerFrom_congr_ascii (by rw [List.map_append, List.map_append, hw])
  rw [Path.hasExtension, hword, word, lowerCase_lowerCase, hname, hcase,
    List.isSuffixOf_iff_suffix, lowerCase_suffix_iff]

/-- Two sigmas, of which the second is at the end of the word in either
text, and a file name in capitals. -/
theorem carried_extension_sigmas :
    ofTyped { extension := " .\u03a3a\u03a3" } none = .ok { extension := ".\u03c3a\u03c2" }
      ∧ (Path.ofText "src/Main.\u03a3A\u03a3").hasExtension ".\u03c3a\u03c2" = true := by
  have haccepted : ofTyped { extension := " .\u03a3a\u03a3" } none
      = .ok { extension := ".\u03c3a\u03c2" } := by
    set_option maxRecDepth 4000 in decide
  refine ⟨haccepted, ?_⟩
  apply (carried_extension_iff _ _ _ haccepted "Main".toList ".\u03a3A\u03a3".toList (by decide)
    _ (by decide)).2
  intro hlone
  have htext : strip " .\u03a3a\u03a3".toList = ['.', '\u03a3', 'a', '\u03a3'] := by decide
  have hdot : isCaseIgnorable '.' = true := by decide
  have hopens := hlone.2
  rw [htext, opensWithLoneSigma_cons_of_ignorable hdot,
    opensWithLoneSigma_cons_of_met isCaseIgnorable_sigma] at hopens
  have hletter : meetsCased ['a', '\u03a3'] = true := by
    set_option maxRecDepth 4000 in decide
  rw [hletter] at hopens
  exact Bool.false_ne_true hopens.2.symm

/-- A file whose name ends in the typed extension is not found: before the
end of the name the sigma stands at the end of a word. -/
theorem lone_sigma_not_carried :
    ofTyped { extension := ".\u03a3" } none = .ok { extension := ".\u03c3" }
      ∧ (Path.ofText "a.\u03a3").name.toList = "a".toList ++ strip ".\u03a3".toList
      ∧ (Path.ofText "a.\u03a3").hasExtension ".\u03c3" = false := by
  refine ⟨?_, by decide, ?_⟩
  · set_option maxRecDepth 4000 in decide
  · set_option maxRecDepth 4000 in decide

end Settings

end DocAudit
