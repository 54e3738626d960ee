/-
Plainly written declarations: modifiers in any order, each with spaces
behind it, then `class` or `interface`, spaces, and further text without
an opening parenthesis; letters in either case, margins around the line
(`PlainDeclaration`).

Such a line declares a type, with one exception. Deleting the spaces joins
the keyword to the text behind it, and `class` ends in the letter with
which `static` begins: where the text goes on with `tatic`, that pass takes
the last letter of the keyword along (`eraseAll_class_tatic`). What is left
is a declaration again only if the text behind puts an `s` in its place
(`LosesLetter`). No other modifier reaches into either keyword, so this is
all that can go wrong.

# The way to it

The line is brought down to three parts, row of modifiers, keyword and
text. Margins in front are cut off, and those behind make no difference to
what a line declares (`declaresType_append_margins`), be they cut off or
not; so the normal form may be replaced by the lower-cased line without
its margins (`declaresType_normalForm`). That one is lower-cased word by
word, since the spaces are boundaries, and the row vanishes by
`eraseAll_modifiers_row`.
-/
import DocAudit.FileReport
import DocAudit.Proofs.LowerCasing
import DocAudit.Proofs.Modifiers

namespace DocAudit

-- ============================================================ trimming

namespace Text

variable {p : Char → Bool}

/-- Where nothing is cut off in front, trimming cuts off an end. -/
theorem exists_trimBoth_append {c : Char} (hc : p c = false) (s : List Char) :
    ∃ m, (∀ x ∈ m, p x = true) ∧ trimBoth p (c :: s) ++ m = c :: s := by
  obtain ⟨before, m, hbefore, hm, hcut⟩ := exists_trimBoth p (c :: s)
  cases before with
  | nil => exact ⟨m, hm, hcut⟩
  | cons d before =>
      obtain rfl : d = c := (List.cons.inj hcut).1
      exact absurd (hbefore d (List.mem_cons_self ..)) (by simp [hc])

end Text

namespace Line

open Text

-- ============================================================= letters

/-- A letter from `a` to `z`. -/
def isLowerLetter (c : Char) : Bool :=
  0x61 ≤ c.toNat && c.toNat ≤ 0x7a

theorem isLowerLetter_iff {c : Char} :
    isLowerLetter c = true ↔ 0x61 ≤ c.toNat ∧ c.toNat ≤ 0x7a := by
  simp [isLowerLetter]

theorem modifiers_letters : ∀ word ∈ modifiers, word.all isLowerLetter = true := by decide

/-- Margins are in no word. -/
theorem margin_not_mem {c : Char} (h : isLineMargin c = true) {word : List Char}
    (hword : word.all isLowerLetter = true) : c ∉ word := by
  intro hmem
  have hletter := isLowerLetter_iff.1 (List.all_eq_true.1 hword c hmem)
  have hle : c.toNat ≤ 0x20 := by simpa [isLineMargin] using h
  omega

-- ================================================= margins behind a line

theorem isPrefixOf_append_margins {word m : List Char} (hword : word.all isLowerLetter = true)
    (hm : ∀ c ∈ m, isLineMargin c = true) (s : List Char) :
    word.isPrefixOf (s ++ m) = word.isPrefixOf s := by
  cases m with
  | nil => rw [List.append_nil]
  | cons c m =>
      exact isPrefixOf_append_cons (margin_not_mem (hm c (List.mem_cons_self ..)) hword) s m

theorem hasEmptyParens_cons (c : Char) (s : List Char) :
    hasEmptyParens (c :: s) = (c == '(' && s.head? == some ')' || hasEmptyParens s) := by
  rw [hasEmptyParens.eq_def]
  split
  · rename_i heq
    cases heq
    rfl
  · rename_i hnot heq
    cases heq
    by_cases hc : c = '('
    · by_cases hs : s.head? = some ')'
      · obtain ⟨rest, rfl⟩ := List.head?_eq_some_iff.1 hs
        exact absurd rfl (hnot rest hc)
      · simp [hs]
    · simp [hc]
  · rename_i heq
    cases heq

/-- Text without an opening parenthesis may be left out of the search. -/
theorem hasEmptyParens_append {s : List Char} (h : '(' ∉ s) (t : List Char) :
    hasEmptyParens (s ++ t) = hasEmptyParens t := by
  induction s with
  | nil => rfl
  | cons c s ih =>
      rw [List.mem_cons, not_or] at h
      have hc : (c == '(') = false := by simpa using Ne.symm h.1
      rw [List.cons_append, hasEmptyParens_cons, hc, ih h.2]
      rfl

/-- Without an opening parenthesis there is no pair of them. -/
theorem hasEmptyParens_eq_false {s : List Char} (h : '(' ∉ s) : hasEmptyParens s = false := by
  rw [← List.append_nil s, hasEmptyParens_append h]
  rfl

theorem hasEmptyParens_append_margins {m : List Char} (hm : ∀ c ∈ m, isLineMargin c = true)
    (s : List Char) : hasEmptyParens (s ++ m) = hasEmptyParens s := by
  induction s with
  | nil => exact hasEmptyParens_eq_false fun hmem => absurd (hm _ hmem) (by decide)
  | cons c s ih =>
      -- a pair may begin at the last character only if the margins close it
      have hhead : ((s ++ m).head? == some ')') = (s.head? == some ')') := by
        cases s with
        | nil =>
            have hne : m.head? ≠ some ')' := fun heq =>
              absurd (hm _ (List.mem_of_head? heq)) (by decide)
            simpa using hne
        | cons d s => rfl
      rw [List.cons_append, hasEmptyParens_cons, hasEmptyParens_cons, hhead, ih]

/-- Margins behind a line make no difference to what it declares. -/
theorem declaresType_append_margins {m : List Char} (hm : ∀ c ∈ m, isLineMargin c = true)
    (s : List Char) : declaresType (s ++ m) = declaresType s := by
  have hsub : ∀ c ∈ squeeze m, isLineMargin c = true :=
    fun c hc => hm c (List.mem_filter.1 hc).1
  have hstrip : stripModifiers (s ++ m) = stripModifiers s ++ squeeze m := by
    rw [stripModifiers_eq, squeeze_append, eraseAll_append_separators modifiers_ne_nil]
    · rfl
    · intro c hc word hword
      exact margin_not_mem (hsub c hc) (modifiers_letters word hword)
  unfold declaresType beginsType
  rw [hstrip, isPrefixOf_append_margins (by decide) hsub,
    isPrefixOf_append_margins (by decide) hsub, hasEmptyParens_append_margins hsub]

/-- The normal form of a line declares what the line does between its
margins, in lower case. -/
theorem declaresType_normalForm {before after : List Char}
    (hbefore : ∀ c ∈ before, isLineMargin c = true) (hafter : ∀ c ∈ after, isLineMargin c = true)
    {c : Char} (hc : isLineMargin c = false) (s : List Char) :
    declaresType (normalForm (before ++ (c :: s ++ after)))
      = declaresType (lowerCase (c :: s)) := by
  obtain ⟨m, hm, hcut⟩ := exists_trimBoth_append hc s
  have htrim : trimMargins (before ++ (c :: s ++ after)) = trimMargins (c :: s) := by
    rw [← List.append_assoc]
    exact trimBoth_surrounded hbefore hafter _
  calc declaresType (normalForm (before ++ (c :: s ++ after)))
      = declaresType (lowerCase (trimMargins (c :: s))) := by rw [normalForm, htrim]
    _ = declaresType (lowerCase (trimMargins (c :: s) ++ m)) := by
        rw [lowerCase_append_margins hm, declaresType_append_margins hm]
    _ = declaresType (lowerCase (c :: s)) := by rw [trimMargins, hcut]

-- ============================================================ keywords

/-- No modifier begins inside `interface`. -/
theorem eraseAll_interface (t : List Char) :
    eraseAll modifiers ("interface".toList ++ t) = "interface".toList ++ eraseAll modifiers t :=
  eraseAll_append_of_cannotBegin (by decide) t

/-- The modifiers whose turn comes after `static`. -/
def laterModifiers : List (List Char) := modifiers.tail

theorem eraseAll_modifiers_eq (s : List Char) :
    eraseAll modifiers s = eraseAll laterModifiers (erase "static".toList s) := rfl

/-- The pass for `static` leaves `class` but for its last letter, which it
sees together with what follows. -/
theorem erase_static_class (t : List Char) :
    erase "static".toList ("class".toList ++ t)
      = "clas".toList ++ erase "static".toList ('s' :: t) := by
  have hfirst : erase "static".toList ("cla".toList ++ 's' :: 's' :: t)
      = "cla".toList ++ erase "static".toList ('s' :: 's' :: t) :=
    erase_append_of_cannotBegin (by decide) _
  have hdouble : erase "static".toList ('s' :: 's' :: t)
      = 's' :: erase "static".toList ('s' :: t) :=
    erase_cons rfl
  exact hfirst.trans (by rw [hdouble]; rfl)

/-- Where the text behind does not go on with `tatic`, `class` stays. -/
theorem eraseAll_class {t : List Char} (h : "tatic".toList.isPrefixOf t = false) :
    eraseAll modifiers ("class".toList ++ t) = "class".toList ++ eraseAll modifiers t := by
  have hlast : "static".toList.isPrefixOf ('s' :: t) = false := h
  have hpass : erase "static".toList ("class".toList ++ t)
      = "class".toList ++ erase "static".toList t := by
    rw [erase_static_class, erase_cons hlast]
    rfl
  rw [eraseAll_modifiers_eq, hpass, eraseAll_append_of_cannotBegin (by decide),
    ← eraseAll_modifiers_eq]

/-- Before `tatic`, `class` loses its last letter. -/
theorem eraseAll_class_tatic (t : List Char) :
    eraseAll modifiers ("class".toList ++ ("tatic".toList ++ t))
      = "clas".toList ++ eraseAll modifiers t := by
  have hword : 's' :: ("tatic".toList ++ t) = "static".toList ++ t := rfl
  have hpass : erase "static".toList ("class".toList ++ ("tatic".toList ++ t))
      = "clas".toList ++ erase "static".toList t := by
    rw [erase_static_class, hword, erase_append_self (by decide)]
  rw [eraseAll_modifiers_eq, hpass, eraseAll_append_of_cannotBegin (by decide),
    ← eraseAll_modifiers_eq]

-- ================================================== plain declarations

/-- A word in letters of either case, with spaces behind it. -/
structure SpelledWord where
  letters : List Char
  spaces : Nat
  spaces_pos : 0 < spaces

namespace SpelledWord

/-- The word itself. -/
def word (w : SpelledWord) : List Char :=
  w.letters.map Char.toLower

/-- As it stands in a line. -/
def written (w : SpelledWord) : List Char :=
  w.letters ++ List.replicate w.spaces ' '

/-- Letters of either case are above the margins and within ASCII. -/
theorem bounds_of_toLower {c : Char} (h : isLowerLetter c.toLower = true) :
    0x20 < c.toNat ∧ c.toNat < 0x80 := by
  have hletter := isLowerLetter_iff.1 h
  by_cases hupper : 0x41 ≤ c.toNat ∧ c.toNat ≤ 0x5a
  · omega
  · rw [toLower_of_not_upper hupper] at hletter
    omega

variable {w : SpelledWord}

theorem bounds_of_mem_letters (hword : w.word.all isLowerLetter = true) {c : Char}
    (hc : c ∈ w.letters) : 0x20 < c.toNat ∧ c.toNat < 0x80 :=
  bounds_of_toLower (List.all_eq_true.1 hword _ (List.mem_map_of_mem hc))

theorem squeeze_lowerCase_spaces (n : Nat) (t : List Char) :
    squeeze (lowerCase (List.replicate n ' ' ++ t)) = squeeze (lowerCase t) := by
  induction n with
  | zero => rfl
  | succ n ih =>
      have hspace : lowerCase (' ' :: (List.replicate n ' ' ++ t))
          = ' ' :: lowerCase (List.replicate n ' ' ++ t) :=
        lowerCase_boundary (by decide) [] _
      rw [List.replicate_succ, List.cons_append, hspace]
      exact ih

/-- In lower case and without spaces, the word stands in front of what
follows. -/
theorem squeeze_lowerCase_written (hword : w.word.all isLowerLetter = true)
    (t : List Char) :
    squeeze (lowerCase (w.written ++ t)) = w.word ++ squeeze (lowerCase t) := by
  obtain ⟨n, hn⟩ : ∃ n, w.spaces = n + 1 := ⟨w.spaces - 1, by have := w.spaces_pos; omega⟩
  have hplain : lowerCase w.letters = w.word :=
    lowerCase_ascii fun c hc => (bounds_of_mem_letters hword hc).2
  have hsolid : squeeze w.word = w.word := by
    apply List.filter_eq_self.2
    intro c hc
    have hne : c ≠ ' ' := by
      intro heq
      rw [heq] at hc
      exact margin_not_mem (by decide) hword hc
    simpa using hne
  have hcut : w.written ++ t = w.letters ++ ' ' :: (List.replicate n ' ' ++ t) := by
    rw [written, hn, List.replicate_succ, List.append_assoc, List.cons_append]
  rw [hcut, lowerCase_boundary (by decide), squeeze_append, hplain, hsolid]
  exact congrArg (w.word ++ ·) (squeeze_lowerCase_spaces n t)

theorem exists_written_eq_cons (hne : w.word ≠ [])
    (hword : w.word.all isLowerLetter = true) :
    ∃ c s, w.written = c :: s ∧ isLineMargin c = false := by
  cases hletters : w.letters with
  | nil =>
      rw [word, hletters] at hne
      exact absurd rfl hne
  | cons c rest =>
      refine ⟨c, rest ++ List.replicate w.spaces ' ', ?_, ?_⟩
      · rw [written, hletters, List.cons_append]
      · have hmem : c ∈ w.letters := hletters ▸ List.mem_cons_self ..
        have hbound := (bounds_of_mem_letters hword hmem).1
        simpa [isLineMargin] using hbound

end SpelledWord

/-- A declaration as it is plainly written. -/
structure PlainDeclaration where
  before : List Char
  before_margins : ∀ c ∈ before, isLineMargin c = true
  modifiers : List SpelledWord
  modifiers_mem : ∀ w ∈ modifiers, w.word ∈ Line.modifiers
  keyword : SpelledWord
  keyword_mem : keyword.word = "class".toList ∨ keyword.word = "interface".toList
  /-- The name, and all that follows. -/
  text : List Char
  text_parens : '(' ∉ text
  after : List Char
  after_margins : ∀ c ∈ after, isLineMargin c = true

namespace PlainDeclaration

variable (d : PlainDeclaration)

/-- The line between its margins. -/
def body : List Char :=
  d.modifiers.flatMap SpelledWord.written ++ (d.keyword.written ++ d.text)

/-- The whole line. -/
def line : List Char :=
  d.before ++ (d.body ++ d.after)

/-- The text goes on with `tatic` behind `class`, so that the keyword loses
its last letter, and what follows brings no other `s`. -/
def LosesLetter : Prop :=
  d.keyword.word = "class".toList
    ∧ ∃ rest, (lowerCase d.text).filter (· != ' ') = "tatic".toList ++ rest
      ∧ ¬ "s".toList <+: stripModifiers rest

theorem keyword_letters : d.keyword.word.all isLowerLetter = true := by
  rcases d.keyword_mem with heq | heq
  · rw [heq]
    decide
  · rw [heq]
    decide

/-- A row of written modifiers, in lower case and without spaces. -/
theorem squeeze_lowerCase_row {row : List SpelledWord} (hrow : ∀ w ∈ row, w.word ∈ Line.modifiers)
    (t : List Char) :
    squeeze (lowerCase (row.flatMap SpelledWord.written ++ t))
      = (row.map SpelledWord.word).flatten ++ squeeze (lowerCase t) := by
  induction row with
  | nil => rfl
  | cons w row ih =>
      obtain ⟨hw, hrest⟩ := List.forall_mem_cons.1 hrow
      rw [List.flatMap_cons, List.append_assoc,
        SpelledWord.squeeze_lowerCase_written (modifiers_letters _ hw), ih hrest, List.map_cons,
        List.flatten_cons, List.append_assoc]

/-- The line in its three parts: a row of modifiers, the keyword and the
text. -/
theorem squeeze_lowerCase_body :
    squeeze (lowerCase d.body)
      = (d.modifiers.map SpelledWord.word).flatten
        ++ (d.keyword.word ++ squeeze (lowerCase d.text)) := by
  rw [body, squeeze_lowerCase_row d.modifiers_mem,
    SpelledWord.squeeze_lowerCase_written d.keyword_letters]

/-- The modifiers leave no trace. -/
theorem stripModifiers_body :
    stripModifiers (lowerCase d.body)
      = eraseAll Line.modifiers (d.keyword.word ++ squeeze (lowerCase d.text)) := by
  rw [stripModifiers_eq, squeeze_lowerCase_body]
  apply eraseAll_modifiers_row
  intro word hword
  obtain ⟨w, hw, rfl⟩ := List.mem_map.1 hword
  exact d.modifiers_mem w hw

/-- The line has no pair of parentheses, so its beginning decides. -/
theorem declaresType_body :
    declaresType (lowerCase d.body) = true
      ↔ "class".toList <+: stripModifiers (lowerCase d.body)
        ∨ "interface".toList <+: stripModifiers (lowerCase d.body) := by
  have hparen : '(' ∉ stripModifiers (lowerCase d.body) := by
    intro hmem
    rw [stripModifiers_body] at hmem
    rcases List.mem_append.1 (mem_of_mem_eraseAll modifiers_ne_nil hmem) with hkeyword | htext
    · exact absurd (List.all_eq_true.1 d.keyword_letters _ hkeyword) (by decide)
    · exact d.text_parens (mem_of_mem_lowerCase (by decide) (List.mem_filter.1 htext).1)
  unfold declaresType beginsType
  rw [hasEmptyParens_eq_false hparen, Bool.not_false, Bool.and_true, Bool.or_eq_true,
    List.isPrefixOf_iff_prefix, List.isPrefixOf_iff_prefix]

theorem exists_body_eq_cons : ∃ c s, d.body = c :: s ∧ isLineMargin c = false := by
  cases hrow : d.modifiers with
  | nil =>
      have hne : d.keyword.word ≠ [] := by
        rcases d.keyword_mem with heq | heq <;> rw [heq] <;> decide
      obtain ⟨c, s, hwritten, hc⟩ :=
        SpelledWord.exists_written_eq_cons hne d.keyword_letters
      refine ⟨c, s ++ d.text, ?_, hc⟩
      rw [body, hrow, hwritten]
      rfl
  | cons w row =>
      have hw : w.word ∈ Line.modifiers :=
        d.modifiers_mem w (by rw [hrow]; exact List.mem_cons_self ..)
      obtain ⟨c, s, hwritten, hc⟩ :=
        SpelledWord.exists_written_eq_cons (modifiers_ne_nil _ hw) (modifiers_letters _ hw)
      refine ⟨c, s ++ row.flatMap SpelledWord.written ++ (d.keyword.written ++ d.text), ?_, hc⟩
      rw [body, hrow, List.flatMap_cons, hwritten]
      rfl

theorem declaresType_line :
    declaresType (normalForm d.line) = declaresType (lowerCase d.body) := by
  obtain ⟨c, s, hbody, hc⟩ := d.exists_body_eq_cons
  rw [line, hbody]
  exact declaresType_normalForm d.before_margins d.after_margins hc s

/-- Behind `class`, all hangs on the first letters of the text. -/
theorem class_prefix_iff {t : List Char} (ht : ∀ c ∈ t, c ≠ ' ') :
    ("class".toList <+: eraseAll Line.modifiers ("class".toList ++ t)
        ∨ "interface".toList <+: eraseAll Line.modifiers ("class".toList ++ t))
      ↔ ∀ rest, t = "tatic".toList ++ rest → "s".toList <+: stripModifiers rest := by
  by_cases htatic : "tatic".toList.isPrefixOf t = true
  · obtain ⟨u, rfl⟩ := List.isPrefixOf_iff_prefix.1 htatic
    have hsolid : squeeze u = u := by
      apply List.filter_eq_self.2
      intro c hc
      simpa using ht c (List.mem_append_right _ hc)
    have hclass : "class".toList <+: "clas".toList ++ eraseAll Line.modifiers u
        ↔ "s".toList <+: eraseAll Line.modifiers u :=
      List.prefix_append_right_inj "clas".toList
    have hinterface : ¬ "interface".toList <+: "clas".toList ++ eraseAll Line.modifiers u := by
      intro h
      exact absurd (List.cons_prefix_cons.1 h).1 (by decide)
    rw [eraseAll_class_tatic, hclass, or_iff_left hinterface]
    constructor
    · intro h rest hrest
      rw [← List.append_cancel_left hrest, stripModifiers_eq, hsolid]
      exact h
    · intro h
      have hu := h u rfl
      rw [stripModifiers_eq, hsolid] at hu
      exact hu
  · have hfalse : "tatic".toList.isPrefixOf t = false := Bool.eq_false_iff.2 htatic
    rw [eraseAll_class hfalse]
    constructor
    · intro _ rest hrest
      exact absurd (List.isPrefixOf_iff_prefix.2 ⟨rest, hrest.symm⟩) htatic
    · intro _
      exact Or.inl ⟨_, rfl⟩

/-- A plainly written declaration is recognised unless its keyword loses a
letter, and read outside of comments it is then reported. -/
theorem recognised_iff :
    (declaresType (normalForm d.line) = true ↔ ¬ d.LosesLetter)
      ∧ ∀ r : Reading, r.state = .outside → ¬ d.LosesLetter →
        (r.read d.line).1 = some ⟨r.path, ↑(r.lineNumber + 1), missingComment⟩ := by
  have hdeclares : declaresType (normalForm d.line) = true ↔ ¬ d.LosesLetter := by
    rw [declaresType_line, declaresType_body, stripModifiers_body]
    rcases d.keyword_mem with heq | heq
    · have hsolid : ∀ c ∈ squeeze (lowerCase d.text), c ≠ ' ' := by
        intro c hc
        simpa using (List.mem_filter.1 hc).2
      rw [heq, class_prefix_iff hsolid]
      unfold LosesLetter
      constructor
      · intro h hloses
        obtain ⟨-, rest, hrest, hnot⟩ := hloses
        exact hnot (h rest hrest)
      · intro h rest hrest
        by_cases hs : "s".toList <+: stripModifiers rest
        · exact hs
        · exact absurd ⟨heq, rest, hrest, hs⟩ h
    · have hkept : ¬ d.LosesLetter := by
        intro hloses
        exact absurd (heq.symm.trans hloses.1) (by decide)
      rw [heq, eraseAll_interface]
      exact iff_of_true (Or.inr ⟨_, rfl⟩) hkept
  refine ⟨hdeclares, ?_⟩
  intro r hstate hkept
  have hflags : r.state.flags (normalForm d.line) = true := by
    rw [hstate, CommentState.flags, hdeclares.2 hkept]
    rfl
  rw [Reading.read, hflags]
  rfl

/-- Modifiers in capitals, and a name that gives back the letter it
takes. -/
def tatics : PlainDeclaration where
  before := "\t".toList
  before_margins := List.all_eq_true.1 (by decide)
  modifiers := [⟨"Public".toList, 1, by decide⟩, ⟨"STATIC".toList, 2, by decide⟩]
  modifiers_mem := by decide
  keyword := ⟨"Class".toList, 1, by decide⟩
  keyword_mem := by decide
  text := "Tatics".toList
  text_parens := by decide
  after := " \r".toList
  after_margins := List.all_eq_true.1 (by decide)

theorem tatics_recognised :
    tatics.line = "\tPublic STATIC  Class Tatics \r".toList
      ∧ declaresType (normalForm tatics.line) = true
      ∧ ((Reading.start ⟨.here, ["A.java"]⟩).read tatics.line).1
        = some ⟨⟨.here, ["A.java"]⟩, 1, missingComment⟩ := by
  have hkept : ¬ tatics.LosesLetter := by
    intro hloses
    obtain ⟨-, rest, hrest, hnot⟩ := hloses
    have htext : (lowerCase tatics.text).filter (· != ' ') = "tatic".toList ++ "s".toList := by
      decide +kernel
    rw [← List.append_cancel_left (htext.symm.trans hrest)] at hnot
    exact hnot ⟨[], by decide⟩
  obtain ⟨hdeclares, hreported⟩ := recognised_iff tatics
  exact ⟨by decide, hdeclares.2 hkept, hreported _ rfl hkept⟩

/-- A class with the name `Tatic`. -/
def tatic : PlainDeclaration where
  before := []
  before_margins := nofun
  modifiers := []
  modifiers_mem := by decide
  keyword := ⟨"class".toList, 1, by decide⟩
  keyword_mem := by decide
  text := "Tatic".toList
  text_parens := by decide
  after := []
  after_margins := nofun

/-- Not every plainly written declaration is recognised: this one is read
as the text `clas`. -/
theorem tatic_unrecognised :
    tatic.line = "class Tatic".toList
      ∧ stripModifiers (normalForm tatic.line) = "clas".toList
      ∧ declaresType (normalForm tatic.line) = false
      ∧ ((Reading.start ⟨.here, ["A.java"]⟩).read tatic.line).1 = none := by
  refine ⟨by decide, ?_, ?_, ?_⟩ <;> decide +kernel

end PlainDeclaration

end Line

end DocAudit
