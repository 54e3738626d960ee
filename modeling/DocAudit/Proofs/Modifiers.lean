/-
Deleting modifiers. A line loses its spaces first and then its
modifiers, one pass over the whole line for each of them, so letters that
stood in different words meet, and a pass may find its word across the
seam of two others. Two facts say where that cannot happen:

- inside a text of which no end begins the word, and which holds no
  occurrence, the word cannot begin, whatever follows (`cannotBegin`).
  The modifiers are such texts for each other (`modifiers_separate`), so
  each pass takes its own word out of a row of modifiers and leaves the
  others whole (`erase_row`);
- a character that is in no modifier keeps what stands before it apart
  from what stands behind it (`erase_separator`).

Both are told of one pass and carried over the passes by induction on the
words still to be deleted. In front of any text, a row of modifiers thus
vanishes without a trace.
-/
import DocAudit.Line

namespace DocAudit.Line

-- ============================================================ one pass

section OnePass

variable {word : List Char}

/-- Induction along a pass: an occurrence at the front is deleted, and a
character at which none begins is kept. -/
theorem erase_induction (hword : word ≠ []) {motive : List Char → Prop} (nil : motive [])
    (found : ∀ t, motive t → motive (word ++ t))
    (kept : ∀ c t, word.isPrefixOf (c :: t) = false → motive t → motive (c :: t))
    (s : List Char) : motive s := by
  induction hn : s.length using Nat.strongRecOn generalizing s with
  | ind n ih =>
      by_cases hfront : word.isPrefixOf s = true
      · obtain ⟨t, rfl⟩ := List.isPrefixOf_iff_prefix.1 hfront
        have hpos : 0 < word.length := List.length_pos_iff.2 hword
        rw [List.length_append] at hn
        exact found t (ih t.length (by omega) t rfl)
      · cases s with
        | nil => exact nil
        | cons c t =>
            rw [List.length_cons] at hn
            exact kept c t (Bool.eq_false_iff.2 hfront) (ih t.length (by omega) t rfl)

theorem erase_nil (word : List Char) : erase word [] = [] := rfl

/-- A pass brings in no character. -/
theorem mem_of_mem_erase (hword : word ≠ []) {c : Char} {s : List Char} (h : c ∈ erase word s) :
    c ∈ s := by
  induction s using erase_induction hword with
  | nil => exact h
  | found t ih =>
      rw [erase_append_self hword] at h
      exact List.mem_append_right _ (ih h)
  | kept a t hfront ih =>
      rw [erase_cons hfront, List.mem_cons] at h
      rcases h with rfl | h
      · exact List.mem_cons_self ..
      · exact List.mem_cons_of_mem _ (ih h)

/-- The word does not begin inside the text, whatever follows the text:
at no place does one of the two go on as the other does. -/
def cannotBegin (word : List Char) : List Char → Bool
  | [] => true
  | c :: rest =>
      !word.isPrefixOf (c :: rest) && !(c :: rest).isPrefixOf word && cannotBegin word rest

/-- A text in which the word cannot begin stays in front. -/
theorem erase_append_of_cannotBegin {s : List Char} (h : cannotBegin word s = true)
    (t : List Char) : erase word (s ++ t) = s ++ erase word t := by
  induction s with
  | nil => rfl
  | cons c rest ih =>
      rw [cannotBegin, Bool.and_eq_true, Bool.and_eq_true] at h
      obtain ⟨⟨hinside, hacross⟩, hrest⟩ := h
      have hfront : word.isPrefixOf (c :: (rest ++ t)) = false := by
        by_cases hprefix : word.isPrefixOf (c :: (rest ++ t)) = true
        · have hboth : word <+: c :: rest ∨ c :: rest <+: word :=
            List.prefix_or_prefix_of_prefix (List.isPrefixOf_iff_prefix.1 hprefix) ⟨t, rfl⟩
          rcases hboth with hshort | hlong
          · rw [List.isPrefixOf_iff_prefix.2 hshort] at hinside
            cases hinside
          · rw [List.isPrefixOf_iff_prefix.2 hlong] at hacross
            cases hacross
        · exact Bool.eq_false_iff.2 hprefix
      rw [List.cons_append, erase_cons hfront, ih hrest, List.cons_append]

/-- A word without `c` that begins a text begins what stands before `c`
in it. -/
theorem isPrefixOf_append_cons {c : Char} (hc : c ∉ word) (s t : List Char) :
    word.isPrefixOf (s ++ c :: t) = word.isPrefixOf s := by
  induction s generalizing word with
  | nil =>
      cases word with
      | nil => rfl
      | cons a word =>
          have hne : (a == c) = false := by
            simpa using fun heq : a = c => hc (heq ▸ List.mem_cons_self ..)
          simp [List.isPrefixOf, hne]
  | cons b s ih =>
      cases word with
      | nil => rfl
      | cons a word =>
          have hrest : c ∉ word := fun hmem => hc (List.mem_cons_of_mem _ hmem)
          simp only [List.cons_append, List.isPrefixOf]
          rw [ih hrest]

/-- A character that is not in the word keeps apart what stands on its
two sides. -/
theorem erase_separator (hword : word ≠ []) {c : Char} (hc : c ∉ word) (s t : List Char) :
    erase word (s ++ c :: t) = erase word s ++ c :: erase word t := by
  induction s using erase_induction hword with
  | nil =>
      have hfront : word.isPrefixOf (c :: t) = false := by
        rw [show c :: t = [] ++ c :: t from rfl, isPrefixOf_append_cons hc]
        cases word with
        | nil => exact absurd rfl hword
        | cons a word => rfl
      rw [List.nil_append, erase_cons hfront, erase_nil, List.nil_append]
  | found s ih =>
      rw [List.append_assoc, erase_append_self hword, erase_append_self hword, ih]
  | kept b s hfront ih =>
      have hfront' : word.isPrefixOf (b :: (s ++ c :: t)) = false := by
        rw [← List.cons_append, isPrefixOf_append_cons hc]
        exact hfront
      rw [List.cons_append, erase_cons hfront', erase_cons hfront, ih, List.cons_append]

end OnePass

-- ========================================================== all passes

/-- Deletes words, one pass for each. -/
def eraseAll (words : List (List Char)) (s : List Char) : List Char :=
  words.foldl (fun t word => erase word t) s

theorem eraseAll_cons (word : List Char) (words : List (List Char)) (s : List Char) :
    eraseAll (word :: words) s = eraseAll words (erase word s) := rfl

/-- A line without its spaces. -/
def squeeze (s : List Char) : List Char :=
  s.filter (· != ' ')

theorem squeeze_append (s t : List Char) : squeeze (s ++ t) = squeeze s ++ squeeze t :=
  List.filter_append ..

theorem stripModifiers_eq (s : List Char) :
    stripModifiers s = eraseAll modifiers (squeeze s) := rfl

theorem modifiers_ne_nil : ∀ word ∈ modifiers, word ≠ [] := by decide

/-- No modifier begins inside another one. -/
theorem modifiers_separate :
    ∀ word ∈ modifiers, ∀ other ∈ modifiers, other ≠ word → cannotBegin word other = true := by
  decide

section AllPasses

variable {words : List (List Char)}

/-- The passes bring in no character. -/
theorem mem_of_mem_eraseAll (hwords : ∀ word ∈ words, word ≠ []) {c : Char} {s : List Char}
    (h : c ∈ eraseAll words s) : c ∈ s := by
  induction words generalizing s with
  | nil => exact h
  | cons word words ih =>
      obtain ⟨hword, hrest⟩ := List.forall_mem_cons.1 hwords
      exact mem_of_mem_erase hword (ih hrest h)

/-- A text in which none of the words can begin stays in front. -/
theorem eraseAll_append_of_cannotBegin {s : List Char}
    (hwords : ∀ word ∈ words, cannotBegin word s = true) (t : List Char) :
    eraseAll words (s ++ t) = s ++ eraseAll words t := by
  induction words generalizing t with
  | nil => rfl
  | cons word words ih =>
      obtain ⟨hword, hrest⟩ := List.forall_mem_cons.1 hwords
      rw [eraseAll_cons, erase_append_of_cannotBegin hword, ih hrest, eraseAll_cons]

/-- A character that is in none of the words keeps its two sides apart. -/
theorem eraseAll_separator (hwords : ∀ word ∈ words, word ≠ []) {c : Char}
    (hc : ∀ word ∈ words, c ∉ word) (s t : List Char) :
    eraseAll words (s ++ c :: t) = eraseAll words s ++ c :: eraseAll words t := by
  induction words generalizing s t with
  | nil => rfl
  | cons word words ih =>
      obtain ⟨hword, hrest⟩ := List.forall_mem_cons.1 hwords
      obtain ⟨hcword, hcrest⟩ := List.forall_mem_cons.1 hc
      rw [eraseAll_cons, erase_separator hword hcword, ih hrest hcrest, eraseAll_cons,
        eraseAll_cons]

theorem eraseAll_nil (words : List (List Char)) : eraseAll words [] = [] := by
  induction words with
  | nil => rfl
  | cons word words ih => rw [eraseAll_cons, erase_nil, ih]

/-- Characters that are in none of the words stay at the end. -/
theorem eraseAll_append_separators (hwords : ∀ word ∈ words, word ≠ []) {m : List Char}
    (hm : ∀ c ∈ m, ∀ word ∈ words, c ∉ word) (s : List Char) :
    eraseAll words (s ++ m) = eraseAll words s ++ m := by
  induction m generalizing s with
  | nil => rw [List.append_nil, List.append_nil]
  | cons c m ih =>
      obtain ⟨hc, hrest⟩ := List.forall_mem_cons.1 hm
      have hend : eraseAll words m = m := by
        have hfront := ih hrest []
        rw [eraseAll_nil] at hfront
        exact hfront
      rw [eraseAll_separator hwords hc, hend]

end AllPasses

-- ========================================================== whole lines

/-- The line keeps no character that it did not have. -/
theorem mem_of_mem_stripModifiers {c : Char} {s : List Char} (h : c ∈ stripModifiers s) :
    c ∈ s :=
  (List.mem_filter.1 (mem_of_mem_eraseAll modifiers_ne_nil h)).1

section Separators

variable {c : Char} (hspace : c ≠ ' ') (hc : ∀ word ∈ modifiers, c ∉ word)

include hspace hc

/-- A character that is no space and in no modifier keeps the two sides of
a line apart. -/
theorem stripModifiers_separator (s t : List Char) :
    stripModifiers (s ++ c :: t) = stripModifiers s ++ c :: stripModifiers t := by
  have hkept : squeeze (c :: t) = c :: squeeze t :=
    List.filter_cons_of_pos (by simpa using hspace)
  rw [stripModifiers_eq, squeeze_append, hkept, eraseAll_separator modifiers_ne_nil hc]
  rfl

/-- A line that begins with such a character, spaces aside, declares
nothing: both keywords begin with a letter of `static`. -/
theorem declaresType_of_separator (spaces t : List Char) (hspaces : ∀ x ∈ spaces, x = ' ') :
    declaresType (spaces ++ c :: t) = false := by
  have hempty : squeeze spaces = [] := by
    rw [squeeze, List.filter_eq_nil_iff]
    intro x hx
    rw [hspaces x hx]
    decide
  have hfront : stripModifiers spaces = [] := by
    rw [stripModifiers_eq, hempty, eraseAll_nil]
  have hletter : ∀ x ∈ "static".toList, x ≠ c := by
    intro x hx heq
    exact hc "static".toList (by decide) (heq ▸ hx)
  have hclass : ('c' == c) = false := beq_eq_false_iff_ne.2 (hletter 'c' (by decide))
  have hinterface : ('i' == c) = false := beq_eq_false_iff_ne.2 (hletter 'i' (by decide))
  unfold declaresType beginsType
  rw [stripModifiers_separator hspace hc, hfront, List.nil_append]
  simp [List.isPrefixOf, hclass, hinterface]

end Separators

-- ==================================================== rows of modifiers

/-- A pass takes its word out of a row of modifiers, and the row is no
part of what the pass finds behind it. -/
theorem erase_row {word : List Char} (hword : word ∈ modifiers) {row : List (List Char)}
    (hrow : ∀ other ∈ row, other ∈ modifiers) (t : List Char) :
    erase word (row.flatten ++ t) = (row.filter (· != word)).flatten ++ erase word t := by
  induction row with
  | nil => rfl
  | cons other row ih =>
      obtain ⟨hother, hrest⟩ := List.forall_mem_cons.1 hrow
      rw [List.flatten_cons, List.append_assoc]
      by_cases heq : other = word
      · subst heq
        rw [erase_append_self (modifiers_ne_nil other hother), ih hrest]
        simp
      · rw [erase_append_of_cannotBegin (modifiers_separate word hword other hother heq), ih hrest,
          List.filter_cons_of_pos (by simpa using heq), List.flatten_cons, List.append_assoc]

/-- Passes over a row of modifiers leave those of them whose turn has not
come. -/
theorem eraseAll_row {words row : List (List Char)} (hwords : ∀ word ∈ words, word ∈ modifiers)
    (hrow : ∀ other ∈ row, other ∈ modifiers) (t : List Char) :
    eraseAll words (row.flatten ++ t)
      = (row.filter (· ∉ words)).flatten ++ eraseAll words t := by
  induction words generalizing row t with
  | nil =>
      have hall : row.filter (· ∉ []) = row := List.filter_eq_self.2 fun _ _ => by simp
      rw [hall]
      rfl
  | cons word words ih =>
      obtain ⟨hword, hrest⟩ := List.forall_mem_cons.1 hwords
      have hleft : ∀ other ∈ row.filter (· != word), other ∈ modifiers :=
        fun other hother => hrow other (List.mem_filter.1 hother).1
      have hturns : (row.filter (· != word)).filter (· ∉ words)
          = row.filter (· ∉ word :: words) := by
        rw [List.filter_filter]
        apply List.filter_congr
        intro other _
        by_cases heq : other = word
        · simp [heq]
        · simp [heq]
      rw [eraseAll_cons, erase_row hword hrow, ih hrest hleft, hturns, eraseAll_cons]

/-- After all passes nothing is left of a row of modifiers. -/
theorem eraseAll_modifiers_row {row : List (List Char)} (hrow : ∀ other ∈ row, other ∈ modifiers)
    (t : List Char) : eraseAll modifiers (row.flatten ++ t) = eraseAll modifiers t := by
  have hnone : row.filter (· ∉ modifiers) = [] := by
    rw [List.filter_eq_nil_iff]
    intro other hother
    simpa using hrow other hother
  rw [eraseAll_row (fun _ h => h) hrow, hnone]
  rfl

/-- A text that is a row of modifiers but for its spaces vanishes in front
of any text, and whether a type is declared does not depend on it. -/
theorem leading_modifiers_vanish (row : List (List Char)) (hrow : ∀ word ∈ row, word ∈ modifiers)
    {p : List Char} (hp : p.filter (· != ' ') = row.flatten) (t : List Char) :
    stripModifiers (p ++ t) = stripModifiers t ∧ declaresType (p ++ t) = declaresType t := by
  have hstrip : stripModifiers (p ++ t) = stripModifiers t := by
    have hsqueeze : squeeze p = row.flatten := hp
    rw [stripModifiers_eq, squeeze_append, hsqueeze, eraseAll_modifiers_row hrow]
    rfl
  refine ⟨hstrip, ?_⟩
  unfold declaresType
  rw [hstrip]

/-- Modifiers out of order, one of them twice and one broken by a space.
The letters behind them make up another modifier, too late for its
turn. -/
theorem scattered_modifiers_vanish :
    stripModifiers ("final pub lic static final ".toList ++ "stfinalatic class".toList)
        = "staticclass".toList
      ∧ declaresType ("final pub lic static final ".toList ++ "stfinalatic class".toList)
        = false := by
  have hspaces : "final pub lic static final ".toList.filter (· != ' ')
      = ["final".toList, "public".toList, "static".toList, "final".toList].flatten := by decide
  obtain ⟨hstrip, hdeclares⟩ := leading_modifiers_vanish
    ["final".toList, "public".toList, "static".toList, "final".toList] (by decide) hspaces
    "stfinalatic class".toList
  exact ⟨hstrip.trans (by decide), hdeclares.trans (by decide)⟩

end DocAudit.Line
