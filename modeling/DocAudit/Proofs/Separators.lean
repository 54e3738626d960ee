/-
Parentheses among the modifiers.

Whether a line with `class` in front declares a type or is a method is
decided by an empty pair of parentheses, looked for when spaces and
modifiers are gone. So the pair need not be written as one: it may come
about when all that stands between the two parentheses is deleted.

It comes about in no other way. Both parentheses are separators: they are
in no modifier, so what stands before one, between them and behind one is
stripped by itself (`stripModifiers_separator`). A pair in the stripped
line is then an opening parenthesis of the line itself, and the next
closing one behind it, with nothing left in between
(`hasEmptyParens_stripModifiers_iff`). The induction goes from one opening
parenthesis to the next.
-/
import DocAudit.Proofs.PlainDeclarations

namespace DocAudit.Line

-- ========================================================= empty pairs

/-- The search finds a pair exactly if there is one. -/
theorem hasEmptyParens_iff_infix (s : List Char) :
    hasEmptyParens s = true ↔ "()".toList <:+: s := by
  induction s with
  | nil => decide
  | cons c s ih =>
      have hfront : "()".toList <+: c :: s ↔ c = '(' ∧ s.head? = some ')' := by
        rw [show "()".toList = ['(', ')'] from rfl, List.cons_prefix_cons, eq_comm]
        cases s with
        | nil => simp
        | cons d s => simp [List.cons_prefix_cons, eq_comm]
      rw [hasEmptyParens_cons, Bool.or_eq_true, ih, List.infix_cons_iff, hfront,
        Bool.and_eq_true, beq_iff_eq, beq_iff_eq]

-- ================================================== pairs that come about

theorem stripModifiers_open (s t : List Char) :
    stripModifiers (s ++ '(' :: t) = stripModifiers s ++ '(' :: stripModifiers t :=
  stripModifiers_separator (by decide) (by decide) s t

theorem stripModifiers_close (s t : List Char) :
    stripModifiers (s ++ ')' :: t) = stripModifiers s ++ ')' :: stripModifiers t :=
  stripModifiers_separator (by decide) (by decide) s t

/-- A stripped line begins with a closing parenthesis if all that stands
before the first one is deleted. -/
theorem exists_of_head?_stripModifiers {s : List Char}
    (h : (stripModifiers s).head? = some ')') :
    ∃ m b, s = m ++ ')' :: b ∧ stripModifiers m = [] := by
  have hmem : ')' ∈ s := mem_of_mem_stripModifiers (List.mem_of_head? h)
  obtain ⟨m, b, rfl, hm⟩ := List.eq_append_cons_of_mem hmem
  refine ⟨m, b, rfl, ?_⟩
  rw [stripModifiers_close] at h
  cases hleft : stripModifiers m with
  | nil => rfl
  | cons c rest =>
      -- what is left of `m` would begin with the parenthesis that `m` lacks
      rw [hleft] at h
      obtain rfl : c = ')' := Option.some.inj h
      exact absurd (mem_of_mem_stripModifiers (hleft ▸ List.mem_cons_self ..)) hm

/-- A pair comes about between two parentheses exactly if nothing between
them is left. -/
theorem hasEmptyParens_stripModifiers_iff (text : List Char) :
    hasEmptyParens (stripModifiers text) = true
      ↔ ∃ a m b, text = a ++ '(' :: (m ++ ')' :: b) ∧ stripModifiers m = [] := by
  constructor
  · intro h
    induction hn : text.length using Nat.strongRecOn generalizing text with
    | ind n ih =>
        by_cases hopen : '(' ∈ text
        · obtain ⟨a, rest, rfl, ha⟩ := List.eq_append_cons_of_mem hopen
          have hclean : '(' ∉ stripModifiers a := fun hmem => ha (mem_of_mem_stripModifiers hmem)
          rw [stripModifiers_open, hasEmptyParens_append hclean, hasEmptyParens_cons,
            Bool.or_eq_true, Bool.and_eq_true, beq_iff_eq, beq_iff_eq] at h
          rcases h with ⟨-, hhead⟩ | hlater
          · obtain ⟨m, b, rfl, hm⟩ := exists_of_head?_stripModifiers hhead
            exact ⟨a, m, b, rfl, hm⟩
          · rw [List.length_append, List.length_cons] at hn
            obtain ⟨a', m, b, rfl, hm⟩ := ih rest.length (by omega) rest hlater rfl
            exact ⟨a ++ '(' :: a', m, b, by simp, hm⟩
        · have hnone : '(' ∉ stripModifiers text := fun hmem =>
            hopen (mem_of_mem_stripModifiers hmem)
          rw [hasEmptyParens_eq_false hnone] at h
          cases h
  · rintro ⟨a, m, b, rfl, hm⟩
    rw [stripModifiers_open, stripModifiers_close, hm, hasEmptyParens_iff_infix]
    exact ⟨stripModifiers a, stripModifiers b, by simp⟩

-- ============================================================== result

/-- Stripping works on each side of a separator by itself. So the veto
falls exactly where two parentheses have nothing between them that is
left, and a line declares nothing if the first of its characters that is
no space is a separator, a slash or an at sign for instance. -/
theorem stripped_between_separators :
    (∀ (u v : List Char) (c : Char), c ≠ ' ' → (∀ word ∈ modifiers, c ∉ word) →
        stripModifiers (u ++ c :: v) = stripModifiers u ++ c :: stripModifiers v)
    ∧ (∀ text : List Char, "()".toList <:+: stripModifiers text
        ↔ ∃ a m b, text = a ++ '(' :: (m ++ ')' :: b) ∧ stripModifiers m = [])
    ∧ (∀ text : List Char, declaresType text = true
        ↔ ("class".toList <+: stripModifiers text ∨ "interface".toList <+: stripModifiers text)
          ∧ ¬ ∃ a m b, text = a ++ '(' :: (m ++ ')' :: b) ∧ stripModifiers m = [])
    ∧ (∀ (text : List Char) (c : Char), text.find? (· != ' ') = some c →
        (∀ word ∈ modifiers, c ∉ word) → declaresType text = false)
    ∧ ∀ rest, declaresType ('/' :: rest) = false ∧ declaresType ('@' :: rest) = false := by
  refine ⟨?_, ?_, ?_, ?_, ?_⟩
  · intro u v c hspace hc
    exact stripModifiers_separator hspace hc u v
  · intro text
    rw [← hasEmptyParens_iff_infix, hasEmptyParens_stripModifiers_iff]
  · intro text
    unfold declaresType beginsType
    rw [Bool.and_eq_true, Bool.or_eq_true, List.isPrefixOf_iff_prefix, List.isPrefixOf_iff_prefix,
      Bool.not_eq_true', ← Bool.not_eq_true, hasEmptyParens_stripModifiers_iff]
  · intro text c hfirst hc
    obtain ⟨hspace, spaces, rest, rfl, hspaces⟩ := List.find?_eq_some_iff_append.1 hfirst
    exact declaresType_of_separator (by simpa using hspace) hc spaces rest
      (by simpa using hspaces)
  · intro rest
    exact ⟨declaresType_of_separator (by decide) (by decide) [] rest (List.forall_mem_nil _),
      declaresType_of_separator (by decide) (by decide) [] rest (List.forall_mem_nil _)⟩

/-- A parenthesis keeps the halves of a modifier apart, two of them with
modifiers in between become a pair, and a line may begin with a sign
behind spaces. -/
theorem stripped_between_parens :
    stripModifiers ("stat".toList ++ '(' :: "ic".toList)
        = stripModifiers "stat".toList ++ '(' :: stripModifiers "ic".toList
      ∧ "()".toList <:+: stripModifiers "class a(fi nal static)".toList
      ∧ declaresType "  #class a".toList = false := by
  obtain ⟨hlocal, hveto, -, hfirst, -⟩ := stripped_between_separators
  refine ⟨hlocal _ _ '(' (by decide) (by decide), ?_, hfirst _ '#' (by decide) (by decide)⟩
  exact (hveto _).2 ⟨"class a".toList, "fi nal static".toList, [], by decide, by decide⟩

end DocAudit.Line
