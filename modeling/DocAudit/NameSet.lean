/-
Sets of names, kept as lists in strictly increasing order of code points.
The same names, in whatever order and however often they are given, make
the same list; so a directory lists its entries in one order only, and
two equal sets of skipped names are one value.
-/
namespace DocAudit.NameSet

/-- Puts a name into its place, unless it is there. -/
def insert (name : String) : List String → List String
  | [] => [name]
  | n :: rest =>
      if name < n then name :: n :: rest
      else if name = n then n :: rest
      else n :: insert name rest

/-- The set of the names given. -/
def ofList (names : List String) : List String :=
  names.foldr insert []

-- ============================================================ content

theorem mem_insert {x name : String} {names : List String} :
    x ∈ insert name names ↔ x = name ∨ x ∈ names := by
  induction names with
  | nil => simp [insert]
  | cons n rest ih =>
      rw [insert]
      split
      · simp
      · split
        · rename_i h
          subst h
          simp
        · rw [List.mem_cons, ih, List.mem_cons]
          exact or_left_comm

/-- A set has the names it is made of. -/
theorem mem_ofList {x : String} {names : List String} : x ∈ ofList names ↔ x ∈ names := by
  induction names with
  | nil => simp [ofList]
  | cons n rest ih =>
      rw [ofList, List.foldr_cons, mem_insert, List.mem_cons]
      exact or_congr Iff.rfl ih

-- =============================================================== size

theorem length_insert_le (name : String) (names : List String) :
    (insert name names).length ≤ names.length + 1 := by
  induction names with
  | nil => exact Nat.le_refl _
  | cons n rest ih =>
      rw [insert]
      split
      · exact Nat.le_refl _
      · split
        · exact Nat.le_succ _
        · exact Nat.succ_le_succ ih

/-- A set is no longer than the list it is made of. -/
theorem length_ofList_le (names : List String) : (ofList names).length ≤ names.length := by
  induction names with
  | nil => exact Nat.le_refl _
  | cons n rest ih =>
      rw [ofList, List.foldr_cons, List.length_cons]
      exact Nat.le_trans (length_insert_le n _) (Nat.succ_le_succ ih)

-- ============================================================== order

/-- Inserting keeps the order. -/
theorem pairwise_insert (name : String) {names : List String}
    (h : names.Pairwise (· < ·)) : (insert name names).Pairwise (· < ·) := by
  induction names with
  | nil => simp [insert]
  | cons n rest ih =>
      obtain ⟨hn, hrest⟩ := List.pairwise_cons.1 h
      rw [insert]
      split
      · rename_i hlt
        refine List.pairwise_cons.2 ⟨fun x hx => ?_, h⟩
        rcases List.mem_cons.1 hx with rfl | hx
        · exact hlt
        · exact String.lt_trans hlt (hn x hx)
      · split
        · exact h
        · rename_i hlt hne
          refine List.pairwise_cons.2 ⟨fun x hx => ?_, ih hrest⟩
          rcases mem_insert.1 hx with rfl | hx
          · exact String.not_le.1 fun hle =>
              hne (String.le_antisymm hle (String.not_lt.1 hlt))
          · exact hn x hx

/-- A set is in strictly increasing order. -/
theorem pairwise_ofList (names : List String) : (ofList names).Pairwise (· < ·) := by
  induction names with
  | nil => exact List.Pairwise.nil
  | cons n rest ih => exact pairwise_insert n ih

end DocAudit.NameSet
