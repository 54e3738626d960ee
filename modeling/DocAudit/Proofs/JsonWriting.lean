/-
What the writer of JSON writes, and when it does. A value is written
exactly if its parts are, and by them: for each kind of value with parts
there is one lemma that says so (`write_arr_eq_ok` and its like), and
nothing else looks into the writer.

A value can be written exactly if each number in it can, and nothing but
a number that is too long keeps it from that (`exists_write_iff`,
`eq_numberTooLong_of_write`). What is written is plain ASCII
(`isAscii_of_write`).
-/
import DocAudit.Json
import DocAudit.Proofs.Decoding

namespace DocAudit.Json

-- ============================================================== digits

/-- The digits of a unit of sixteen bits are four. -/
theorem hex_four {n : Nat} (h : n < 0x10000) :
    Text.hex 4 n = [Nat.digitChar (n / 4096), Nat.digitChar (n / 256 % 16),
      Nat.digitChar (n / 16 % 16), Nat.digitChar (n % 16)] := by
  have hnext : ∀ {m}, 16 ≤ m →
      Nat.toDigits 16 m = Nat.toDigits 16 (m / 16) ++ [(m % 16).digitChar] :=
    fun hm => Nat.toDigits_of_base_le (by decide) hm
  have hone : ∀ {m}, m < 16 → Nat.toDigits 16 m = [m.digitChar] :=
    fun hm => Nat.toDigits_of_lt_base hm
  unfold Text.hex
  by_cases h₁ : n < 16
  · rw [hone h₁, show n / 4096 = 0 by omega, show n / 256 % 16 = 0 by omega,
      show n / 16 % 16 = 0 by omega, show n % 16 = n by omega]
    rfl
  by_cases h₂ : n < 256
  · rw [hnext (by omega), hone (by omega), show n / 4096 = 0 by omega,
      show n / 256 % 16 = 0 by omega, show n / 16 % 16 = n / 16 by omega]
    rfl
  by_cases h₃ : n < 4096
  · rw [hnext (by omega), hnext (by omega), hone (by omega), show n / 4096 = 0 by omega,
      show n / 256 % 16 = n / 16 / 16 by omega]
    rfl
  · rw [hnext (by omega), hnext (by omega), hnext (by omega), hone (by omega),
      show n / 4096 = n / 16 / 16 / 16 by omega, show n / 256 % 16 = n / 16 / 16 % 16 by omega]
    rfl

-- =============================================================== parts

section Parts

variable {depth : Nat} {text : List Char}

theorem write_int_eq_ok {n : Int} :
    write depth (.int n) = .ok text ↔
      Text.isWritable n = true ∧ (toString n).toList = text := by
  simp only [write, map_eq_ok, writeNumber_eq_ok]
  constructor
  · rintro ⟨_, ⟨hfits, rfl⟩, rfl⟩
    exact ⟨hfits, rfl⟩
  · rintro ⟨hfits, rfl⟩
    exact ⟨_, ⟨hfits, rfl⟩, rfl⟩

-- what has parts is written exactly if the parts are

theorem write_arr_eq_ok {item : Json} {items : List Json} :
    write depth (.arr (item :: items)) = .ok text ↔
      ∃ first, write (depth + 1) item = .ok first
        ∧ ∃ rest, writeItems (depth + 1) items = .ok rest
          ∧ '[' :: (newLine (depth + 1) ++ first ++ rest ++ newLine depth ++ [']']) = text := by
  simp only [write, bind_eq_ok, pure, Except.pure, Except.ok.injEq]

theorem write_obj_eq_ok {key : String} {value : Json} {fields : List (String × Json)} :
    write depth (.obj ((key, value) :: fields)) = .ok text ↔
      ∃ first, write (depth + 1) value = .ok first
        ∧ ∃ rest, writeFields (depth + 1) fields = .ok rest
          ∧ '\x7b' :: (newLine (depth + 1) ++ writeString key ++ ": ".toList ++ first ++ rest
            ++ newLine depth ++ ['\x7d']) = text := by
  simp only [write, bind_eq_ok, pure, Except.pure, Except.ok.injEq]

theorem writeItems_cons_eq_ok {item : Json} {items : List Json} :
    writeItems depth (item :: items) = .ok text ↔
      ∃ first, write depth item = .ok first
        ∧ ∃ rest, writeItems depth items = .ok rest
          ∧ ',' :: (newLine depth ++ first ++ rest) = text := by
  simp only [writeItems, bind_eq_ok, pure, Except.pure, Except.ok.injEq]

theorem writeFields_cons_eq_ok {key : String} {value : Json} {fields : List (String × Json)} :
    writeFields depth ((key, value) :: fields) = .ok text ↔
      ∃ first, write depth value = .ok first
        ∧ ∃ rest, writeFields depth fields = .ok rest
          ∧ ',' :: (newLine depth ++ writeString key ++ ": ".toList ++ first ++ rest) = text := by
  simp only [writeFields, bind_eq_ok, pure, Except.pure, Except.ok.injEq]

end Parts

/-- A rendered value is written from the margin on. -/
theorem render_eq_ok {j : Json} {text : String} :
    j.render = .ok text ↔ write 0 j = .ok text.toList := by
  rw [render, map_eq_ok]
  constructor
  · rintro ⟨written, h, rfl⟩
    rw [h, String.toList_ofList]
  · intro h
    exact ⟨text.toList, h, String.ofList_toList⟩

/-- What holds of all values: a case for each kind, with the items of an
array and the values of an object at hand. -/
theorem induction {motive : Json → Prop} (null : motive .null) (bool : ∀ b, motive (.bool b))
    (int : ∀ n, motive (.int n)) (str : ∀ s, motive (.str s))
    (arr : ∀ items, (∀ j ∈ items, motive j) → motive (.arr items))
    (obj : ∀ fields, (∀ f ∈ fields, motive f.2) → motive (.obj fields)) (j : Json) :
    motive j := by
  refine @Json.rec motive (fun items => ∀ j ∈ items, motive j)
    (fun fields => ∀ f ∈ fields, motive f.2) (fun f => motive f.2) null bool int str arr obj
    (by simp) ?_ (by simp) ?_ ?_ j
  · intro item items hitem hitems
    exact List.forall_mem_cons.2 ⟨hitem, hitems⟩
  · intro field fields hfield hfields
    exact List.forall_mem_cons.2 ⟨hfield, hfields⟩
  · intro key value hvalue
    exact hvalue

-- ============================================================= numbers

/-- A number stands somewhere in a value. -/
inductive Holds (n : Int) : Json → Prop
  | int : Holds n (.int n)
  | arr {items item} : item ∈ items → Holds n item → Holds n (.arr items)
  | obj {fields field} : field ∈ fields → Holds n field.2 → Holds n (.obj fields)

@[simp] theorem holds_int {n m : Int} : Holds n (.int m) ↔ m = n := by
  constructor
  · intro h
    cases h
    rfl
  · rintro rfl
    exact .int

@[simp] theorem not_holds_str {n : Int} {s : String} : ¬ Holds n (.str s) := by
  intro h
  cases h

@[simp] theorem holds_arr {n : Int} {items : List Json} :
    Holds n (.arr items) ↔ ∃ item ∈ items, Holds n item := by
  constructor
  · intro h
    cases h with
    | arr hitem h => exact ⟨_, hitem, h⟩
  · rintro ⟨item, hitem, h⟩
    exact .arr hitem h

@[simp] theorem holds_obj {n : Int} {fields : List (String × Json)} :
    Holds n (.obj fields) ↔ ∃ field ∈ fields, Holds n field.2 := by
  constructor
  · intro h
    cases h with
    | obj hfield h => exact ⟨_, hfield, h⟩
  · rintro ⟨field, hfield, h⟩
    exact .obj hfield h

/-- A text that joins two parts can be had exactly if both parts can. -/
theorem exists_joined_iff {first rest : Except Failure (List Char)}
    {join : List Char → List Char → List Char} :
    (∃ text a, first = .ok a ∧ ∃ b, rest = .ok b ∧ join a b = text)
      ↔ (∃ a, first = .ok a) ∧ ∃ b, rest = .ok b := by
  constructor
  · rintro ⟨_, a, ha, b, hb, -⟩
    exact ⟨⟨a, ha⟩, b, hb⟩
  · rintro ⟨⟨a, ha⟩, b, hb⟩
    exact ⟨_, a, ha, b, hb, rfl⟩

theorem exists_writeItems_iff (depth : Nat) (items : List Json) :
    (∃ text, writeItems depth items = .ok text)
      ↔ ∀ j ∈ items, ∃ text, write depth j = .ok text := by
  induction items with
  | nil => simp [writeItems]
  | cons item items ih =>
      rw [List.forall_mem_cons, ← ih]
      simp only [writeItems_cons_eq_ok]
      exact exists_joined_iff

theorem exists_writeFields_iff (depth : Nat) (fields : List (String × Json)) :
    (∃ text, writeFields depth fields = .ok text)
      ↔ ∀ f ∈ fields, ∃ text, write depth f.2 = .ok text := by
  induction fields with
  | nil => simp [writeFields]
  | cons field fields ih =>
      obtain ⟨key, value⟩ := field
      rw [List.forall_mem_cons, ← ih]
      simp only [writeFields_cons_eq_ok]
      exact exists_joined_iff

theorem exists_write_arr_iff (depth : Nat) (items : List Json) :
    (∃ text, write depth (.arr items) = .ok text)
      ↔ ∀ j ∈ items, ∃ text, write (depth + 1) j = .ok text := by
  cases items with
  | nil => simp [write]
  | cons item items =>
      rw [List.forall_mem_cons, ← exists_writeItems_iff]
      simp only [write_arr_eq_ok]
      exact exists_joined_iff

theorem exists_write_obj_iff (depth : Nat) (fields : List (String × Json)) :
    (∃ text, write depth (.obj fields) = .ok text)
      ↔ ∀ f ∈ fields, ∃ text, write (depth + 1) f.2 = .ok text := by
  cases fields with
  | nil => simp [write]
  | cons field fields =>
      obtain ⟨key, value⟩ := field
      rw [List.forall_mem_cons, ← exists_writeFields_iff]
      simp only [write_obj_eq_ok]
      exact exists_joined_iff

/-- A value is written exactly if all its numbers can be. -/
theorem exists_write_iff (depth : Nat) (j : Json) :
    (∃ text, write depth j = .ok text) ↔ ∀ n, Holds n j → Text.isWritable n = true := by
  induction j using Json.induction generalizing depth with
  | null => exact iff_of_true ⟨_, rfl⟩ (by intro n hn; cases hn)
  | bool b => cases b <;> exact iff_of_true ⟨_, rfl⟩ (by intro n hn; cases hn)
  | int n =>
      constructor
      · rintro ⟨text, hwrite⟩ m hm
        cases hm
        exact (write_int_eq_ok.1 hwrite).1
      · intro h
        exact ⟨_, write_int_eq_ok.2 ⟨h n .int, rfl⟩⟩
  | str s => exact iff_of_true ⟨_, rfl⟩ (by intro n hn; cases hn)
  | arr items ih =>
      rw [exists_write_arr_iff]
      constructor
      · intro h n hn
        cases hn with
        | arr hitem hn => exact (ih _ hitem (depth + 1)).1 (h _ hitem) n hn
      · intro h item hitem
        exact (ih item hitem (depth + 1)).2 fun n hn => h n (.arr hitem hn)
  | obj fields ih =>
      rw [exists_write_obj_iff]
      constructor
      · intro h n hn
        cases hn with
        | obj hfield hn => exact (ih _ hfield (depth + 1)).1 (h _ hfield) n hn
      · intro h field hfield
        exact (ih field hfield (depth + 1)).2 fun n hn => h n (.obj hfield hn)

/-- A value is rendered exactly if all its numbers can be written. -/
theorem exists_render_iff (j : Json) :
    (∃ text, j.render = .ok text) ↔ ∀ n, Holds n j → Text.isWritable n = true := by
  rw [← exists_write_iff 0]
  constructor
  · rintro ⟨text, h⟩
    exact ⟨text.toList, render_eq_ok.1 h⟩
  · rintro ⟨text, h⟩
    exact ⟨String.ofList text, render_eq_ok.2 (by rw [h, String.toList_ofList])⟩

/-- What keeps a text that joins two parts from being had keeps one of the
parts from it. -/
theorem joined_eq_error {first rest : Except Failure (List Char)}
    {join : List Char → List Char → List Char} {failure : Failure}
    (h : (do
      let a ← first
      let b ← rest
      return join a b) = .error failure) :
    first = .error failure ∨ rest = .error failure := by
  obtain h | ⟨a, -, h⟩ := bind_eq_error.1 h
  · exact .inl h
  · obtain h | ⟨b, -, h⟩ := bind_eq_error.1 h
    · exact .inr h
    · cases h

theorem eq_numberTooLong_of_writeItems {depth : Nat} {items : List Json}
    (hall : ∀ j ∈ items, ∀ failure, write depth j = .error failure → failure = .numberTooLong)
    {failure : Failure} (h : writeItems depth items = .error failure) :
    failure = .numberTooLong := by
  induction items with
  | nil => cases h
  | cons item items ih =>
      rw [List.forall_mem_cons] at hall
      rw [writeItems] at h
      obtain h | h := joined_eq_error h
      · exact hall.1 failure h
      · exact ih hall.2 h

theorem eq_numberTooLong_of_writeFields {depth : Nat} {fields : List (String × Json)}
    (hall : ∀ f ∈ fields, ∀ failure, write depth f.2 = .error failure → failure = .numberTooLong)
    {failure : Failure} (h : writeFields depth fields = .error failure) :
    failure = .numberTooLong := by
  induction fields with
  | nil => cases h
  | cons field fields ih =>
      obtain ⟨key, value⟩ := field
      rw [List.forall_mem_cons] at hall
      rw [writeFields] at h
      obtain h | h := joined_eq_error h
      · exact hall.1 failure h
      · exact ih hall.2 h

/-- Only a number that is too long keeps a value from being written. -/
theorem eq_numberTooLong_of_write {depth : Nat} {j : Json} {failure : Failure}
    (h : write depth j = .error failure) : failure = .numberTooLong := by
  induction j using Json.induction generalizing depth failure with
  | null => cases h
  | bool b => cases b <;> cases h
  | int n =>
      rw [write, map_eq_error] at h
      exact eq_numberTooLong_of_writeNumber h
  | str s => cases h
  | arr items ih =>
      cases items with
      | nil => cases h
      | cons item items =>
          rw [List.forall_mem_cons] at ih
          rw [write] at h
          obtain h | h := joined_eq_error h
          · exact ih.1 h
          · exact eq_numberTooLong_of_writeItems (fun j hj _ => ih.2 j hj) h
  | obj fields ih =>
      cases fields with
      | nil => cases h
      | cons field fields =>
          obtain ⟨key, value⟩ := field
          rw [List.forall_mem_cons] at ih
          rw [write] at h
          obtain h | h := joined_eq_error h
          · exact ih.1 h
          · exact eq_numberTooLong_of_writeFields (fun f hf _ => ih.2 f hf) h

theorem eq_numberTooLong_of_render {j : Json} {failure : Failure}
    (h : j.render = .error failure) : failure = .numberTooLong := by
  rw [render, map_eq_error] at h
  exact eq_numberTooLong_of_write h

-- ================================================== plain characters

/-- The characters below U+0080. -/
def IsAscii (s : List Char) : Prop :=
  ∀ c ∈ s, c.toNat < 0x80

instance (s : List Char) : Decidable (IsAscii s) :=
  decidable_of_iff (s.all fun c => decide (c.toNat < 0x80)) (by simp [IsAscii])

theorem isAscii_append {s t : List Char} : IsAscii (s ++ t) ↔ IsAscii s ∧ IsAscii t :=
  List.forall_mem_append

theorem isAscii_cons {c : Char} {s : List Char} : IsAscii (c :: s) ↔ c.toNat < 0x80 ∧ IsAscii s :=
  List.forall_mem_cons

theorem isAscii_unitEscape {n : Nat} (h : n < 0x10000) : IsAscii (unitEscape n) := by
  have hdigit : ∀ d < 16, (Nat.digitChar d).toNat < 0x80 := by decide
  rw [unitEscape, hex_four h]
  intro c hc
  simp only [List.mem_cons, List.not_mem_nil, or_false] at hc
  obtain rfl | rfl | rfl | rfl | rfl | rfl := hc
  · decide
  · decide
  all_goals exact hdigit _ (by omega)

theorem isAscii_writeChar (c : Char) : IsAscii (writeChar c) := by
  have hvalid := Text.toNat_lt c
  unfold writeChar
  split_ifs with hself hn hr ht hb hf hplain hunit
  · obtain rfl | rfl : c = '\x22' ∨ c = '\\' := by simpa using hself
    · decide
    · decide
  · decide
  · decide
  · decide
  · decide
  · decide
  · simp only [Bool.and_eq_true, decide_eq_true_eq] at hplain
    simp [IsAscii]
    omega
  · exact isAscii_unitEscape hunit
  · exact isAscii_append.2 ⟨isAscii_unitEscape (by omega), isAscii_unitEscape (by omega)⟩

theorem isAscii_writeString (s : String) : IsAscii (writeString s) := by
  rw [writeString, isAscii_cons, isAscii_append]
  refine ⟨by decide, ?_, by decide⟩
  intro c hc
  obtain ⟨c', _, hc⟩ := List.mem_flatMap.1 hc
  exact isAscii_writeChar c' c hc

theorem isAscii_newLine (depth : Nat) : IsAscii (newLine depth) := by
  rw [newLine, isAscii_cons]
  refine ⟨by decide, ?_⟩
  intro c hc
  rw [(List.mem_replicate.1 hc).2]
  decide

theorem isAscii_toDigits (n : Nat) : IsAscii (Nat.toDigits 10 n) := by
  intro c hc
  have hdigit := Nat.isDigit_of_mem_toDigits (by decide) (by decide) hc
  simp only [Char.isDigit, Bool.and_eq_true, decide_eq_true_eq] at hdigit
  have : c.val.toNat ≤ 57 := UInt32.le_iff_toNat_le.1 hdigit.2
  show c.val.toNat < 0x80
  omega

theorem isAscii_of_writeItems {depth : Nat} {items : List Json}
    (hall : ∀ j ∈ items, ∀ text, write depth j = .ok text → IsAscii text) {text : List Char}
    (h : writeItems depth items = .ok text) : IsAscii text := by
  induction items generalizing text with
  | nil =>
      cases h
      decide
  | cons item items ih =>
      rw [List.forall_mem_cons] at hall
      obtain ⟨first, hfirst, rest, hrest, rfl⟩ := writeItems_cons_eq_ok.1 h
      simp only [isAscii_cons, isAscii_append]
      exact ⟨by decide, ⟨isAscii_newLine depth, hall.1 first hfirst⟩, ih hall.2 hrest⟩

theorem isAscii_of_writeFields {depth : Nat} {fields : List (String × Json)}
    (hall : ∀ f ∈ fields, ∀ text, write depth f.2 = .ok text → IsAscii text) {text : List Char}
    (h : writeFields depth fields = .ok text) : IsAscii text := by
  induction fields generalizing text with
  | nil =>
      cases h
      decide
  | cons field fields ih =>
      obtain ⟨key, value⟩ := field
      rw [List.forall_mem_cons] at hall
      obtain ⟨first, hfirst, rest, hrest, rfl⟩ := writeFields_cons_eq_ok.1 h
      simp only [isAscii_cons, isAscii_append]
      exact ⟨by decide, ⟨⟨⟨isAscii_newLine depth, isAscii_writeString key⟩, by decide⟩,
        hall.1 first hfirst⟩, ih hall.2 hrest⟩

/-- A written value is plain text. -/
theorem isAscii_of_write {depth : Nat} {j : Json} {text : List Char}
    (h : write depth j = .ok text) : IsAscii text := by
  induction j using Json.induction generalizing depth text with
  | null =>
      cases h
      decide
  | bool b => cases b <;> cases h <;> decide
  | int n =>
      obtain ⟨-, rfl⟩ := write_int_eq_ok.1 h
      cases n with
      | ofNat m =>
          rw [Text.toList_toString_natural]
          exact isAscii_toDigits m
      | negSucc m =>
          rw [Text.toList_toString_negative, isAscii_cons]
          exact ⟨by decide, isAscii_toDigits (m + 1)⟩
  | str s =>
      cases h
      exact isAscii_writeString s
  | arr items ih =>
      cases items with
      | nil =>
          cases h
          decide
      | cons item items =>
          rw [List.forall_mem_cons] at ih
          obtain ⟨first, hfirst, rest, hrest, rfl⟩ := write_arr_eq_ok.1 h
          have hitems := isAscii_of_writeItems (fun j hj _ => ih.2 j hj) hrest
          simp only [isAscii_cons, isAscii_append]
          exact ⟨by decide, ⟨⟨⟨isAscii_newLine _, ih.1 hfirst⟩, hitems⟩, isAscii_newLine _⟩,
            by decide, by decide⟩
  | obj fields ih =>
      cases fields with
      | nil =>
          cases h
          decide
      | cons field fields =>
          obtain ⟨key, value⟩ := field
          rw [List.forall_mem_cons] at ih
          obtain ⟨first, hfirst, rest, hrest, rfl⟩ := write_obj_eq_ok.1 h
          have hfields := isAscii_of_writeFields (fun f hf _ => ih.2 f hf) hrest
          simp only [isAscii_cons, isAscii_append]
          exact ⟨by decide, ⟨⟨⟨⟨⟨isAscii_newLine _, isAscii_writeString key⟩, by decide⟩,
            ih.1 hfirst⟩, hfields⟩, isAscii_newLine _⟩, by decide, by decide⟩

end DocAudit.Json
