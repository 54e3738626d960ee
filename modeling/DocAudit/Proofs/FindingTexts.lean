/-
The text of a finding can be read back. It has four parts: a number, the
message, a path and a line. Paths hold whatever their names hold, so a
path may look like any part of the layout, or like a whole finding.

# Both ends

Only the two numbers can be relied on: a number is made of digits, with a
minus sign perhaps (`mem_toString`). So the first closing parenthesis is
the one behind the number, and the last space is the one before the line.
Between them stand the message, which is known, and the path, whatever it
holds. `readBack?` cuts a text at these two places (`cutFirst`,
`cutLast`) and never looks into the path.

The message has to be known: one that holds a colon itself can take over
the beginning of a path. And a finding has a text only if its two numbers
can be written, `findingText_eq_ok`.
-/
import DocAudit.Proofs.Numerals
import DocAudit.Report.Terminal

namespace DocAudit.Terminal

-- ============================================================= reading

/-- What the text of a finding tells. -/
structure Shown where
  index : Int
  path : String
  line : Int
  deriving DecidableEq, Repr

/-- What stands before and behind the first `c`. -/
def cutFirst (c : Char) (s : List Char) : List Char × List Char :=
  (s.takeWhile (· != c), (s.dropWhile (· != c)).tail)

/-- What stands before and behind the last `c`. -/
def cutLast (c : Char) (s : List Char) : List Char × List Char :=
  let (behind, before) := cutFirst c s.reverse
  (before.reverse, behind.reverse)

/-- Reads back the text of a finding with a known message. -/
def readBack? (message text : String) : Option Shown := do
  let (number, rest) := cutFirst ')' text.toList
  let (front, last) := cutLast ' ' rest
  let index ← Text.integer? number
  let line ← Text.integer? last
  -- a space, the message, a colon and a space stand before the path, a colon behind it
  let path := (front.drop (message.length + 3)).dropLast
  return ⟨index, String.ofList path, line⟩

-- ============================================================= cutting

theorem cutFirst_append {c : Char} {s : List Char} (h : c ∉ s) (t : List Char) :
    cutFirst c (s ++ c :: t) = (s, t) := by
  have hs : ∀ x ∈ s, (x != c) = true := by
    intro x hx
    rw [bne_iff_ne]
    rintro rfl
    exact h hx
  rw [cutFirst, List.takeWhile_append_of_pos hs, List.dropWhile_append_of_pos hs]
  simp

theorem cutLast_append {c : Char} {t : List Char} (h : c ∉ t) (s : List Char) :
    cutLast c (s ++ c :: t) = (s, t) := by
  have hreverse : (s ++ c :: t).reverse = t.reverse ++ c :: s.reverse := by simp
  have ht : c ∉ t.reverse := by rwa [List.mem_reverse]
  rw [cutLast, hreverse, cutFirst_append ht]
  simp

-- ============================================================= numbers

/-- A number is written in digits, with a minus sign perhaps. -/
theorem mem_toString {n : Int} {c : Char} (h : c ∈ (toString n).toList) :
    c = '-' ∨ c.isDigit = true := by
  have hdigit : ∀ {m : Nat}, c ∈ Nat.toDigits 10 m → c.isDigit = true :=
    fun hc => Nat.isDigit_of_mem_toDigits (by decide) (by decide) hc
  cases n with
  | ofNat m =>
      rw [Text.toList_toString_natural] at h
      exact .inr (hdigit h)
  | negSucc m =>
      rw [Text.toList_toString_negative] at h
      rcases List.mem_cons.1 h with hminus | h
      · exact .inl hminus
      · exact .inr (hdigit h)

theorem not_mem_toString {c : Char} (hminus : c ≠ '-') (hdigit : c.isDigit = false) (n : Int) :
    c ∉ (toString n).toList := by
  intro h
  rcases mem_toString h with h | h
  · exact hminus h
  · rw [hdigit] at h
    exact Bool.false_ne_true h

-- ============================================================ findings

/-- A finding has a text if its number and its line can be written. -/
theorem findingText_eq_ok {index : Int} {d : Diagnostic} {text : String} :
    findingText index d = .ok text ↔
      Text.isWritable index = true ∧ Text.isWritable d.line = true
        ∧ text = toString index ++ ") " ++ d.message ++ ": " ++ d.path.text ++ ": "
          ++ toString d.line := by
  simp only [findingText, bind_eq_ok, writeNumber_eq_ok, pure, Except.pure, Except.ok.injEq]
  constructor
  · rintro ⟨_, ⟨hindex, rfl⟩, _, ⟨hline, rfl⟩, rfl⟩
    exact ⟨hindex, hline, rfl⟩
  · rintro ⟨hindex, hline, rfl⟩
    exact ⟨_, ⟨hindex, rfl⟩, _, ⟨hline, rfl⟩, rfl⟩

/-- The layout, with the two places to cut at. -/
theorem toList_of_findingText {index : Int} {d : Diagnostic} {text : String}
    (h : findingText index d = .ok text) :
    text.toList
      = (toString index).toList ++ ')'
        :: ((' ' :: d.message.toList ++ [':', ' '] ++ d.path.text.toList ++ [':'])
          ++ ' ' :: (toString d.line).toList) := by
  obtain ⟨-, -, rfl⟩ := findingText_eq_ok.1 h
  simp only [String.toList_append]
  simp

theorem readBack?_of_findingText {index : Int} {d : Diagnostic} {text : String}
    (h : findingText index d = .ok text) :
    readBack? d.message text = some ⟨index, d.path.text, d.line⟩ := by
  have hfirst := cutFirst_append (not_mem_toString (c := ')') (by decide) (by decide) index)
  have hlast := cutLast_append (not_mem_toString (c := ' ') (by decide) (by decide) d.line)
  have hpath : ((' ' :: d.message.toList ++ [':', ' '] ++ d.path.text.toList ++ [':']).drop
      (d.message.length + 3)).dropLast = d.path.text.toList := by
    rw [List.append_assoc, List.drop_left' (by simp [String.length_toList]),
      List.dropLast_concat]
  obtain ⟨hindex, hline, -⟩ := findingText_eq_ok.1 h
  simp only [readBack?, toList_of_findingText h, hfirst, hlast, hpath, String.ofList_toList,
    Text.integer?_toString hindex, Text.integer?_toString hline]
  rfl

/-- A finding has a text exactly if its number and its line can be
written. Findings with the usual message have the same text only if
number, printed path and line are the same, whatever is in the paths: all
three can be read back from the text. -/
theorem findingText_decodable (index index' : Int) (d d' : Diagnostic)
    (h : d.message = missingComment) (h' : d'.message = missingComment) :
    ((∃ text, findingText index d = .ok text)
        ↔ Text.isWritable index = true ∧ Text.isWritable d.line = true)
      ∧ ∀ text, findingText index d = .ok text →
        (findingText index' d' = .ok text
          ↔ index = index' ∧ d.path.text = d'.path.text ∧ d.line = d'.line)
        ∧ readBack? missingComment text = some ⟨index, d.path.text, d.line⟩ := by
  constructor
  · simp only [findingText_eq_ok]
    constructor
    · rintro ⟨_, hindex, hline, -⟩
      exact ⟨hindex, hline⟩
    · rintro ⟨hindex, hline⟩
      exact ⟨_, hindex, hline, rfl⟩
  · intro text htext
    have hread := readBack?_of_findingText htext
    rw [h] at hread
    refine ⟨⟨?_, ?_⟩, hread⟩
    · intro htext'
      have hread' := readBack?_of_findingText htext'
      rw [h', hread] at hread'
      obtain ⟨hindex, hpath, hline⟩ := Shown.mk.inj (Option.some.inj hread')
      exact ⟨hindex, hpath, hline⟩
    · rintro ⟨rfl, hpath, hline⟩
      obtain ⟨hindex, hwritable, rfl⟩ := findingText_eq_ok.1 htext
      rw [hline] at hwritable
      rw [findingText_eq_ok, h, h', hpath, hline]
      exact ⟨hindex, hwritable, rfl⟩

/-- A path that imitates a finding is read back whole, and a number at the
end of a path is not taken for the line. -/
theorem findingText_imitated :
    (∃ text, findingText (-3)
          ⟨⟨.here, ["1) No comment found: a: 2\n4) ", "b: -5"]⟩, 12, missingComment⟩ = .ok text
        ∧ readBack? missingComment text = some ⟨-3, "1) No comment found: a: 2\n4) /b: -5", 12⟩)
      ∧ findingText 1 ⟨⟨.here, ["a: 1"]⟩, 2, missingComment⟩
        ≠ findingText 1 ⟨⟨.here, ["a"]⟩, 12, missingComment⟩ := by
  constructor
  · obtain ⟨hwritten, hread⟩ := findingText_decodable (-3) 0
      ⟨⟨.here, ["1) No comment found: a: 2\n4) ", "b: -5"]⟩, 12, missingComment⟩
      ⟨⟨.here, []⟩, 0, missingComment⟩ rfl rfl
    obtain ⟨text, htext⟩ := hwritten.2 ⟨by decide, by decide⟩
    exact ⟨text, htext, (hread text htext).2⟩
  · intro hsame
    obtain ⟨hwritten, hread⟩ := findingText_decodable 1 1 ⟨⟨.here, ["a: 1"]⟩, 2, missingComment⟩
      ⟨⟨.here, ["a"]⟩, 12, missingComment⟩ rfl rfl
    obtain ⟨text, htext⟩ := hwritten.2 ⟨by decide, by decide⟩
    have hline := ((hread text htext).1.1 (hsame ▸ htext)).2.2
    exact absurd hline (by decide)

/-- Other messages may take over the beginning of a path. -/
example : findingText 1 ⟨⟨.here, ["b: c"]⟩, 2, "a"⟩ = findingText 1 ⟨⟨.here, ["c"]⟩, 2, "a: b"⟩ := by
  rfl

end DocAudit.Terminal
