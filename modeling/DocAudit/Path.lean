/-
Written paths. A path is an anchor and a list of names: empty names and
`.` say nothing and are dropped when a path is read, `..` is kept. Two
slashes in front are an anchor of their own, three or more are one. The
path with no anchor and no names is written `.`.
-/
namespace DocAudit

/-- Where a path starts. -/
inductive Anchor where
  /-- At the current directory. -/
  | here
  /-- At the top, one slash. -/
  | top
  /-- At the top, two slashes. -/
  | doubleTop
  deriving DecidableEq, Repr

/-- The slashes of an anchor. -/
def Anchor.text : Anchor → String
  | here => ""
  | top => "/"
  | doubleTop => "//"

/-- A path as it is written. -/
structure Path where
  anchor : Anchor
  names : List String
  deriving DecidableEq, Repr

namespace Path

/-- The pieces between slashes, the empty ones included; `current` is
the piece under way (last character first). -/
def splitFrom (current : List Char) : List Char → List (List Char)
  | [] => [current.reverse]
  | c :: rest =>
      if c = '/' then current.reverse :: splitFrom [] rest else splitFrom (c :: current) rest

/-- The pieces of a text between slashes. -/
def pieces (text : String) : List String :=
  (splitFrom [] text.toList).map String.ofList

/-- The anchor of a text: exactly two leading slashes stay two. -/
def anchorOf : List Char → Anchor
  | '/' :: '/' :: '/' :: _ => .top
  | '/' :: '/' :: _ => .doubleTop
  | '/' :: _ => .top
  | _ => .here

/-- Reads a path. -/
def ofText (text : String) : Path where
  anchor := anchorOf text.toList
  names := (pieces text).filter fun n => n != "" && n != "."

/-- Writes a path. -/
def text (p : Path) : String :=
  if p.anchor = .here && p.names.isEmpty then "."
  else p.anchor.text ++ "/".intercalate p.names

/-- The last name, empty if there is none. -/
def name (p : Path) : String :=
  p.names.getLastD ""

/-- The path of an entry below. -/
def below (p : Path) (names : List String) : Path :=
  { p with names := p.names ++ names }

theorem below_nil (p : Path) : p.below [] = p := by
  simp [below]

theorem below_below (p : Path) (names more : List String) :
    (p.below names).below more = p.below (names ++ more) := by
  simp [below]

theorem below_inj {p : Path} {names more : List String} :
    p.below names = p.below more ↔ names = more := by
  simp [below]

theorem below_singleton_inj {p q : Path} {name other : String} :
    p.below [name] = q.below [other] ↔ p = q ∧ name = other := by
  constructor
  · intro h
    obtain ⟨anchor, names⟩ := p
    obtain ⟨anchor', names'⟩ := q
    obtain ⟨rfl, hnames⟩ : anchor = anchor' ∧ names ++ [name] = names' ++ [other] := by
      simpa only [below, mk.injEq] using h
    obtain ⟨rfl, hlast⟩ := List.append_inj' hnames rfl
    exact ⟨rfl, List.singleton_inj.1 hlast⟩
  · rintro ⟨rfl, rfl⟩
    rfl

/-- The path of the directory above, by its text: the last name goes.
Where there is none, a relative path goes on with `..` and an absolute
one stays. -/
def up (p : Path) : Path :=
  match p.names.getLast? with
  | none => if p.anchor = .here then p.below [".."] else p
  | some name =>
      if name = ".." then p.below [".."] else { p with names := p.names.dropLast }

/-- The path with a text behind it; a text that begins at the top takes
its place. -/
def followedBy (p : Path) (text : String) : Path :=
  let q := ofText text
  if q.anchor = .here then p.below q.names else q

/-- What remains of a path below a base, compared name by name. -/
def relativeTo? (p base : Path) : Option Path :=
  if p.anchor = base.anchor && base.names.isPrefixOf p.names then
    some ⟨.here, p.names.drop base.names.length⟩
  else none

/-- Does the written form hold U+0000, which no system call takes? -/
def hasNul (p : Path) : Bool :=
  p.text.toList.contains '\x00'

end Path

end DocAudit
