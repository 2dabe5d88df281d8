set_option autoImplicit false

/-!
# Paths

A path is kept as it is written: whether it begins with a slash, and the parts between the slashes. What it
means is its list of components, from which empty parts and single dots are left out.

## Main definitions

* `TestScaffold.Path`, `TestScaffold.Path.ofString`, `TestScaffold.Path.text` — paths and their text.
* `TestScaffold.Component`, `TestScaffold.Path.components` — what a path means.
* `TestScaffold.Path.fileName?`, `TestScaffold.Path.parent?` — its last component and the rest.
* `TestScaffold.Path.extension?`, `TestScaffold.Path.stemOf` — parts of the file name.
* `TestScaffold.Path.child` — a path with one more part.
* `TestScaffold.Path.absolute` — the path that does not depend on a working directory.

## Main results

* `TestScaffold.Path.components_child` — a further name is a further component.

## Implementation notes

A dot is a component only at the beginning of a path without a leading slash. A backslash is a character
like any other.

The name of an entry need not be text. Where it is not, characters that no name holds, such as NUL, may stand for
its bytes: nothing about paths depends on which characters there are, but for the slash and the dot. How such a
name reads as text is a question of its own, which `TestScaffold.sourceSpecifier` leaves open.
-/

namespace TestScaffold

/-- One step of a path. -/
inductive Component where
  /-- To the root directory. -/
  | root
  /-- To the directory itself; only as the first step. -/
  | current
  /-- To the directory above. -/
  | parent
  /-- To an entry of the directory. -/
  | normal (name : String)
deriving DecidableEq, Repr

namespace Component

/-- The name of an entry, if the step goes to one. -/
def name? : Component → Option String
  | normal name => some name
  | _ => none

/-- The step as it is written. -/
def text : Component → String
  | root => "/"
  | current => "."
  | parent => ".."
  | normal name => name

end Component

/-- A path as it is written. -/
structure Path where
  /-- Whether the path begins with a slash. -/
  rooted : Bool
  /-- The parts between the slashes, that before the first slash not counted if it is a leading one. -/
  parts : List String
deriving DecidableEq, Repr

namespace Path

/-- The parts of a text between its slashes; the empty text has none. -/
def split (cs : List Char) : List String :=
  if cs.isEmpty then [] else (cs.splitOn '/').map String.ofList

/-- The path written as a text. -/
def ofString (s : String) : Path :=
  match s.toList with
  | '/' :: cs => ⟨true, split cs⟩
  | cs => ⟨false, split cs⟩

/-- The text of a path. -/
def text (p : Path) : String := (if p.rooted then "/" else "") ++ "/".intercalate p.parts

/-- Whether a part of a path means nothing. -/
def isTrivial (part : String) : Bool := part == "" || part == "."

/-- The step that a part of a path means; none if it means nothing. -/
def step? (part : String) : Option Component :=
  if isTrivial part then none else if part == ".." then some .parent else some (.normal part)

/-- The step that the beginning of a path means: to the root if there is a leading slash, to the directory
itself if there is a leading dot. -/
def lead (p : Path) : List Component :=
  if p.rooted then [.root] else if p.parts.head? == some "." then [.current] else []

/-- The components of a path. -/
def components (p : Path) : List Component := p.lead ++ p.parts.filterMap step?

/-- The names of the entries that a path goes through. -/
def names (p : Path) : List String := p.components.filterMap Component.name?

/-- The name of the entry that a path ends at. -/
def fileName? (p : Path) : Option String :=
  match p.components.getLast? with
  | some (.normal name) => some name
  | _ => none

/-- Leaves out the trailing parts that mean nothing. -/
def dropTrailing (parts : List String) : List String :=
  (parts.reverse.dropWhile isTrivial).reverse

/-- Leaves out the trailing parts that are no components. -/
def trim (p : Path) : Path :=
  match p.rooted, p.parts with
  | false, "." :: rest => ⟨false, "." :: dropTrailing rest⟩
  | rooted, parts => ⟨rooted, dropTrailing parts⟩

/-- The path without its last component. The root directory and the empty path have no parent. -/
def parent? (p : Path) : Option Path :=
  if p.trim.parts.isEmpty then none else some (trim ⟨p.rooted, p.trim.parts.dropLast⟩)

/-- Leaving out trailing parts adds none. -/
theorem length_dropTrailing_le (parts : List String) :
    (dropTrailing parts).length ≤ parts.length := by
  rw [dropTrailing, List.length_reverse]
  exact Nat.le_trans (List.dropWhile_sublist _).length_le (Nat.le_of_eq List.length_reverse)

/-- Leaving out trailing parts adds none. -/
theorem length_trim_le (p : Path) : p.trim.parts.length ≤ p.parts.length := by
  unfold trim
  split
  · next rest _ hp =>
    have := length_dropTrailing_le rest
    simp_all
  · exact length_dropTrailing_le _

/-- A parent has fewer parts. -/
theorem length_parts_parent_lt {p q : Path} (h : p.parent? = some q) :
    q.parts.length < p.parts.length := by
  unfold parent? at h
  split at h
  · cases h
  · next hne =>
    cases h
    have hpos : 0 < p.trim.parts.length :=
      List.length_pos_iff.2 fun he => hne (by simp [he])
    have h₁ := length_trim_le ⟨p.rooted, p.trim.parts.dropLast⟩
    have h₂ := length_trim_le p
    have h₃ : p.trim.parts.dropLast.length = p.trim.parts.length - 1 := List.length_dropLast
    simp only at h₁
    omega

/-- The path with one more part. A slash at the end of the path is used. -/
def child (p : Path) (part : String) : Path :=
  if p.parts.getLast? == some "" then ⟨p.rooted, p.parts.dropLast ++ [part]⟩
  else ⟨p.rooted, p.parts ++ [part]⟩

/-- The path with several parts added one after the other. -/
def descend (p : Path) (parts : List String) : Path := parts.foldl child p

/-- A further part that does not stand for the directory itself leaves the beginning of a path as it
is. -/
theorem lead_child {p : Path} {part : String} (h : part ≠ ".") : (p.child part).lead = p.lead := by
  obtain ⟨rooted, parts⟩ := p
  cases rooted with
  | true => unfold child lead; split <;> rfl
  | false =>
    cases parts with
    | nil => simp [child, lead, h]
    | cons f fs =>
      cases fs with
      | nil => by_cases hf : f = "" <;> simp [child, lead, hf, h]
      | cons g gs => unfold child lead; split <;> simp

/-- A further part is a further step, if it means one. -/
theorem filterMap_step?_child (p : Path) (part : String) :
    (p.child part).parts.filterMap step? =
      p.parts.filterMap step? ++ [part].filterMap step? := by
  unfold child
  split
  · next hlast =>
    have hl : p.parts.getLast? = some "" := by simpa using hlast
    obtain ⟨front, hfront⟩ := List.getLast?_eq_some_iff.1 hl
    have hempty : [""].filterMap step? = [] := rfl
    simp only [hfront, List.dropLast_concat, List.filterMap_append, hempty, List.append_nil]
  · rw [List.filterMap_append]

/-- A further name is a further component. -/
theorem components_child {p : Path} {name : String} (h₁ : isTrivial name = false)
    (h₂ : name ≠ "..") : (p.child name).components = p.components ++ [.normal name] := by
  have hdot : name ≠ "." := by
    rintro rfl
    simp [isTrivial] at h₁
  have hstep : [name].filterMap step? = [Component.normal name] := by simp [step?, h₁, h₂]
  rw [components, components, lead_child hdot, filterMap_step?_child, hstep, List.append_assoc]

/-! ## File names -/

/-- The part of a file name before its first dot. -/
def stemOf (name : String) : String := String.ofList (name.toList.takeWhile (· != '.'))

/-- The part of a file name after its last dot. There is none if the name has no dot, if its only dot comes
first, or if it is that of the directory above. -/
def extensionOf? (name : String) : Option String :=
  let cs := name.toList
  let after := (cs.reverse.takeWhile (· != '.')).reverse
  let before := (cs.reverse.dropWhile (· != '.')).drop 1
  if name == ".." || before.isEmpty then none else some (String.ofList after)

/-- The part of the file name after its last dot. -/
def extension? (p : Path) : Option String := p.fileName?.bind extensionOf?

/-! ## Working directories -/

/-- The path that means the same as `p` does in the working directory `cwd`. Steps to the directory above
stay. -/
def absolute (cwd p : Path) : Path :=
  let base : Path := if p.rooted then ⟨true, []⟩ else cwd
  base.descend ((p.components.filter fun c => c != .root && c != .current).map Component.text)

end Path

end TestScaffold
