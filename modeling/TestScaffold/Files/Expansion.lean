import TestScaffold.Files.FileSystem
import TestScaffold.Files.Pattern

set_option autoImplicit false

/-!
# Expansion of patterns

The paths that match a pattern in a file system, in the order of a search that takes the entries of a
directory by name and each directory before its entries.

## Main definitions

* `TestScaffold.Search` — a file system, a working directory and the kind of entry wanted.
* `TestScaffold.Search.below` — everything below a directory.
* `TestScaffold.Search.reach` — the paths that match the parts of a pattern from a directory on.
* `TestScaffold.expandPattern` — the paths that match a pattern.

## Implementation notes

A name without wildcards is looked up, so that it may be a dot or two dots. A name with wildcards is
compared with the entries of the directory; a dot and two dots are no entries, and match only if the name
begins with a literal dot. Then they come before the entries.
-/

namespace TestScaffold

/-- Where a pattern is searched, and for what. -/
structure Search where
  /-- The files and directories. -/
  fs : FileSystem
  /-- The directory that relative paths begin at. -/
  cwd : Location
  /-- Whether only directories are wanted. -/
  directoryOnly : Bool

namespace Search

/-- Whether a path leads to a directory. -/
def isDirectory (s : Search) (p : Path) : Bool := s.fs.isDirectory s.cwd p

/-- The path to an entry of the directory that `p` leads to. Nothing stands before the entries of the
working directory. -/
def enter (p : Path) (name : String) : Path :=
  if p.components == [.current] then Path.ofString name else p.child name

/-- The entries of a directory, by name. -/
def entries (s : Search) (p : Path) : List (String × Path) :=
  (s.fs.list s.cwd p).map fun name => (name, enter p name)

/-- Everything below a directory down to `depth` levels, each with its name, a directory before its
entries. -/
def belowWithin (s : Search) : Nat → Path → List (String × Path)
  | 0, _ => []
  | depth + 1, p => (s.entries p).flatMap fun (name, q) => (name, q) :: s.belowWithin depth q

/-- Everything below a directory, each with its name, a directory before its entries. There are no more
levels than entries. -/
def below (s : Search) (p : Path) : List (String × Path) := s.belowWithin s.fs.entries.length p

/-- The directory itself and the one above it, as far as they match a name that begins with a literal
dot. -/
def dots (p : Path) (tokens : List Wildcard) : List Path :=
  if tokens.head? == some (.literal '.') then
    (["..", "."].filter fun dot => Wildcard.matchesAll tokens dot.toList).map p.child
  else []

/-- Whether a name can be looked up in a directory. -/
def hasName (s : Search) (p : Path) (name : String) : Bool :=
  if name == "." || name == ".." then s.isDirectory p else s.fs.contains s.cwd (enter p name)

/-- The paths that match the given parts from `p` on. -/
def reach (s : Search) : List PatternPart → Path → List Path
  | [], p => if s.directoryOnly && !s.isDirectory p then [] else [p]
  | .name n :: rest, p => if s.hasName p n then s.reach rest (enter p n) else []
  | .wild tokens :: rest, p =>
    if s.isDirectory p then
      (dots p tokens).flatMap (s.reach rest) ++
        ((s.entries p).filter fun (name, _) => Wildcard.matchesAll tokens name.toList).flatMap
          fun (_, q) => s.reach rest q
    else []
  | [.directories], p => ((s.below p).map (·.2)).filter s.isDirectory
  | .directories :: part :: rest, p =>
    ((s.below p).filter fun (name, _) => part.admits name).flatMap fun (_, q) => s.reach rest q

end Search

/-- The paths that match a pattern in a working directory. -/
def expandPattern (fs : FileSystem) (cwd : Location) (text : String) :
    Except PatternError (List Path) := do
  let pattern ← FilePattern.parse text
  let start : Path := if pattern.rooted then ⟨true, []⟩ else ⟨false, ["."]⟩
  return Search.reach ⟨fs, cwd, pattern.directoryOnly⟩ pattern.parts start

end TestScaffold
