import TestScaffold.Files.Fault
import TestScaffold.Files.Path

set_option autoImplicit false

/-!
# File systems

A file system without links: a finite table of directories and files by location. A path is followed part
by part from a working directory, and every part asks for a directory to take it in.

## Main definitions

* `TestScaffold.Location`, `TestScaffold.Entry`, `TestScaffold.FileSystem` — the table.
* `TestScaffold.FileSystem.entryAt?`, `TestScaffold.FileSystem.put` — one entry.
* `TestScaffold.FileSystem.locate` — the location that a path leads to.
* `TestScaffold.FileSystem.read`, `TestScaffold.FileSystem.write` — the content of a file.
* `TestScaffold.FileSystem.createDirectories` — a directory with all directories above it.
* `TestScaffold.FileSystem.changes`, `TestScaffold.FileSystem.newDirectories` — what is different in another
  file system.

## Main results

* `TestScaffold.FileSystem.entryAt?_put_self`, `TestScaffold.FileSystem.entryAt?_put_of_ne` — putting an
  entry changes one location.
-/

namespace TestScaffold

/-- The place of an entry: the names that lead to it from the root directory. -/
abbrev Location := List String

/-- What stands at a location. -/
inductive Entry where
  /-- A directory. -/
  | directory
  /-- A file with its content. -/
  | file (content : ByteArray)

/-- Whether an entry is a file with the given content. -/
def Entry.holds (content : ByteArray) : Entry → Bool
  | directory => false
  | file other => other.data == content.data

/-- A finite table of directories and files. The root directory is always there. -/
structure FileSystem where
  /-- The entries below the root directory, each location once. -/
  entries : List (Location × Entry)

namespace FileSystem

/-! ## Entries -/

/-- A table with the entry at one location set. -/
def set (loc : Location) (e : Entry) : List (Location × Entry) → List (Location × Entry)
  | [] => [(loc, e)]
  | (l, d) :: rest => if l = loc then (l, e) :: rest else (l, d) :: set loc e rest

/-- The file system without any entry but the root directory. -/
def empty : FileSystem := ⟨[]⟩

/-- What stands at a location. -/
def entryAt? (fs : FileSystem) (loc : Location) : Option Entry :=
  if loc = [] then some .directory else fs.entries.lookup loc

/-- The file system with the entry at one location set. -/
def put (fs : FileSystem) (loc : Location) (e : Entry) : FileSystem := ⟨set loc e fs.entries⟩

/-- A table holds the entry that was set. -/
theorem lookup_set_self (loc : Location) (e : Entry) (table : List (Location × Entry)) :
    (set loc e table).lookup loc = some e := by
  induction table with
  | nil => simp [set]
  | cons head rest ih =>
    obtain ⟨l, d⟩ := head
    by_cases h : l = loc
    · simp [set, h]
    · have h' : (loc == l) = false := by simpa using fun he => h he.symm
      rw [set, if_neg h, List.lookup_cons, h']
      exact ih

/-- Setting an entry leaves the other locations of a table as they are. -/
theorem lookup_set_of_ne {loc loc' : Location} (h : loc' ≠ loc) (e : Entry)
    (table : List (Location × Entry)) : (set loc e table).lookup loc' = table.lookup loc' := by
  induction table with
  | nil => simp [set, h]
  | cons head rest ih =>
    obtain ⟨l, d⟩ := head
    by_cases hl : l = loc
    · subst hl
      have h' : (loc' == l) = false := by simpa using h
      rw [set, if_pos rfl, List.lookup_cons, List.lookup_cons, h']
    · rw [set, if_neg hl, List.lookup_cons, List.lookup_cons, ih]

/-- The entry that was put below the root directory stands there. -/
theorem entryAt?_put_self (fs : FileSystem) {loc : Location} (h : loc ≠ []) (e : Entry) :
    (fs.put loc e).entryAt? loc = some e := by
  rw [entryAt?, if_neg h, put, lookup_set_self]

/-- Putting an entry leaves the other locations as they are. -/
theorem entryAt?_put_of_ne (fs : FileSystem) {loc loc' : Location} (h : loc' ≠ loc) (e : Entry) :
    (fs.put loc e).entryAt? loc' = fs.entryAt? loc' := by
  rw [entryAt?, entryAt?, put, lookup_set_of_ne h]

/-- The file system with a directory at a location, unless something stands there. -/
def addDirectory (fs : FileSystem) (loc : Location) : FileSystem :=
  match fs.entryAt? loc with
  | some _ => fs
  | none => fs.put loc .directory

/-- The file system with the directory at a location and all directories above it. -/
def addDirectories (fs : FileSystem) (loc : Location) : FileSystem :=
  ((List.range (loc.length + 1)).map loc.take).foldl addDirectory fs

/-- The file system with a file at a location, in directories that are there or are added. -/
def addFile (fs : FileSystem) (loc : Location) (content : ByteArray) : FileSystem :=
  (fs.addDirectories loc.dropLast).put loc (.file content)

/-- The content of the file at a location. -/
def content? (fs : FileSystem) (loc : Location) : Option ByteArray :=
  match fs.entryAt? loc with
  | some (.file content) => some content
  | _ => none

/-- The files of `after` that are new or have another content than in `before`. -/
def changes (before after : FileSystem) : List (Location × ByteArray) :=
  after.entries.filterMap fun (loc, e) =>
    match e with
    | .file content =>
      if (before.entryAt? loc).any (Entry.holds content) then none else some (loc, content)
    | .directory => none

/-- The directories of `after` that are new. -/
def newDirectories (before after : FileSystem) : List Location :=
  after.entries.filterMap fun (loc, e) =>
    match e with
    | .directory => if (before.entryAt? loc).isSome then none else some loc
    | .file _ => none

/-- The names in the directory at a location, in the order of their characters. -/
def names (fs : FileSystem) (loc : Location) : List String :=
  ((fs.entries.filter fun (l, _) => l.dropLast = loc).filterMap fun (l, _) => l.getLast?).mergeSort

/-! ## Following paths -/

/-- The greatest number of bytes of a name. -/
def nameLimit : Nat := 255

/-- The location that one part of a path leads to. -/
def move (loc : Location) (part : String) : Location :=
  if Path.isTrivial part then loc else if part == ".." then loc.dropLast else loc ++ [part]

/-- Follows the parts of a path from a location on. What the last part leads to need not exist. -/
def follow (fs : FileSystem) (loc : Location) : List String → Except FileFault Location
  | [] => .ok loc
  | part :: rest =>
    match fs.entryAt? loc with
    | none => .error .notFound
    | some (.file _) => .error .notDirectory
    | some .directory =>
      if nameLimit < part.utf8ByteSize then .error .nameTooLong
      else follow fs (move loc part) rest

/-- The location that a path leads to in a working directory. The empty path leads nowhere. -/
def locate (fs : FileSystem) (cwd : Location) (p : Path) : Except FileFault Location :=
  if p.rooted then fs.follow [] p.parts
  else if p.parts.isEmpty then .error .notFound
  else fs.follow cwd p.parts

/-- What a path leads to. -/
def find (fs : FileSystem) (cwd : Location) (p : Path) : Except FileFault (Location × Entry) := do
  let loc ← fs.locate cwd p
  match fs.entryAt? loc with
  | some e => return (loc, e)
  | none => .error .notFound

/-- Whether a path leads to something. -/
def contains (fs : FileSystem) (cwd : Location) (p : Path) : Bool :=
  match fs.find cwd p with
  | .ok _ => true
  | .error _ => false

/-- Whether a path leads to a file. -/
def isFile (fs : FileSystem) (cwd : Location) (p : Path) : Bool :=
  match fs.find cwd p with
  | .ok (_, .file _) => true
  | _ => false

/-- Whether a path leads to a directory. -/
def isDirectory (fs : FileSystem) (cwd : Location) (p : Path) : Bool :=
  match fs.find cwd p with
  | .ok (_, .directory) => true
  | _ => false

/-- The names in the directory that a path leads to; none if it leads to no directory. -/
def list (fs : FileSystem) (cwd : Location) (p : Path) : List String :=
  match fs.find cwd p with
  | .ok (loc, .directory) => fs.names loc
  | _ => []

/-! ## Reading and writing -/

/-- The content of the file that a path leads to. -/
def read (fs : FileSystem) (cwd : Location) (p : Path) : Except FileFault ByteArray := do
  match ← fs.find cwd p with
  | (_, .file content) => return content
  | (_, .directory) => .error .isDirectory

/-- The file system with the content of a file set; the file is added if it does not exist. -/
def write (fs : FileSystem) (cwd : Location) (p : Path) (content : ByteArray) :
    Except FileFault FileSystem := do
  let loc ← fs.locate cwd p
  match fs.entryAt? loc with
  | some .directory => .error .isDirectory
  | _ => return fs.put loc (.file content)

/-- The file system with a new directory. -/
def createDirectory (fs : FileSystem) (cwd : Location) (p : Path) : Except FileFault FileSystem := do
  let loc ← fs.locate cwd p
  match fs.entryAt? loc with
  | some _ => .error .alreadyExists
  | none => return fs.put loc .directory

/-- The file system with a directory that may be there already. -/
def ensureDirectory (fs : FileSystem) (cwd : Location) (p : Path) : Except FileFault FileSystem :=
  match fs.createDirectory cwd p with
  | .ok fs' => .ok fs'
  | .error e => if fs.isDirectory cwd p then .ok fs else .error e

/-- The file system with a directory and all directories that are missing on the way to it. If there is a
fault, the directories made before it stay. -/
def createDirectories (fs : FileSystem) (cwd : Location) (p : Path) :
    FileSystem × Option FileFault :=
  if p.components.isEmpty then (fs, none)
  else
    match fs.ensureDirectory cwd p with
    | .ok fs' => (fs', none)
    | .error .notFound =>
      match h : p.parent? with
      | none => (fs, some (.other "failed to create whole tree"))
      | some q =>
        have : q.parts.length < p.parts.length := Path.length_parts_parent_lt h
        match fs.createDirectories cwd q with
        | (fs', some fault) => (fs', some fault)
        | (fs', none) =>
          match fs'.ensureDirectory cwd p with
          | .ok fs'' => (fs'', none)
          | .error fault => (fs', some fault)
    | .error fault => (fs, some fault)
termination_by p.parts.length

end FileSystem

end TestScaffold
