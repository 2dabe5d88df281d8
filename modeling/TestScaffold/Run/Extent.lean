import TestScaffold.Run.Batch

set_option autoImplicit false

/-!
# Extents

The part of a file system that a run can look at. It is found from the options alone, so that only this part
has to be known.

## Main definitions

* `TestScaffold.stations` — the locations that a path leads through.
* `TestScaffold.FilePattern.trunk` — the path to the directory that a pattern is searched from.
* `TestScaffold.FilePattern.extent` — the location that everything a pattern matches stands below.
* `TestScaffold.Options.targets` — the paths that scaffolds are written to.

## Implementation notes

A part that begins with a dot may lead to the directory above. So the extent of a pattern begins as many
directories further up as there are such parts after its trunk.
-/

namespace TestScaffold

/-- The location that a path leads to in a working directory, if everything on the way exists. -/
def destination (cwd : Location) (p : Path) : Location :=
  p.parts.foldl FileSystem.move (if p.rooted then [] else cwd)

/-- The locations that a path leads through in a working directory, the last one being its
destination. -/
def stations (cwd : Location) (p : Path) : List Location :=
  (List.range (p.parts.length + 1)).map fun n => destination cwd ⟨p.rooted, p.parts.take n⟩

/-- A path leads through its destination. -/
theorem destination_mem_stations (cwd : Location) (p : Path) :
    destination cwd p ∈ stations cwd p :=
  List.mem_map.2 ⟨p.parts.length, by simp, by simp⟩

namespace PatternPart

/-- The name that a part stands for, if it has no wildcards. -/
def name? : PatternPart → Option String
  | name s => some s
  | wild _ | directories => none

/-- Whether a part may lead to the directory above. -/
def mayClimb : PatternPart → Bool
  | name s => s == ".."
  | wild tokens => tokens.head? == some (.literal '.')
  | directories => false

end PatternPart

namespace FilePattern

/-- The path to the directory that a pattern is searched from: its parts before the first one with
wildcards. -/
def trunk (pattern : FilePattern) : Path :=
  ⟨pattern.rooted, (pattern.parts.takeWhile fun part => part.name?.isSome).filterMap
    PatternPart.name?⟩

/-- The number of parts with which a pattern may leave the directory that it is searched from. -/
def climb (pattern : FilePattern) : Nat :=
  (pattern.parts.dropWhile fun part => part.name?.isSome).countP PatternPart.mayClimb

/-- The location that everything a pattern matches stands below. -/
def extent (cwd : Location) (pattern : FilePattern) : Location :=
  let loc := destination cwd pattern.trunk
  loc.take (loc.length - pattern.climb)

end FilePattern

namespace Options

/-- The patterns that are well formed. -/
def filePatterns (options : Options) : List FilePattern :=
  options.patterns.filterMap fun pattern => (FilePattern.parse pattern).toOption

/-- The paths of the scaffolds of source files. -/
def targets (options : Options) (sources : List Path) : List Path :=
  sources.map (targetPath options.outDir)

end Options

end TestScaffold
