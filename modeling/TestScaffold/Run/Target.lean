import TestScaffold.Files.Path

set_option autoImplicit false

/-!
# Targets

Where the scaffold of a source file is written, and how it refers to the source file.

## Main definitions

* `TestScaffold.targetPath` — the path of the scaffold of a source file.
* `TestScaffold.sourceSpecifier` — the name by which a scaffold imports its source file.

## Implementation notes

The directories of the source file are repeated below the output directory. A root, a dot and steps to the
directory above are left out, so that the scaffold never stands outside the output directory.

The name of a directory need not be text, but a specifier is. So the names in a specifier are read by a given
function, which leaves names alone that are text and replaces in others what is not. Only the way to a source
file can hold such names, since a pattern does not match a file whose own name is not text; so the name of a
scaffold is taken from that of the file as it is.
-/

namespace TestScaffold

/-- The names of the directories that lead to a file. -/
def directoryNames (p : Path) : List String := (p.parent?.map Path.names).getD []

/-- The file name of the scaffold of a file: what comes before the first dot, `spec`, and the extension. A
file without an extension is taken for a script. -/
def scaffoldName (source : Path) : String :=
  Path.stemOf (source.fileName?.getD "") ++ ".spec." ++ source.extension?.getD "js"

/-- The path of the scaffold of a source file. -/
def targetPath (outDir source : Path) : Path :=
  (outDir.descend (directoryNames source)).child (scaffoldName source)

/-- Whether a path leads downwards from the working directory. -/
def isPlain (p : Path) : Bool :=
  !p.rooted && p.components.all fun c => c == .current || c.name?.isSome

/-- The way up through a number of directories; a dot for none. -/
def upwards (depth : Nat) : String :=
  if depth = 0 then "./" else String.join (List.replicate depth "../")

/-- The name by which the scaffold at `target` imports the file `source`, where `legible` tells how a name reads
as text: the way there, if both are plain, else the absolute path of the file with slashes for backslashes. -/
def sourceSpecifier (legible : String → String) (cwd target source : Path) : String :=
  if isPlain target && isPlain source then
    upwards (directoryNames target).length ++ "/".intercalate (source.names.map legible)
  else
    let p := Path.absolute cwd source
    String.ofList ((Path.text ⟨p.rooted, p.parts.map legible⟩).toList.map fun c => if c == '\\' then '/' else c)

end TestScaffold
