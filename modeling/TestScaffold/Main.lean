import TestScaffold.Run.Extent
import TestScaffold.Syntax.Listing

set_option autoImplicit false

/-!
# The command line

Reads the words of the command line, copies the part of the file system that the run can look at, does the
run on the copy, and writes the scaffolds back.

## Main definitions

* `TestScaffold.usage`, `TestScaffold.versionText` — the descriptions of the program.
* `TestScaffold.runOnDisk` — a run on the files of the disk.
* `main` — the program.

## Implementation notes

The parser is a program of its own. It leaves the syntax tree of a file, one row on each line, in a file
whose name has a further extension `tree`. Links are followed where a path names them. Where a directory is
searched, links and listings are left out.
-/

namespace TestScaffold

/-- The description of the program. -/
def usage : String :=
  "Generate Jest test scaffolds from a module's exports\n\n" ++
  "Usage: testplate [OPTIONS] <PATTERNS>...\n\n" ++
  "Arguments:\n" ++
  "  <PATTERNS>...  Source files or glob patterns\n\n" ++
  "Options:\n" ++
  "      --test-framework <TEST_FRAMEWORK>  Target test framework [default: jest]\n" ++
  "      --out-dir <OUT_DIR>                Directory for the generated tests [default: __tests__]\n" ++
  "  -h, --help                             Print help\n" ++
  "  -V, --version                          Print version"

/-- The name and the version of the program. -/
def versionText : String := "testplate 0.1.0"

namespace Disk

/-- The text of the path to a location. -/
def pathText (loc : Location) : String := Path.text ⟨true, loc⟩

/-- The location of a file on the disk as an entry of the root directory. -/
def entryOf (loc : Location) : IO.FS.DirEntry := ⟨"/", "/".intercalate loc⟩

/-- What the name of a listing has after the name of its source file. -/
def listingSuffix : String := ".tree"

/-- The result of an action; nothing if it fails. -/
def attempt {α : Type} (action : IO α) : IO (Option α) := do
  try return some (← action) catch _ => return none

/-- The file system with what the disk has at a location, without contents. -/
def copyEntry (fs : FileSystem) (loc : Location) (found : Option IO.FS.Metadata) : FileSystem :=
  match found with
  | none => fs
  | some metadata =>
    match metadata.type with
    | .dir => fs.addDirectories loc
    | .file => fs.addFile loc ByteArray.empty
    | .symlink | .other => fs

/-- Copies what the disk has at a location. -/
def copyAt (fs : FileSystem) (loc : Location) : IO FileSystem := do
  return copyEntry fs loc (← attempt (entryOf loc).path.metadata)

/-- Copies everything below a location. Directories of installed packages and listings are left out. -/
partial def copyBelow (fs : FileSystem) (loc : Location) : IO FileSystem := do
  if isInstalled ⟨true, loc⟩ then return fs
  match fs.entryAt? loc with
  | some .directory =>
    let entries := (← attempt (entryOf loc).path.readDir).getD #[]
    entries.foldlM
      (fun fs entry => do
        if entry.fileName.endsWith listingSuffix then return fs
        let below := loc ++ [entry.fileName]
        copyBelow (copyEntry fs below (← attempt entry.path.symlinkMetadata)) below)
      fs
  | _ => return fs

/-- Copies what a pattern is searched in. -/
def copyPattern (cwd : Location) (fs : FileSystem) (pattern : FilePattern) : IO FileSystem := do
  let fs ← (stations cwd pattern.trunk).foldlM copyAt fs
  copyBelow fs (pattern.extent cwd)

/-- Copies the content of a source file. -/
def copyContent (cwd : Location) (fs : FileSystem) (source : Path) : IO FileSystem := do
  let loc := destination cwd source
  match ← attempt (IO.FS.readBinFile (pathText loc)) with
  | some content => return fs.put loc (.file content)
  | none => return fs

/-- The syntax tree that the parser has left for a source file. -/
def knownTree? (cwd : Location) (fs : FileSystem) (source : Path) : IO (Option KnownTree) := do
  let loc := destination cwd source
  let listing ← attempt (IO.FS.readFile (pathText loc ++ listingSuffix))
  return do
    let dialect ← (Dialect.ofFilename source.text).toOption
    let content ← fs.content? loc
    let tree ← Tree.ofLines? (← listing)
    return ⟨dialect, content, tree⟩

/-- Writes back the scaffold that a run has written to `target`. -/
def writeBack (cwd : Location) (fs : FileSystem) (target : Path) : IO Unit := do
  let loc := destination cwd target
  match fs.content? loc with
  | some content => IO.FS.writeBinFile (pathText loc) content
  | none => return

end Disk

/-- Does a run on the disk, and gives the exit code. -/
def runOnDisk (options : Options) : IO UInt32 := do
  let cwd := (Path.ofString (← IO.currentDir).toString).names
  let fs ← (stations [] ⟨true, cwd⟩).foldlM Disk.copyAt FileSystem.empty
  let fs ← options.filePatterns.foldlM (Disk.copyPattern cwd) fs
  let sources := (sourceFiles ⟨cwd, .ofTrees []⟩ options fs).toOption.getD []
  let fs ← ((options.targets sources).flatMap (stations cwd)).foldlM Disk.copyAt fs
  let fs ← sources.foldlM (Disk.copyContent cwd) fs
  let known ← sources.mapM (Disk.knownTree? cwd fs)
  let report := run ⟨cwd, .ofTrees (known.filterMap id)⟩ options fs
  for loc in fs.newDirectories report.fs do
    IO.FS.createDirAll (Disk.pathText loc)
  for event in report.events do
    IO.eprintln event.text
    match event with
    | .wrote target => Disk.writeBack cwd report.fs target
    | _ => pure ()
  return report.exitCode.toUInt32

end TestScaffold

/-- The program: it does what the words of the command line ask for. -/
def main (arguments : List String) : IO UInt32 := do
  match TestScaffold.Invocation.ofArguments arguments with
  | .run options => TestScaffold.runOnDisk options
  | .help =>
    IO.println TestScaffold.usage
    return 0
  | .version =>
    IO.println TestScaffold.versionText
    return 0
  | .misuse =>
    IO.eprintln TestScaffold.usage
    return TestScaffold.failureCode.toUInt32
