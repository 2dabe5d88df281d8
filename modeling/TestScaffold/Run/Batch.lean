import TestScaffold.Files.Expansion
import TestScaffold.Generation
import TestScaffold.Run.Options
import TestScaffold.Run.Target

set_option autoImplicit false

/-!
# Runs

A run expands the patterns to a list of source files and writes a scaffold for each. A file that fails is
reported and does not keep the others from being written.

## Main definitions

* `TestScaffold.Tools`, `TestScaffold.Workspace` — what a run is done with apart from the files.
* `TestScaffold.selectFiles`, `TestScaffold.gatherFiles` — the source files of a run.
* `TestScaffold.writeScaffold`, `TestScaffold.scaffoldFile`, `TestScaffold.scaffoldFiles` — what is done for
  the files.
* `TestScaffold.Event`, `TestScaffold.Report`, `TestScaffold.run` — a run and its outcome.

## Implementation notes

A path is the same as another if it has the same components. The files are chosen before anything is
written. A scaffold that cannot be written may leave behind directories that were made for it.

The results about runs hold of every parser, every expansion of patterns and every reading of names, as a run
is given them. Where the names of all entries are text, they are read as they are.
-/

namespace TestScaffold

/-- What a run calls and does not do itself. -/
structure Tools where
  /-- The parser. -/
  parser : Parser
  /-- The paths that match a pattern in a working directory. -/
  expand : FileSystem → Location → String → Except PatternError (List Path) := expandPattern
  /-- How the name of an entry reads as text. -/
  legible : String → String := fun name => name

/-- The tools with a parser that knows some trees. -/
def Tools.ofTrees (known : List KnownTree) : Tools := { parser := .ofTrees known }

/-- What a run works with apart from the files. -/
structure Workspace where
  /-- The location of the working directory. -/
  cwd : Location
  /-- What the run calls. -/
  tools : Tools

/-- The path of the working directory. -/
def Workspace.cwdPath (w : Workspace) : Path := ⟨true, w.cwd⟩

/-! ## Choosing files -/

/-- Whether a path leads through a directory of installed packages. -/
def isInstalled (p : Path) : Bool := p.components.contains (.normal "node_modules")

/-- The paths that lead to files and not through installed packages, each once. -/
def selectFiles (isFile : Path → Bool) (paths : List Path) : List Path :=
  (paths.filter fun p => !isInstalled p && isFile p).eraseDupsBy
    fun p q => p.components == q.components

/-- The source files that patterns lead to, given the expansion of one pattern. A pattern that is not well
formed is an error, even if others match, and so is it that no file is found. -/
def gatherFiles (expand : String → Except PatternError (List Path)) (isFile : Path → Bool)
    (patterns : List String) : Except ScaffoldError (List Path) := do
  let paths ← patterns.mapM fun pattern =>
    (expand pattern).mapError fun e => ScaffoldError.invalidPattern pattern e.text
  let files := selectFiles isFile paths.flatten
  if files.isEmpty then .error (.nothingMatched (", ".intercalate patterns)) else return files

/-! ## Writing scaffolds -/

/-- A content that is text, as source text. -/
def SourceText.ofContent (content : ByteArray) : Except FileFault SourceText :=
  if (String.fromUTF8? content).isSome then .ok ⟨content⟩ else .error .invalidText

/-- The source text of a file. -/
def readSource (w : Workspace) (fs : FileSystem) (source : Path) :
    Except ScaffoldError SourceText :=
  (fs.read w.cwd source >>= SourceText.ofContent).mapError (.file source.text)

/-- The file system with the directories that lead to a file, and what went wrong. -/
def createParent (w : Workspace) (fs : FileSystem) (target : Path) :
    FileSystem × Option ScaffoldError :=
  match target.parent? with
  | none => (fs, none)
  | some parent =>
    let (fs', fault) := fs.createDirectories w.cwd parent
    (fs', fault.map (.file parent.text))

/-- The file system with a file written and with the directories that lead to it, and what went wrong. -/
def writeText (w : Workspace) (fs : FileSystem) (target : Path) (text : String) :
    FileSystem × Option ScaffoldError :=
  match createParent w fs target with
  | (fs', some e) => (fs', some e)
  | (fs', none) =>
    match fs'.write w.cwd target text.toUTF8 with
    | .ok fs'' => (fs'', none)
    | .error fault => (fs', some (.file target.text fault))

/-- The text of the scaffold of a source file. -/
def scaffoldText (w : Workspace) (options : Options) (fs : FileSystem) (source : Path) :
    Except ScaffoldError String := do
  let src ← readSource w fs source
  let target := targetPath options.outDir source
  let specifier := sourceSpecifier w.tools.legible w.cwdPath target source
  scaffoldModule w.tools.parser options.framework.framework src specifier

/-- The file system with the scaffold of a source file, and what went wrong. -/
def writeScaffold (w : Workspace) (options : Options) (fs : FileSystem) (source : Path) :
    FileSystem × Option ScaffoldError :=
  match scaffoldText w options fs source with
  | .ok text => writeText w fs (targetPath options.outDir source) text
  | .error e => (fs, some e)

/-- Something that a run reports. -/
inductive Event where
  /-- Work on a source file begins. -/
  | processing (source : Path)
  /-- A scaffold is written. -/
  | wrote (target : Path)
  /-- No scaffold is written for a source file. -/
  | failed (source : Path) (error : ScaffoldError)
  /-- Nothing is done at all. -/
  | refused (error : ScaffoldError)
deriving DecidableEq, Repr

namespace Event

/-- The line that reports an event. -/
def text : Event → String
  | processing source => "INFO processing file=" ++ source.text
  | wrote target => "INFO wrote output=" ++ target.text
  | failed source error => "ERROR " ++ error.message ++ " file=" ++ source.text
  | refused error => "testplate: " ++ error.message

/-- Whether the event is a failure. -/
def isFailure : Event → Bool
  | failed _ _ | refused _ => true
  | processing _ | wrote _ => false

end Event

/-- Writes the scaffold of one file, and tells what happened. -/
def scaffoldFile (w : Workspace) (options : Options) (fs : FileSystem) (source : Path) :
    FileSystem × List Event :=
  match writeScaffold w options fs source with
  | (fs', none) => (fs', [.processing source, .wrote (targetPath options.outDir source)])
  | (fs', some e) => (fs', [.processing source, .failed source e])

/-- Writes the scaffolds of files one after the other, and tells what happened. -/
def scaffoldFiles (w : Workspace) (options : Options) : FileSystem → List Path →
    FileSystem × List Event
  | fs, [] => (fs, [])
  | fs, source :: rest =>
    let (fs₁, events₁) := scaffoldFile w options fs source
    let (fs₂, events₂) := scaffoldFiles w options fs₁ rest
    (fs₂, events₁ ++ events₂)

/-! ## Whole runs -/

/-- The outcome of a run. -/
structure Report where
  /-- The files afterwards. -/
  fs : FileSystem
  /-- What happened, in order. -/
  events : List Event

/-- The exit code of a run that could not do all it was asked to. -/
def failureCode : Nat := 2

/-- The exit code of a run: a failure anywhere makes the run a failure. -/
def Report.exitCode (r : Report) : Nat := if r.events.any Event.isFailure then failureCode else 0

/-- The source files of a run. -/
def sourceFiles (w : Workspace) (options : Options) (fs : FileSystem) : Except ScaffoldError (List Path) :=
  gatherFiles (w.tools.expand fs w.cwd) (fs.isFile w.cwd) options.patterns

/-- A run: the source files are chosen, and their scaffolds are written. -/
def run (w : Workspace) (options : Options) (fs : FileSystem) : Report :=
  match sourceFiles w options fs with
  | .error e => ⟨fs, [.refused e]⟩
  | .ok sources =>
    let (fs', events) := scaffoldFiles w options fs sources
    ⟨fs', events⟩

end TestScaffold
