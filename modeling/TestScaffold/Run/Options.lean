import TestScaffold.Scaffold.FrameworkChoice
import TestScaffold.Files.Path

set_option autoImplicit false

/-!
# Options

The words of a command line: file patterns, and options that choose the framework and the output directory.

## Main definitions

* `TestScaffold.Options`, `TestScaffold.Invocation` — what is asked for.
* `TestScaffold.OptionReader`, `TestScaffold.OptionReader.read` — reading the words one by one.
* `TestScaffold.Invocation.ofArguments` — the reading of a command line.

## Implementation notes

The value of an option is the next word or follows an equals sign. A value is checked when the next option
comes or the words end, so that a bad value counts before a later call for help. After the word `--`
everything is a pattern.
-/

namespace TestScaffold

/-- What a run is asked to do. -/
structure Options where
  /-- The file patterns in order. -/
  patterns : List String
  /-- The framework to write scaffolds for. -/
  framework : FrameworkChoice
  /-- The directory that scaffolds are written below. -/
  outDir : Path
deriving DecidableEq, Repr

/-- What a command line asks for. -/
inductive Invocation where
  /-- A run. -/
  | run (options : Options)
  /-- The description of the program. -/
  | help
  /-- The version of the program. -/
  | version
  /-- Nothing that can be done. -/
  | misuse
deriving DecidableEq, Repr

/-- An option that takes a value. -/
inductive ValueOption where
  /-- The framework to write scaffolds for. -/
  | testFramework
  /-- The directory that scaffolds are written below. -/
  | outDir
deriving DecidableEq, Repr

/-- The word for an option. -/
def ValueOption.text : ValueOption → String
  | testFramework => "test-framework"
  | outDir => "out-dir"

/-- The option that a word is for. -/
def ValueOption.ofText? (word : String) : Option ValueOption :=
  [testFramework, outDir].find? (·.text == word)

/-- What has been read of a command line. -/
structure OptionReader where
  /-- The patterns so far. -/
  patterns : List String
  /-- The framework, if it has been chosen. -/
  framework : Option FrameworkChoice
  /-- The output directory, if it has been chosen. -/
  outDir : Option String
  /-- The last option, with its value if that has come. -/
  pending : Option (ValueOption × Option String)
deriving DecidableEq, Repr

namespace OptionReader

/-- The directory that scaffolds are written below if none is chosen. -/
def standardOutDir : String := "__tests__"

/-- Gives an option its value. An option has a value only once; the framework must be known and the
directory must have a name. -/
def assign (r : OptionReader) (option : ValueOption) (value : String) : Option OptionReader :=
  match option with
  | .testFramework =>
    if r.framework.isSome then none
    else (FrameworkChoice.ofText? false value).map fun k => { r with framework := some k }
  | .outDir =>
    if r.outDir.isSome || value.isEmpty then none else some { r with outDir := some value }

/-- Gives the last option its value, if there is an option without one. -/
def settle (r : OptionReader) : Option OptionReader :=
  match r.pending with
  | none => some r
  | some (_, none) => none
  | some (option, some value) => assign { r with pending := none } option value

/-- What the words read so far ask for, if there are no more. -/
def finish (r : OptionReader) : Invocation :=
  match r.settle with
  | none => .misuse
  | some r =>
    if r.patterns.isEmpty then .misuse
    else
      .run
        { patterns := r.patterns
          framework := r.framework.getD .standard
          outDir := Path.ofString (r.outDir.getD standardOutDir) }

/-- Asks for something else than a run, unless what has been read is wrong. -/
def instead (r : OptionReader) (other : Invocation) : Invocation :=
  if r.settle.isSome then other else .misuse

/-- A word that is no option: the value of the last option if that has none, else a pattern. -/
def plain (r : OptionReader) (word : String) : OptionReader :=
  match r.pending with
  | some (option, none) => { r with pending := some (option, some word) }
  | _ => { r with patterns := r.patterns ++ [word] }

/-- An option given by its word and the value that is attached to it, if there is one. -/
def option? (r : OptionReader) (word : String) (value : Option String) : Option OptionReader := do
  let option ← ValueOption.ofText? word
  let r ← r.settle
  match value with
  | some v => r.assign option v
  | none => return { r with pending := some (option, none) }

/-- Reads the words of a command line. -/
def read (r : OptionReader) : List String → Invocation
  | [] => r.finish
  | word :: rest =>
    match word.toList with
    | ['-', '-'] => finish { r with patterns := r.patterns ++ rest }
    | '-' :: '-' :: long =>
      let name := String.ofList (long.takeWhile (· != '='))
      let value :=
        if long.contains '=' then some (String.ofList ((long.dropWhile (· != '=')).drop 1))
        else none
      if name == "help" && value.isNone then r.instead .help
      else if name == "version" && value.isNone then r.instead .version
      else
        match r.option? name value with
        | some r => r.read rest
        | none => .misuse
    | '-' :: 'h' :: _ => r.instead .help
    | '-' :: 'V' :: _ => r.instead .version
    | '-' :: _ :: _ => .misuse
    | _ => (r.plain word).read rest

end OptionReader

/-- The reading of a command line. -/
def Invocation.ofArguments (arguments : List String) : Invocation :=
  OptionReader.read ⟨[], none, none, none⟩ arguments

end TestScaffold
