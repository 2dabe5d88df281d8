import TestScaffold.Files.Path
import TestScaffold.Module.Model
import TestScaffold.Text.Literal
import TestScaffold.Scaffold.Framework

set_option autoImplicit false

/-!
# Import lines

The lines of a scaffold that bring names in: the repeated `import` statements of the module under test, and
the lines that import the module itself.

## Main definitions

* `TestScaffold.importLine` — an `import` statement written from its bindings.
* `TestScaffold.withoutExtension?`, `TestScaffold.baseName` — how a file is referred to.
* `TestScaffold.subjectSection?` — the lines that import the module under test.

## Implementation notes

A file is imported without its extension. The extension is that of the last component, but it is the end
of the whole name that is cut off, by as many bytes as the extension and its dot have. The two differ for
a name that ends in slashes, where the cut may fall inside a character; then there is no answer.
-/

namespace TestScaffold

/-! ## Repeated imports -/

/-- A name with the name it gets, or just the name if both are the same. -/
def renamed (name newName : String) : String :=
  if name == newName then newName else name ++ " as " ++ newName

/-- How a binding outside of braces is written. -/
def bareClause? : Binding → Option String
  | .default name => some name
  | .whole name => some ("* as " ++ name)
  | .member _ _ => none

/-- How a binding inside of braces is written. -/
def memberClause? : Binding → Option String
  | .member imported localName => some (renamed imported localName)
  | _ => none

/-- The bindings of an `import` statement: first those outside of braces, then the others between
braces. -/
def importClause (bindings : List Binding) : String :=
  let members := bindings.filterMap memberClause?
  commaSeparated
    (bindings.filterMap bareClause? ++ if members.isEmpty then [] else [braced members])

/-- An `import` statement on one line. -/
def importLine (d : Import) : String :=
  if d.kind == .sideEffect then "import " ++ quoted d.modulePath ++ ";"
  else
    "import " ++ (if d.typeOnly then "type " else "") ++ importClause d.bindings ++ " from " ++
      quoted d.modulePath ++ ";"

/-! ## Names of files -/

/-- A text without its first characters, which have `n` bytes together; none if the `n` bytes end inside
a character or there are fewer. -/
def dropBytes? : Nat → List Char → Option (List Char)
  | 0, cs => some cs
  | _ + 1, [] => none
  | n + 1, c :: cs => if c.utf8Size ≤ n + 1 then dropBytes? (n + 1 - c.utf8Size) cs else none

/-- The name by which a file is imported: without as many bytes at its end as the extension and its dot
have. -/
def withoutExtension? (filename : String) : Option String :=
  match (Path.ofString filename).extension? with
  | none => some filename
  | some ext =>
    (dropBytes? (ext.utf8ByteSize + 1) filename.toList.reverse).map fun cs =>
      String.ofList cs.reverse

/-- The name of the suite of a file: what follows the last slash or backslash. -/
def baseName (filename : String) : String :=
  String.ofList
    (filename.toList.reverse.takeWhile fun c => c != '/' && c != '\\').reverse

/-! ## The module under test -/

/-- How a named export is imported. -/
def exportSpecifier (e : Export) : String := renamed e.publicName e.localName

/-- The specifiers of all named exports, each once. -/
def exportSpecifiers (exports : List Export) : List String :=
  ((exports.filter (·.kind == .named)).map exportSpecifier).eraseDups

/-- The clause that imports what is published by `export` statements. -/
def exportImportClause (exports : List Export) : String :=
  let specifiers := exportSpecifiers exports
  match exports.find? (·.kind == .default) with
  | some d => if specifiers.isEmpty then d.localName else d.localName ++ ", " ++ braced specifiers
  | none => braced specifiers

/-- The line that takes a name from the export slot of the module with the given literal. -/
def slotLine (literal : String) (e : SlotExport) : String :=
  let line := "const " ++ e.localName ++ " = require(" ++ literal ++ ")"
  match e.part with
  | .whole => line ++ ";"
  | .property => line ++ "." ++ e.publicName ++ ";"

/-- The lines that import a module given by a literal. What `export` statements publish comes before what
the export slot does: if there is any of the former, the latter is left out. -/
def subjectLines (literal : String) (exports : List Export) (slotExports : List SlotExport) :
    List String :=
  if exports.isEmpty then (slotExports.map (slotLine literal)).eraseDups
  else ["import " ++ exportImportClause exports ++ " from " ++ literal ++ ";"]

/-- The lines that import the module under test; none if its file name cannot be cut. -/
def subjectSection? (m : Model) : Option (List Statement) :=
  (withoutExtension? m.specifier).map fun path =>
    (subjectLines (quoted path) m.exports m.slotExports).map .line

end TestScaffold
