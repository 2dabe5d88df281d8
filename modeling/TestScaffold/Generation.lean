import TestScaffold.Dialect
import TestScaffold.Findings.Collection
import TestScaffold.Selection.Model
import TestScaffold.Scaffold.Sections

set_option autoImplicit false

/-!
# From source text to scaffold

The whole way from the text of a module to the text of its scaffold. The parser is a parameter: it turns a
text into a syntax tree by one of the grammars.

## Main definitions

* `TestScaffold.Parser`, `TestScaffold.Parser.ofTrees` — parsers.
* `TestScaffold.parseModule` — parsing, and the rejection of faulty trees.
* `TestScaffold.readFindings`, `TestScaffold.readModel` — what is read off the tree.
* `TestScaffold.scaffoldModule` — the text of a scaffold.

## Implementation notes

A tree with a single faulty node is rejected, so that no scaffold is written for a module that is half
understood.
-/

namespace TestScaffold

/-- A parser: it gives the syntax tree of a text by a grammar, or nothing if it gives up. -/
def Parser : Type := Dialect → SourceText → Option Tree

/-- The syntax tree of a text by a grammar. -/
structure KnownTree where
  /-- The grammar. -/
  dialect : Dialect
  /-- The text in its UTF-8 form. -/
  content : ByteArray
  /-- The tree. -/
  tree : Tree

/-- The parser that knows the trees of some texts and gives up on all others. -/
def Parser.ofTrees (known : List KnownTree) : Parser := fun dialect src =>
  (known.find? fun k => k.dialect == dialect && k.content.data == src.bytes.data).map KnownTree.tree

/-- The error at a node of the tree of a file. -/
def parseFailureAt (src : SourceText) (filename : String) (t : Tree) : ScaffoldError :=
  .faultySyntax filename (t.line src) (t.column src)

/-- A tree without faulty nodes as it is; else an error at its first faulty node. -/
def rejectFaults (src : SourceText) (filename : String) (root : Tree) : Except ScaffoldError Tree :=
  match root.firstFault? with
  | some t => .error (parseFailureAt src filename t)
  | none => .ok root

/-- The syntax tree of a text by the grammar for its file name. -/
def parseModule (parser : Parser) (src : SourceText) (filename : String) :
    Except ScaffoldError Tree := do
  let dialect ← Dialect.ofFilename filename
  match parser dialect src with
  | some root => rejectFaults src filename root
  | none => .error (.faultySyntax filename 0 0)

/-- All findings of a module. -/
def readFindings (parser : Parser) (src : SourceText) (filename : String) :
    Except ScaffoldError Findings :=
  (parseModule parser src filename).map (Findings.ofTree src filename)

/-- The model of a module. -/
def readModel (parser : Parser) (src : SourceText) (filename : String) :
    Except ScaffoldError Model :=
  (readFindings parser src filename).map Findings.toModel

/-- The scaffold of a model as text. -/
def renderScaffold (framework : Framework) (m : Model) : Except ScaffoldError String :=
  match scaffold? framework m with
  | some scaffold => .ok scaffold.render
  | none => .error (.splitCharacter m.specifier)

/-- The text of the scaffold for a module. The file name is the one the scaffold imports the module
by. -/
def scaffoldModule (parser : Parser) (framework : Framework) (src : SourceText) (filename : String) :
    Except ScaffoldError String := do
  renderScaffold framework (← readModel parser src filename)

end TestScaffold
