import TestScaffold.Error
import TestScaffold.Files.Path

set_option autoImplicit false

/-!
# Dialects

The grammar that a module is read by depends on the extension of its file name.

## Main definitions

* `TestScaffold.Dialect`, `TestScaffold.Dialect.ofExtension` — the two grammars.
* `TestScaffold.Dialect.ofFilename` — the grammar of a file.

## Implementation notes

Plain scripts are read by the grammar with types, which admits all of them.
-/

namespace TestScaffold

/-- A grammar. -/
inductive Dialect where
  /-- Scripts with types. -/
  | typescript
  /-- Scripts with types and markup. -/
  | tsx
deriving DecidableEq, Repr

namespace Dialect

/-- The name of a grammar. -/
def text : Dialect → String
  | typescript => "typescript"
  | tsx => "tsx"

/-- The extensions of files with markup. -/
def markupExtensions : List String := ["tsx", "jsx"]

/-- The extensions of files without markup; a file without extension is one of them. -/
def plainExtensions : List String := ["", "ts", "mts", "cts", "js", "mjs", "cjs"]

/-- The grammar for an extension. -/
def ofExtension (ext : String) : Except ScaffoldError Dialect :=
  if markupExtensions.contains ext then .ok tsx
  else if plainExtensions.contains ext then .ok typescript
  else .error (.unknownExtension ext)

/-- The grammar for a file. -/
def ofFilename (filename : String) : Except ScaffoldError Dialect :=
  ofExtension ((Path.ofString filename).extension?.getD "")

end Dialect

end TestScaffold
