import TestScaffold.Module.Import
import TestScaffold.Module.Export
import TestScaffold.Module.Unit
import TestScaffold.Module.Usage
import TestScaffold.Module.Diagnostic

set_option autoImplicit false

/-!
# The model of a module

Everything that a scaffold is written from.

## Main definitions

* `TestScaffold.Model` — one module with its published units and what it takes from elsewhere.
* `TestScaffold.Model.usageOf?` — the usage of one name.
-/

namespace TestScaffold

/-- What is known about one module. -/
structure Model where
  /-- The name by which the scaffold refers to the module. -/
  specifier : String
  /-- The `import` statements in source order. -/
  imports : List Import
  /-- The names bound by requires in source order. -/
  requires : List Require
  /-- The published classes. -/
  classes : List ClassUnit
  /-- The published functions. -/
  functions : List FunctionUnit
  /-- What the published units call through imported and required names. -/
  usages : List Usage
  /-- The names published through the export slot. -/
  slotExports : List SlotExport
  /-- The names published by `export` statements. -/
  exports : List Export
  /-- The forms left undescribed, by line. -/
  diagnostics : List Diagnostic
deriving DecidableEq, Repr

/-- The usage recorded for a name. -/
def Model.usageOf? (m : Model) (name : String) : Option Usage :=
  m.usages.find? (·.name == name)

end TestScaffold
