import TestScaffold.Findings.Basic
import TestScaffold.Selection.Surface
import TestScaffold.Selection.Promotion
import TestScaffold.Selection.Aggregation

set_option autoImplicit false

/-!
# From findings to the model

The model keeps the published classes and functions with their diagnostics, promotes a constructor
function if there is no class, and gathers what the kept units call.

## Main definitions

* `TestScaffold.keptUnits`, `TestScaffold.keptDiagnostics` — what remains of a list of readings.
* `TestScaffold.sortByLine` — diagnostics in the order of their lines.
* `TestScaffold.Findings.surface`, `TestScaffold.Findings.toModel` — the model of a list of findings.
-/

namespace TestScaffold

/-- The readings whose unit is to be kept. -/
def keptReadings {α : Type} (keep : α → Bool) (readings : List (Reading α)) :
    List (Reading α) :=
  readings.filter fun c => keep c.unit

/-- The units to be kept, in order. -/
def keptUnits {α : Type} (keep : α → Bool) (readings : List (Reading α)) : List α :=
  (keptReadings keep readings).map (·.unit)

/-- The diagnostics of the units to be kept, in order. -/
def keptDiagnostics {α : Type} (keep : α → Bool) (readings : List (Reading α)) :
    List Diagnostic :=
  (keptReadings keep readings).flatMap (·.diagnostics)

/-- Puts a diagnostic before the first one that is not on an earlier line. -/
def insertByLine (d : Diagnostic) : List Diagnostic → List Diagnostic
  | [] => [d]
  | e :: es => if d.line ≤ e.line then d :: e :: es else e :: insertByLine d es

/-- The diagnostics by line; those of one line stay in their order. -/
def sortByLine (ds : List Diagnostic) : List Diagnostic := ds.foldr insertByLine []

/-- The calls in a class. -/
def ClassUnit.calls (c : ClassUnit) : List CallChain := c.methods.flatMap (·.calls)

namespace Findings

/-- The names inside the module that it publishes. -/
def surface (f : Findings) : Surface := Surface.ofExports f.slotExports f.exports

/-- Whether a class is published. -/
def keepsClass (f : Findings) (c : ClassUnit) : Bool := f.surface.contains c.name

/-- The published classes. -/
def publishedClasses (f : Findings) : List ClassUnit := keptUnits f.keepsClass f.classes

/-- The published functions, one of them promoted to a constructor if there is no published class. -/
def publishedFunctions (f : Findings) : List FunctionUnit :=
  let functions := keptUnits f.surface.publishes f.functions
  if f.publishedClasses.isEmpty then promoteConstructor functions else functions

/-- The calls of all published units, those of classes first. -/
def publishedCalls (f : Findings) : List CallChain :=
  f.publishedClasses.flatMap ClassUnit.calls ++ f.publishedFunctions.flatMap (·.calls)

/-- All diagnostics of interest: those outside of units, then those of the published units. -/
def publishedDiagnostics (f : Findings) : List Diagnostic :=
  f.diagnostics ++ keptDiagnostics f.keepsClass f.classes ++
    keptDiagnostics f.surface.publishes f.functions

/-- The model of a module. -/
def toModel (f : Findings) : Model where
  specifier := f.specifier
  imports := f.imports
  requires := f.requires
  classes := f.publishedClasses
  functions := f.publishedFunctions
  usages := foreignUsage f.imports f.requires (usageOfCalls f.publishedCalls)
  slotExports := f.slotExports
  exports := f.exports
  diagnostics := sortByLine f.publishedDiagnostics

end Findings

end TestScaffold
