import TestScaffold.Module.Model

set_option autoImplicit false

/-!
# Findings

What is read off a syntax tree before anything is known about what the module publishes: a list of single
findings in document order, sorted by what they are.

## Main definitions

* `TestScaffold.Reading` — a unit with the diagnostics raised while reading it.
* `TestScaffold.Finding` — one thing found in a tree.
* `TestScaffold.Findings`, `TestScaffold.Findings.ofList` — all findings of a module.

## Implementation notes

The diagnostics of a unit stay with it, for they are of interest only if the unit is kept.
-/

namespace TestScaffold

/-- A class or function found in a tree, with the diagnostics raised while reading it. -/
structure Reading (α : Type) where
  /-- The class or function. -/
  unit : α
  /-- What could not be described inside it. -/
  diagnostics : List Diagnostic
deriving DecidableEq, Repr

/-- One thing found in a tree. -/
inductive Finding where
  /-- An `import` statement. -/
  | imported (d : Import)
  /-- A name bound by a require. -/
  | required (d : Require)
  /-- A name published through the export slot. -/
  | slotExported (e : SlotExport)
  /-- A name published by an `export` statement. -/
  | exported (e : Export)
  /-- A class. -/
  | classFound (c : Reading ClassUnit)
  /-- A function. -/
  | functionFound (c : Reading FunctionUnit)
  /-- A form that belongs to no unit and is not described. -/
  | flagged (d : Diagnostic)
deriving DecidableEq, Repr

namespace Finding

/-- The import, if that is what was found. -/
def import? : Finding → Option Import
  | imported d => some d
  | _ => none

/-- The require, if that is what was found. -/
def require? : Finding → Option Require
  | required d => some d
  | _ => none

/-- The export through the slot, if that is what was found. -/
def slotExport? : Finding → Option SlotExport
  | slotExported e => some e
  | _ => none

/-- The export, if that is what was found. -/
def export? : Finding → Option Export
  | exported e => some e
  | _ => none

/-- The class, if that is what was found. -/
def class? : Finding → Option (Reading ClassUnit)
  | classFound c => some c
  | _ => none

/-- The function, if that is what was found. -/
def function? : Finding → Option (Reading FunctionUnit)
  | functionFound c => some c
  | _ => none

/-- The diagnostic, if that is what was found. -/
def diagnostic? : Finding → Option Diagnostic
  | flagged d => some d
  | _ => none

end Finding

/-- All findings of a module, each list in document order. -/
structure Findings where
  /-- The name by which the scaffold refers to the module. -/
  specifier : String
  /-- The `import` statements. -/
  imports : List Import
  /-- The names bound by requires. -/
  requires : List Require
  /-- The names published through the export slot. -/
  slotExports : List SlotExport
  /-- The names published by `export` statements. -/
  exports : List Export
  /-- All classes, published or not. -/
  classes : List (Reading ClassUnit)
  /-- All functions, published or not. -/
  functions : List (Reading FunctionUnit)
  /-- The diagnostics outside of classes and functions. -/
  diagnostics : List Diagnostic
deriving DecidableEq, Repr

/-- Sorts single findings by what they are. -/
def Findings.ofList (specifier : String) (found : List Finding) : Findings where
  specifier
  imports := found.filterMap Finding.import?
  requires := found.filterMap Finding.require?
  slotExports := found.filterMap Finding.slotExport?
  exports := found.filterMap Finding.export?
  classes := found.filterMap Finding.class?
  functions := found.filterMap Finding.function?
  diagnostics := found.filterMap Finding.diagnostic?

end TestScaffold
