set_option autoImplicit false

/-!
# Exports

A module publishes names in two ways: by `export` statements, and by assignments to its export slot,
`module.exports`.

## Main definitions

* `TestScaffold.Export` — a name published by an `export` statement.
* `TestScaffold.SlotExport` — a name published through the export slot.
-/

namespace TestScaffold

/-- The two kinds of published names. -/
inductive ExportKind where
  /-- The default export of the module. -/
  | default
  /-- An export under a name of its own. -/
  | named
deriving DecidableEq, Repr

/-- A name published by an `export` statement. -/
structure Export where
  /-- Whether this is the default export. -/
  kind : ExportKind
  /-- The name that importing modules use. -/
  publicName : String
  /-- The name inside this module. A re-export has no name inside; it repeats the published one. -/
  localName : String
  /-- The module that a re-export comes from. -/
  source : Option String
deriving DecidableEq, Repr

/-- Whether the name is passed on from another module. -/
def Export.isPassedOn (e : Export) : Bool := e.source.isSome

/-- What an assignment to the export slot replaces. -/
inductive SlotPart where
  /-- The whole slot: the module is the value. -/
  | whole
  /-- One property of the slot. -/
  | property
deriving DecidableEq, Repr

/-- A name published through the export slot. -/
structure SlotExport where
  /-- The name of the property, or of the value if the whole slot is replaced. -/
  publicName : String
  /-- The name inside this module. -/
  localName : String
  /-- Whether the whole slot is replaced. -/
  part : SlotPart
deriving DecidableEq, Repr

end TestScaffold
