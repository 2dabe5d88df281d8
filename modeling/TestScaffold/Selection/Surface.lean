import TestScaffold.Module.Export
import TestScaffold.Module.Unit

set_option autoImplicit false

/-!
# The surface of a module

The names inside a module that it publishes, in either of the two ways.

## Main definitions

* `TestScaffold.Surface`, `TestScaffold.Surface.ofExports` — the published names.
* `TestScaffold.Surface.contains`, `TestScaffold.Surface.publishes` — whether a name or a function is
  published.
-/

namespace TestScaffold

/-- The names inside a module that it publishes. -/
structure Surface where
  /-- The names, those of the export slot first. -/
  names : List String
deriving DecidableEq, Repr

namespace Surface

/-- The surface given by what is published through the slot and by `export` statements. A name that is
passed on from another module is no name inside this one. -/
def ofExports (slotExports : List SlotExport) (exports : List Export) : Surface :=
  ⟨slotExports.map (·.localName) ++
    (exports.filter fun e => !e.isPassedOn).map (·.localName)⟩

/-- Whether nothing is published. -/
def isEmpty (s : Surface) : Bool := s.names.isEmpty

/-- Whether a name is published. -/
def contains (s : Surface) (name : String) : Bool := s.names.contains name

/-- A name is published if it is among the names of the surface. -/
@[simp] theorem contains_eq_true {s : Surface} {name : String} :
    s.contains name = true ↔ name ∈ s.names := by
  simp [contains]

/-- Whether a function is published: under its own name or through something it is attached to. -/
def publishes (s : Surface) (f : FunctionUnit) : Bool :=
  s.contains f.name || f.qualifier.any s.contains

/-- A function is published if its name or a segment of its qualifier is. -/
theorem publishes_eq_true {s : Surface} {f : FunctionUnit} :
    s.publishes f = true ↔ f.name ∈ s.names ∨ ∃ segment ∈ f.qualifier, segment ∈ s.names := by
  simp [publishes]

end Surface

end TestScaffold
