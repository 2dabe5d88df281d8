import TestScaffold.Module.CallChain
import TestScaffold.Module.Import
import TestScaffold.Module.Usage

set_option autoImplicit false

/-!
# Aggregated usage

The calls of a module, gathered by the name they go through.

## Main definitions

* `TestScaffold.addCall` — the usage with one more call.
* `TestScaffold.usageOfCalls` — the usage of a list of calls.
* `TestScaffold.foreignUsage` — the usage of the names that come from other modules.
-/

namespace TestScaffold

/-- Adds a call through the binding `name` to the first entry of that name, or as a new last entry. -/
def addUsage (name : String) (site : CallChain) : List Usage → List Usage
  | [] => [Usage.add ⟨name, [], site.viaSelf⟩ site.members]
  | u :: us =>
    if u.name == name then u.add site.members :: us else u :: addUsage name site us

/-- Adds a call to the usage gathered so far. A call that goes through no binding adds nothing. -/
def addCall (usages : List Usage) (site : CallChain) : List Usage :=
  match site.through? with
  | some name => addUsage name site usages
  | none => usages

/-- The usage of a list of calls: one entry for each binding, in the order of first calls. -/
def usageOfCalls (sites : List CallChain) : List Usage := sites.foldl addCall []

/-- The usage of names that come from other modules; local helpers and globals are left out. -/
def foreignUsage (imports : List Import) (requires : List Require) (usages : List Usage) :
    List Usage :=
  usages.filter fun u => isForeign imports requires u.name

end TestScaffold
