set_option autoImplicit false

/-!
# Imports and requires

The names that a module takes from other modules, by `import` statements and by `require` calls.

## Main definitions

* `TestScaffold.Binding`, `TestScaffold.Import` — an `import` statement and the names it binds.
* `TestScaffold.Require` — one name bound by a declaration that requires a module.
* `TestScaffold.isImported`, `TestScaffold.isRequired`, `TestScaffold.isForeign` — whether a name
  comes from another module.
-/

namespace TestScaffold

/-- How an `import` statement binds its names. -/
inductive ImportKind where
  /-- The first binding is that of the default export or of the whole module. -/
  | default
  /-- The first binding is that of a named export. -/
  | member
  /-- Nothing is bound; the module is loaded for what it does. -/
  | sideEffect
deriving DecidableEq, Repr

/-- One name that an `import` statement binds. -/
inductive Binding where
  /-- The default export under the name `name`. -/
  | default (name : String)
  /-- The whole module under the name `name`. -/
  | whole (name : String)
  /-- The export `imported` under the name `localName`. -/
  | member (imported localName : String)
deriving DecidableEq, Repr

/-- The name that the importing module sees. -/
def Binding.localName : Binding → String
  | default name => name
  | whole name => name
  | member _ localName => localName

/-- An `import` statement. -/
structure Import where
  /-- How the statement binds its names. -/
  kind : ImportKind
  /-- The bindings in source order. -/
  bindings : List Binding
  /-- The module imported from, as written between the quotes. -/
  modulePath : String
  /-- Whether only types are imported, so that nothing is left when the module runs. -/
  typeOnly : Bool
deriving DecidableEq, Repr

namespace Import

/-- The names bound by an `import` statement, in source order. -/
def localNames (d : Import) : List String := d.bindings.map Binding.localName

/-- Whether an `import` statement binds a name. -/
def introduces (d : Import) (name : String) : Bool := d.localNames.any (· == name)

/-- A statement binds exactly its bound names. -/
@[simp] theorem introduces_eq_true {d : Import} {name : String} :
    d.introduces name = true ↔ name ∈ d.localNames := by
  simp [introduces]

end Import

/-- One name bound by a declaration that requires a module. A declaration that takes the required module
apart binds several names, all with the same statement. -/
structure Require where
  /-- The name that is bound. -/
  localName : String
  /-- The module required, as written between the quotes. -/
  modulePath : String
  /-- The declaration as written, as a statement of its own. -/
  statement : String
deriving DecidableEq, Repr

/-- Whether some `import` statement binds a name. -/
def isImported (imports : List Import) (name : String) : Bool := imports.any (·.introduces name)

/-- Whether some require binds a name. -/
def isRequired (requires : List Require) (name : String) : Bool :=
  requires.any (·.localName == name)

/-- Whether a name comes from another module. -/
def isForeign (imports : List Import) (requires : List Require) (name : String) : Bool :=
  isImported imports name || isRequired requires name

end TestScaffold
