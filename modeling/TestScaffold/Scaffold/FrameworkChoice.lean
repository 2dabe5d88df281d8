import TestScaffold.Scaffold.Jest

set_option autoImplicit false

/-!
# Choice of a framework

The frameworks a scaffold can be written for, by name.

## Main definitions

* `TestScaffold.FrameworkChoice`, `TestScaffold.FrameworkChoice.framework` — the choices.
* `TestScaffold.FrameworkChoice.ofText?` — a choice by its name.
-/

namespace TestScaffold

/-- A framework that a scaffold can be written for. -/
inductive FrameworkChoice where
  /-- The Jest test framework. -/
  | jest
deriving DecidableEq, Repr

namespace FrameworkChoice

/-- The name of a choice. -/
def text : FrameworkChoice → String
  | jest => "jest"

/-- The framework that is chosen. -/
def framework : FrameworkChoice → Framework
  | jest => TestScaffold.jest

/-- The choice if none is made. -/
def standard : FrameworkChoice := jest

/-- All choices. -/
def all : List FrameworkChoice := [jest]

/-- Whether two words are the same, or the same but for the case of ASCII letters. -/
def sameWord (ignoreCase : Bool) (a b : String) : Bool :=
  a == b || ignoreCase && a.toList.map Char.toLower == b.toList.map Char.toLower

/-- The choice of a given name. -/
def ofText? (ignoreCase : Bool) (name : String) : Option FrameworkChoice :=
  all.find? fun k => sameWord ignoreCase k.text name

end FrameworkChoice

end TestScaffold
