import TestScaffold.Module.CallChain

set_option autoImplicit false

/-!
# Units

The things a module can publish and a scaffold can test: classes with their methods, and functions.

## Main definitions

* `TestScaffold.UnitRole` — constructor, method or function.
* `TestScaffold.Method`, `TestScaffold.ClassUnit` — classes.
* `TestScaffold.FunctionUnit` — functions bound to a name.
-/

namespace TestScaffold

/-- What a method or function is for. -/
inductive UnitRole where
  /-- It sets up a new object. -/
  | constructor
  /-- It is called through a class or an object. -/
  | method
  /-- It is called by itself or through the objects it is assigned to. -/
  | function
deriving DecidableEq, Repr

/-- A method of a class. -/
structure Method where
  /-- The name as written in the class body. -/
  name : String
  /-- Constructor or method. -/
  role : UnitRole
  /-- Whether the method belongs to the class itself. -/
  isStatic : Bool
  /-- The parameters in order. -/
  parameters : List String
  /-- The variables that the body declares. -/
  locals : List String
  /-- The members of the own object that the body assigns to. -/
  writtenMembers : List String
  /-- The calls in the body. -/
  calls : List CallChain
  /-- Whether the body returns. -/
  returns : Bool
deriving DecidableEq, Repr

/-- The constructor of a class that declares none: it has no parameters and an empty body. -/
def Method.emptyConstructor : Method where
  name := "constructor"
  role := .constructor
  isStatic := false
  parameters := []
  locals := []
  writtenMembers := []
  calls := []
  returns := false

/-- A class with its fields and methods. -/
structure ClassUnit where
  /-- The name the class is known by in the module. -/
  name : String
  /-- The fields of an object of the class. -/
  fields : List String
  /-- The methods in order, a constructor among them. -/
  methods : List Method
deriving DecidableEq, Repr

/-- The first constructor of a class. -/
def ClassUnit.firstConstructor? (c : ClassUnit) : Option Method :=
  c.methods.find? (·.role == .constructor)

/-- A function declared under a name or assigned to one. -/
structure FunctionUnit where
  /-- The last name of what the function is bound to. -/
  name : String
  /-- Function, or constructor for one that others are attached to. -/
  role : UnitRole
  /-- The parameters in order. -/
  parameters : List String
  /-- The variables that the body declares. -/
  locals : List String
  /-- The calls in the body. -/
  calls : List CallChain
  /-- Whether the body returns. -/
  returns : Bool
  /-- The names before the last one, without the segments `prototype`. -/
  qualifier : List String
  /-- The position in `qualifier` of the name whose `prototype` the function is attached to. -/
  ownerIndex : Option Nat
deriving DecidableEq, Repr

end TestScaffold
