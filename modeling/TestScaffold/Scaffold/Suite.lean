import TestScaffold.Text.LowerCase
import TestScaffold.Scaffold.ImportLines

set_option autoImplicit false

/-!
# The suite of a module

A suite declares a variable for each thing it makes anew, lets the framework make them, and holds one test
for each published method and function. A test observes calls, declares the arguments, and calls the unit.

## Main definitions

* `TestScaffold.Model.instances` — what a suite makes anew for each test.
* `TestScaffold.TestCase` — one test, apart from the framework.
* `TestScaffold.methodCase`, `TestScaffold.functionCase`, `TestScaffold.Model.testCases` — the tests of a
  module.
* `TestScaffold.suite` — the suite of a module.

## Implementation notes

A function attached to the `prototype` of another is called through an instance of the latter; whatever
comes before that name in the qualifier is dropped.
-/

namespace TestScaffold

/-! ## Instances -/

/-- The instance of a class. -/
def ClassUnit.toInstance (c : ClassUnit) : Instance where
  name := c.name
  binding := decapitalize c.name
  parameters := (c.firstConstructor?.map (·.parameters)).getD []

/-- The instance made by a constructor function. -/
def FunctionUnit.toInstance (f : FunctionUnit) : Instance where
  name := f.name
  binding := decapitalize f.name
  parameters := f.parameters

/-- What a suite makes anew for each test: an instance of each class, then one by each constructor
function. -/
def Model.instances (m : Model) : List Instance :=
  m.classes.map ClassUnit.toInstance ++
    (m.functions.filter (·.role == .constructor)).map FunctionUnit.toInstance

/-! ## Tests -/

/-- One test, apart from the framework. -/
structure TestCase where
  /-- What is tested. -/
  description : String
  /-- The calls to observe. -/
  calls : List CallChain
  /-- What stands for the own object in the unit under test. -/
  receiver : Option String
  /-- The arguments, which are declared without a value. -/
  parameters : List String
  /-- The names that lead to what is called. -/
  chain : List String
  /-- Whether the result is kept. -/
  returns : Bool
deriving DecidableEq, Repr

/-- The call under test. -/
def TestCase.call (t : TestCase) : String := dotted t.chain ++ parenthesized t.parameters

/-- The statement that makes the call under test. -/
def TestCase.invocation (t : TestCase) : String :=
  (if t.returns then "const result = " else "") ++ t.call ++ ";"

/-- The test of a method: it is called through the class or through an instance. -/
def methodCase (c : ClassUnit) (method : Method) : TestCase :=
  let receiver := if method.isStatic then c.name else decapitalize c.name
  { description := method.name
    calls := method.calls
    receiver := some receiver
    parameters := method.parameters
    chain := [receiver, method.name]
    returns := method.returns }

/-- The qualifier that a function is called through. The name that owns the function through its
`prototype` is replaced by its instance. -/
def FunctionUnit.callQualifier (f : FunctionUnit) : List String :=
  match f.ownerIndex with
  | none => f.qualifier
  | some i =>
    match f.qualifier.drop i with
    | owner :: rest => decapitalize owner :: rest
    | [] => f.qualifier

/-- What stands for the own object in a function: the instance it belongs to, if it belongs to one. -/
def FunctionUnit.receiver? (f : FunctionUnit) : Option String :=
  if f.ownerIndex.isSome then f.callQualifier.head? else none

/-- The test of a function. -/
def functionCase (f : FunctionUnit) : TestCase where
  description := f.name
  calls := f.calls
  receiver := f.receiver?
  parameters := f.parameters
  chain := f.callQualifier ++ [f.name]
  returns := f.returns

/-- The tests of the methods of a class. -/
def ClassUnit.testCases (c : ClassUnit) : List TestCase :=
  (c.methods.filter (·.role == .method)).map (methodCase c)

/-- The tests of a module: those of its methods, then those of its functions. -/
def Model.testCases (m : Model) : List TestCase :=
  m.classes.flatMap ClassUnit.testCases ++
    (m.functions.filter (·.role == .function)).map functionCase

/-! ## Statements -/

/-- The body of a test. -/
def caseBody (framework : Framework) (m : Model) (t : TestCase) : List Statement :=
  framework.observe t.calls m.requires m.imports t.receiver ++ nullDeclarations t.parameters ++
    [.line t.invocation] ++ framework.epilogue

/-- The statements of one test. -/
def caseBlock (framework : Framework) (m : Model) (t : TestCase) : Statement :=
  framework.test t.description (caseBody framework m t)

/-- The declaration of the variable that holds an instance. -/
def instanceDeclaration (i : Instance) : Statement := .line ("let " ++ i.binding ++ ";")

/-- What surrounds the tests of a suite: the variables, and what is done before and after each test. -/
def suiteFrame (framework : Framework) (m : Model) : List Statement :=
  m.instances.map instanceDeclaration ++
    (if m.instances.isEmpty then [] else framework.beforeEach m.instances) ++
    framework.afterEach m.usages m.imports

/-- The suite of a module. -/
def suite (framework : Framework) (m : Model) : Statement :=
  framework.suite (baseName m.specifier)
    (suiteFrame framework m ++ m.testCases.map (caseBlock framework m))

end TestScaffold
