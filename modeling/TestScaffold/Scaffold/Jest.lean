import TestScaffold.Text.Literal
import TestScaffold.Scaffold.Framework
import TestScaffold.Scaffold.Jest.MockTree

set_option autoImplicit false

/-!
# Jest

The Jest test framework: modules are substituted by `jest.mock`, calls are observed by `jest.spyOn`, and
tests and suites are calls of `test` and `describe`.

## Main definitions

* `TestScaffold.jest` — the framework.
* `TestScaffold.Jest.beforeEach`, `TestScaffold.Jest.afterEach` — what surrounds each test.
* `TestScaffold.Jest.substitute` — the substitute of an imported module.
* `TestScaffold.Jest.spies` — the observed calls.
-/

namespace TestScaffold

namespace Jest

/-- A block that is the function argument of a call. -/
def callbackBlock (call : String) (body : List Statement) : Statement :=
  .block (call ++ "() => \x7b") body "\x7d);"

/-! ## Before and after each test -/

/-- The statement that makes an instance. -/
def instantiation (i : Instance) : String :=
  i.binding ++ " = new " ++ i.name ++ parenthesized i.parameters ++ ";"

/-- The statements that make instances, where the parameters in `declared` have a value already. A
parameter is declared before the first instance that uses it. -/
def instantiations (declared : List String) : List Instance → List Statement
  | [] => []
  | i :: rest =>
    let fresh := i.parameters.eraseDups.filter fun p => !declared.contains p
    nullDeclarations fresh ++ .line (instantiation i) :: instantiations (declared ++ fresh) rest

/-- Makes every instance before each test. -/
def beforeEach (instances : List Instance) : List Statement :=
  [callbackBlock "beforeEach(" (instantiations [] instances)]

/-- The statement that forgets the recorded calls of what a chain of names leads to. -/
def mockClear (chain : String) : Statement := .line (chain ++ ".mockClear();")

/-- The statements that forget the recorded calls made through one name. -/
def resets (u : Usage) : List Statement :=
  if u.paths.isEmpty then [mockClear u.name]
  else u.paths.map fun path => mockClear (u.name ++ "." ++ dotted path)

/-- Every usage has resets. -/
theorem resets_ne_nil (u : Usage) : resets u ≠ [] := by
  unfold resets
  split
  · exact List.cons_ne_nil _ _
  · next h => simpa using h

/-- Runs statements after each test, if there are any. -/
def afterEachBlock (body : List Statement) : List Statement :=
  if body.isEmpty then [] else [callbackBlock "afterEach(" body]

/-- Forgets, after each test, the recorded calls of what is imported. -/
def afterEach (usages : List Usage) (imports : List Import) : List Statement :=
  afterEachBlock ((usages.filter fun u => isImported imports u.name).flatMap resets)

/-! ## Substitutes -/

/-- The mock tree of a binding, if it is that of a named export that is used. -/
def bindingMock? (usages : List Usage) : Binding → Option MockTree
  | .member imported localName =>
    (usages.find? (·.name == localName)).map (MockTree.ofUsage imported)
  | _ => none

/-- The mock trees of an `import` statement, one for each used named export if it binds those first. -/
def mocks (d : Import) (usages : List Usage) : List MockTree :=
  match d.kind with
  | .member => d.bindings.filterMap (bindingMock? usages)
  | _ => []

/-- The substitute of an imported module with the given entries. Nothing is substituted if nothing is bound
or only types are. -/
def substituteBy (d : Import) (entries : List MockTree) : List Statement :=
  if d.typeOnly || d.kind == .sideEffect then []
  else
    let opening := "jest.mock(" ++ quoted d.modulePath ++ ", () => (\x7b"
    match MockTree.renderAll entries with
    | [] => [.line (opening ++ "\x7d));")]
    | entries => [.block opening entries "\x7d));"]

/-- The substitute of an imported module. -/
def substitute (d : Import) (usages : List Usage) : List Statement :=
  substituteBy d (mocks d usages)

/-! ## Observed calls -/

/-- The chain of names to observe for a call: the own object is replaced by what stands for it. There is
none if nothing stands for it. -/
def spiedChain? (receiver : Option String) (site : CallChain) : Option (List String) :=
  if site.viaSelf then receiver.map fun r => r :: site.names else some site.segments

/-- Whether a call can be observed: its target comes from another module, and it is called on
something. -/
def isObservable (requires : List Require) (imports : List Import) (site : CallChain) : Bool :=
  match site.through? with
  | some target =>
    isForeign imports requires target && (site.viaSelf || 1 < site.segments.length)
  | none => false

/-- The statement that observes what a chain of names leads to. -/
def spy (chain : List String) : String :=
  match chain.getLast? with
  | some method =>
    if 1 < chain.length then
      "jest.spyOn(" ++ dotted chain.dropLast ++ ", " ++ quoted method ++ ");"
    else "jest.spyOn(" ++ dotted chain ++ ");"
  | none => "jest.spyOn();"

/-- The observed calls, each once, in the order of first calls. -/
def spies (sites : List CallChain) (requires : List Require) (imports : List Import)
    (receiver : Option String) : List Statement :=
  (((sites.filter (isObservable requires imports)).filterMap (spiedChain? receiver)).map
    spy).eraseDups.map .line

end Jest

/-- The Jest test framework. -/
def jest : Framework where
  preamble := []
  beforeEach := Jest.beforeEach
  afterEach := Jest.afterEach
  substitute := Jest.substitute
  observe := Jest.spies
  epilogue := []
  test description body := Jest.callbackBlock ("test(" ++ quoted description ++ ", ") body
  suite description body := Jest.callbackBlock ("describe(" ++ quoted description ++ ", ") body

end TestScaffold
