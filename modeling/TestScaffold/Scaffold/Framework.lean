import TestScaffold.Module.Model
import TestScaffold.Scaffold.Statement

set_option autoImplicit false

/-!
# Test frameworks

A test framework answers for everything in a scaffold that depends on the framework in use: how modules are
substituted, how calls are observed, and how tests and suites are wrapped.

## Main definitions

* `TestScaffold.Instance` — something a suite makes anew for each test.
* `TestScaffold.Framework` — what a test framework answers for.
* `TestScaffold.nullDeclarations` — declarations of variables without a value.
-/

namespace TestScaffold

/-- Something that a suite makes anew for each test. -/
structure Instance where
  /-- The class or constructor function. -/
  name : String
  /-- The variable that holds the object. -/
  binding : String
  /-- The parameters of the constructor. -/
  parameters : List String
deriving DecidableEq, Repr

/-- What a test framework answers for. -/
structure Framework where
  /-- Statements that stand before everything else. -/
  preamble : List Statement
  /-- Makes every instance before each test. -/
  beforeEach : List Instance → List Statement
  /-- Forgets, after each test, the recorded calls of what is imported. -/
  afterEach : List Usage → List Import → List Statement
  /-- Substitutes an imported module. -/
  substitute : Import → List Usage → List Statement
  /-- Observes calls. The receiver is what stands for the own object in the unit under test. -/
  observe : List CallChain → List Require → List Import → Option String → List Statement
  /-- Statements after the call under test. -/
  epilogue : List Statement
  /-- Wraps the body of a test. -/
  test : String → List Statement → Statement
  /-- Wraps the tests of a module. -/
  suite : String → List Statement → Statement

/-- The declaration of a variable without a value. -/
def nullDeclaration (name : String) : Statement := .line ("const " ++ name ++ " = null;")

/-- The declarations of variables without a value, in order. -/
def nullDeclarations (names : List String) : List Statement := names.map nullDeclaration

/-- Names separated by commas. -/
def commaSeparated (names : List String) : String := ", ".intercalate names

/-- Names separated by dots. -/
def dotted (names : List String) : String := ".".intercalate names

/-- An argument list in parentheses. -/
def parenthesized (arguments : List String) : String := "(" ++ commaSeparated arguments ++ ")"

/-- Names between braces. -/
def braced (names : List String) : String := "\x7b " ++ commaSeparated names ++ " \x7d"

end TestScaffold
