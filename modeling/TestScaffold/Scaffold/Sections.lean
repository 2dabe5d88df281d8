import TestScaffold.Scaffold.Suite

set_option autoImplicit false

/-!
# The scaffold of a module

A scaffold has up to four sections: the report on what is not described, what the module under test takes
from elsewhere together with its substitutes, the import of the module itself, and the suite. A blank line
stands behind each of the first three that is not empty.

## Main definitions

* `TestScaffold.reportSection`, `TestScaffold.dependencySection` — the first two sections.
* `TestScaffold.scaffold?` — the scaffold of a module.
-/

namespace TestScaffold

/-- The report on what is not described, one comment for each diagnostic. -/
def reportSection (m : Model) : List Statement :=
  m.diagnostics.map fun d => .line ("// unsupported: " ++ d.text)

/-- An `import` statement followed by the substitute of what it imports. -/
def importSection (framework : Framework) (m : Model) (d : Import) : List Statement :=
  .line (importLine d) :: framework.substitute d m.usages

/-- The statements of the requires, each once. -/
def requireStatements (requires : List Require) : List String :=
  (requires.map (·.statement)).eraseDups

/-- What the module takes from elsewhere. -/
def dependencySection (framework : Framework) (m : Model) : List Statement :=
  framework.preamble ++ m.imports.flatMap (importSection framework m) ++
    (requireStatements m.requires).map .line

/-- The scaffold of a module; none if the file name of the module cannot be cut. -/
def scaffold? (framework : Framework) (m : Model) : Option Scaffold :=
  (subjectSection? m).map fun moduleSection =>
    ⟨Statement.spaced (reportSection m) ++ Statement.spaced (dependencySection framework m) ++
      Statement.spaced moduleSection ++ [suite framework m]⟩

/-- The suite is the last statement of a scaffold. -/
theorem getLast?_statements {framework : Framework} {m : Model} {d : Scaffold}
    (h : scaffold? framework m = some d) : d.statements.getLast? = some (suite framework m) := by
  obtain ⟨moduleSection, -, rfl⟩ := Option.map_eq_some_iff.1 h
  exact List.getLast?_concat

end TestScaffold
