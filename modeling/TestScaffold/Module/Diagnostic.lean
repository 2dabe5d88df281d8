set_option autoImplicit false

/-!
# Diagnostics

Forms that are recognised in a module but not described by its model are reported with their line.

## Main definitions

* `TestScaffold.UndescribedForm`, `TestScaffold.UndescribedForm.text` — the forms and their descriptions.
* `TestScaffold.Diagnostic`, `TestScaffold.Diagnostic.text` — a form at a line.
-/

namespace TestScaffold

/-- A form of source text that is recognised but not described. -/
inductive UndescribedForm where
  /-- A default export of a class, function or expression without a name. -/
  | namelessDefault
  /-- A parameter that is taken apart. -/
  | unpackedParameter
  /-- A function written inside an object that is assigned to the export slot. -/
  | inlineProperty
  /-- A function or class assigned to the export slot as written. -/
  | inlineExport
  /-- A required module whose path is not a literal. -/
  | computedPath
  /-- A require that takes the module apart into nothing. -/
  | emptyPattern
  /-- A class that no name leads to. -/
  | namelessClass
deriving DecidableEq, Repr

/-- The description of a form. -/
def UndescribedForm.text : UndescribedForm → String
  | namelessDefault => "anonymous default export"
  | unpackedParameter => "destructured parameter"
  | inlineProperty => "inline function in export object"
  | inlineExport => "inline function assigned to export slot"
  | computedPath => "non-literal require path"
  | emptyPattern => "require pattern binding no names"
  | namelessClass => "anonymous class"

/-- A form found at a line. -/
structure Diagnostic where
  /-- The form. -/
  form : UndescribedForm
  /-- The line where it begins, counted from one. -/
  line : Nat
deriving DecidableEq, Repr

/-- The text of a diagnostic. -/
def Diagnostic.text (d : Diagnostic) : String :=
  d.form.text ++ " (line " ++ toString d.line ++ ")"

end TestScaffold
