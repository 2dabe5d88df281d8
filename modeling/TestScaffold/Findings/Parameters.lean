import TestScaffold.Syntax.Tree
import TestScaffold.Module.Diagnostic

set_option autoImplicit false

/-!
# Parameters

The parameters of a function-like node are known by one name each. A parameter that is taken apart has no
name; a placeholder with its position stands for it, and it is reported.

## Main definitions

* `TestScaffold.formalPatterns` — what stands at each parameter position.
* `TestScaffold.formalName?` — the name a parameter is known by.
* `TestScaffold.parameterNames`, `TestScaffold.parameterDiagnostics` — the names of all parameters and the
  report on those without one.
-/

namespace TestScaffold

/-- What a child of a parameter list puts at a parameter position. Comments, decorators and the type of
the own object are no parameters. -/
def formalPattern? (param : Tree) : Option Tree := do
  let pattern ←
    match param.kind with
    | .requiredParameter | .optionalParameter => param.childAt? .pattern
    | .comment | .decorator => none
    | _ => some param
  if pattern.kind == .this then none else some pattern

/-- What stands at each parameter position of a function-like node. -/
def formalPatterns (func : Tree) : List Tree :=
  match func.childAt? .parameters with
  | some params => params.namedChildren.filterMap formalPattern?
  | none => []

/-- The name that a rest parameter collects under: its first named child, if that is a name. -/
def restName? (src : SourceText) (rest : Tree) : Option String :=
  match rest.firstNamed? with
  | some t => if t.kind == .identifier then some (t.text src) else none
  | none => none

mutual

/-- The name of a parameter: its own, that of the target of a default value, or that of a rest
parameter. -/
def formalName? (src : SourceText) : Tree → Option String
  | .node l cs =>
    match l.kind with
    | .identifier => some ((Tree.node l cs).text src)
    | .assignmentPattern => formalNameAt? src .left cs
    | .restPattern => restName? src (.node l cs)
    | _ => none

/-- The name of the first of several patterns that plays the role `f`. -/
def formalNameAt? (src : SourceText) (f : Field) : List Tree → Option String
  | [] => none
  | c :: cs => if c.field == some f then formalName? src c else formalNameAt? src f cs

end

/-- The name computed for a role is that of the child in this role. -/
theorem formalNameAt?_eq (src : SourceText) (f : Field) (cs : List Tree) :
    formalNameAt? src f cs = (cs.find? (·.field == some f)).bind (formalName? src) := by
  induction cs with
  | nil => rw [formalNameAt?]; rfl
  | cons c cs ih =>
    rw [formalNameAt?, List.find?_cons]
    cases c.field == some f with
    | true => rfl
    | false => exact ih

/-- The name of a parameter by its kind and the children it is made of. -/
theorem formalName?_eq (src : SourceText) (t : Tree) :
    formalName? src t =
      match t.kind with
      | .identifier => some (t.text src)
      | .assignmentPattern => (t.childAt? .left).bind (formalName? src)
      | .restPattern => restName? src t
      | _ => none := by
  obtain ⟨l, cs⟩ := t
  rw [formalName?, formalNameAt?_eq]
  rfl

/-- The name that stands for a parameter without one at a position counted from zero. -/
def placeholder (position : Nat) : String := "param" ++ toString position

/-- The names of the parameters of a function-like node, in order. -/
def parameterNames (src : SourceText) (func : Tree) : List String :=
  match func.childAt? .parameter with
  | some single => [single.text src]
  | none =>
    (formalPatterns func).zipIdx.map fun (pattern, i) =>
      (formalName? src pattern).getD (placeholder i)

/-- The report on the parameters of a function-like node that have no name, in order. -/
def parameterDiagnostics (src : SourceText) (func : Tree) : List Diagnostic :=
  match func.childAt? .parameter with
  | some _ => []
  | none =>
    ((formalPatterns func).filter fun pattern => (formalName? src pattern).isNone).map fun pattern =>
      ⟨.unpackedParameter, pattern.line src⟩

/-- Every parameter position has a name. -/
theorem length_parameterNames {src : SourceText} {func : Tree}
    (h : func.childAt? .parameter = none) :
    (parameterNames src func).length = (formalPatterns func).length := by
  simp [parameterNames, h]

end TestScaffold
