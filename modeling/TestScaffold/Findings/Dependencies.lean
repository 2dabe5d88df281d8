import TestScaffold.Syntax.Locus
import TestScaffold.Text.Literal
import TestScaffold.Findings.Basic

set_option autoImplicit false

/-!
# Dependencies

What a module takes from other modules: the bindings of its `import` statements, and the names of the
declarations that a `require` call initialises.

## Main definitions

* `TestScaffold.import?` — the reading of an `import` statement.
* `TestScaffold.patternNames` — the names that a pattern binds.
* `TestScaffold.declaratorAbove?` — the declaration that a call initialises.
* `TestScaffold.requireFindings` — the findings at a call.
-/

namespace TestScaffold

/-! ## Import statements -/

/-- How a part of an import clause makes its statement bind, if it comes first. -/
def specifierKind? (spec : Tree) : Option ImportKind :=
  match spec.kind with
  | .identifier | .namespaceImport => some .default
  | .namedImports => some .member
  | _ => none

/-- The binding of one member of an import clause. -/
def memberBinding? (src : SourceText) (member : Tree) : Option Binding := do
  guard (member.kind == .importSpecifier)
  let imported ← member.childAt? .name
  let localName := (member.childAt? .newName).getD imported
  return .member (imported.text src) (localName.text src)

/-- The bindings of one part of an import clause. -/
def specifierBindings (src : SourceText) (spec : Tree) : List Binding :=
  match spec.kind with
  | .identifier => [.default (spec.text src)]
  | .namespaceImport =>
    ((spec.namedChildren.find? (·.kind == .identifier)).map fun t => .whole (t.text src)).toList
  | .namedImports => spec.namedChildren.filterMap (memberBinding? src)
  | _ => []

/-- The reading of an `import` statement. A statement without a path is none. Of several bindings of one
name the first counts. -/
def import? (src : SourceText) (statement : Tree) : Option Import :=
  match statement.childAt? .source with
  | none => none
  | some source =>
    let specs := (statement.children.filter (·.kind == .importClause)).flatMap Tree.namedChildren
    some
      { kind := (specs.findSome? specifierKind?).getD .sideEffect
        bindings := (specs.flatMap (specifierBindings src)).eraseDupsBy
          fun a b => a.localName == b.localName
        modulePath := stripQuotes (source.text src)
        typeOnly := statement.hasChildOfKind .typeKeyword }

/-! ## Binding patterns -/

mutual

/-- The names that a pattern binds, in source order. Keys of properties and default values bind
nothing. -/
def patternNames (src : SourceText) : Tree → List String
  | .node l cs =>
    match l.kind with
    | .identifier | .shorthandPropertyIdentifierPattern => [(Tree.node l cs).text src]
    | .objectPattern | .arrayPattern => patternNamesOfNamed src cs
    | .pairPattern => patternNamesAt src .value cs
    | .assignmentPattern | .objectAssignmentPattern => patternNamesAt src .left cs
    | .restPattern => patternNamesOfFirst src cs
    | _ => []

/-- The names bound by those of several trees that are named nodes. -/
def patternNamesOfNamed (src : SourceText) : List Tree → List String
  | [] => []
  | c :: cs =>
    (if c.isNamed then patternNames src c else []) ++ patternNamesOfNamed src cs

/-- The names bound by the first of several trees that plays the role `f`. -/
def patternNamesAt (src : SourceText) (f : Field) : List Tree → List String
  | [] => []
  | c :: cs => if c.field == some f then patternNames src c else patternNamesAt src f cs

/-- The names bound by the first of several trees that is a named node. -/
def patternNamesOfFirst (src : SourceText) : List Tree → List String
  | [] => []
  | c :: cs => if c.isNamed then patternNames src c else patternNamesOfFirst src cs

end

/-- The names bound by named nodes are those that each of them binds. -/
theorem patternNamesOfNamed_eq (src : SourceText) (cs : List Tree) :
    patternNamesOfNamed src cs = (cs.filter (·.isNamed)).flatMap (patternNames src) := by
  induction cs with
  | nil => rw [patternNamesOfNamed]; rfl
  | cons c cs ih =>
    rw [patternNamesOfNamed, ih, List.filter_cons]
    cases c.isNamed with
    | true => rfl
    | false => rfl

/-- The names bound in a role are those bound by the child in that role. -/
theorem patternNamesAt_eq (src : SourceText) (f : Field) (cs : List Tree) :
    patternNamesAt src f cs = ((cs.find? (·.field == some f)).map (patternNames src)).getD [] := by
  induction cs with
  | nil => rw [patternNamesAt]; rfl
  | cons c cs ih =>
    rw [patternNamesAt, List.find?_cons]
    cases c.field == some f with
    | true => rfl
    | false => exact ih

/-- The names bound at the first named child are those that this child binds. -/
theorem patternNamesOfFirst_eq (src : SourceText) (cs : List Tree) :
    patternNamesOfFirst src cs = ((cs.find? (·.isNamed)).map (patternNames src)).getD [] := by
  induction cs with
  | nil => rw [patternNamesOfFirst]; rfl
  | cons c cs ih =>
    rw [patternNamesOfFirst, List.find?_cons]
    cases c.isNamed with
    | true => rfl
    | false => exact ih

/-- The names that a pattern binds by its kind and the children it is made of. -/
theorem patternNames_eq (src : SourceText) (t : Tree) :
    patternNames src t =
      match t.kind with
      | .identifier | .shorthandPropertyIdentifierPattern => [t.text src]
      | .objectPattern | .arrayPattern => t.namedChildren.flatMap (patternNames src)
      | .pairPattern => ((t.childAt? .value).map (patternNames src)).getD []
      | .assignmentPattern | .objectAssignmentPattern =>
        ((t.childAt? .left).map (patternNames src)).getD []
      | .restPattern => (t.firstNamed?.map (patternNames src)).getD []
      | _ => [] := by
  obtain ⟨l, cs⟩ := t
  rw [patternNames, patternNamesOfNamed_eq, patternNamesAt_eq, patternNamesAt_eq, patternNamesOfFirst_eq]
  rfl

/-! ## Requires -/

/-- Whether a call calls `require`. -/
def isRequireCall (src : SourceText) (call : Tree) : Bool :=
  match call.childAt? .function with
  | some f => f.kind == .identifier && f.text src == "require"
  | none => false

/-- Whether the value of a node is taken over by its parent: the parent reads a member of it, calls it,
puts it into parentheses or awaits it. -/
def Crumb.passesValue (c : Crumb) : Bool :=
  match c.parent.kind with
  | .memberExpression => c.fills .object
  | .callExpression => c.fills .function
  | .parenthesizedExpression | .awaitExpression => true
  | _ => false

/-- Climbs from a node as long as its value is taken over, to the declaration that this value initialises.
The answer is the declaration and the steps above it. -/
def declaratorAbove? : List Crumb → Option (Tree × List Crumb)
  | [] => none
  | c :: above =>
    if c.passesValue then declaratorAbove? above
    else if c.parent.kind == .variableDeclarator && c.fills .value then some (c.parent, above)
    else none

/-- The text of a call's first argument, if that is a literal without computed parts. -/
def literalArgument? (src : SourceText) (call : Tree) : Option String := do
  let arguments ← call.childAt? .arguments
  let first ← arguments.firstNamed?
  match first.kind with
  | .string => some (stripQuotes (first.text src))
  | .templateString =>
    if first.namedChildren.any (·.kind == .templateSubstitution) then none
    else some (stripQuotes (first.text src))
  | _ => none

/-- The word a declaration begins with, given the steps above one of its parts. -/
def declarationKeyword (src : SourceText) (above : List Crumb) : String :=
  match above with
  | c :: _ => (c.parent.children.head?.map (·.text src)).getD "const"
  | [] => "const"

/-- The findings at a call: one require for each name of the declaration that the call initialises. A path
that is computed and a pattern without names are reported instead. -/
def requireFindings (src : SourceText) (p : Locus) : List Finding :=
  if !isRequireCall src p.node then []
  else
    match declaratorAbove? p.above with
    | none => []
    | some (declarator, above) =>
      match declarator.childAt? .name with
      | none => []
      | some pattern =>
        match literalArgument? src p.node with
        | none => [.flagged ⟨.computedPath, p.node.line src⟩]
        | some modulePath =>
          let names := patternNames src pattern
          if names.isEmpty then [.flagged ⟨.emptyPattern, pattern.line src⟩]
          else
            let statement := declarationKeyword src above ++ " " ++ declarator.text src ++ ";"
            names.map fun name => .required ⟨name, modulePath, statement⟩

end TestScaffold
