import TestScaffold.Findings.Basic
import TestScaffold.Findings.Scope

set_option autoImplicit false

/-!
# Functions

A function declaration has a name of its own. A function expression is a unit only if it is bound to a
name: it initialises a variable, or it is assigned to a name or to a member of something.

## Main definitions

* `TestScaffold.FunctionName`, `TestScaffold.FunctionName.ofChain?` — a name with what qualifies it.
* `TestScaffold.boundName?` — the name a function expression is bound to.
* `TestScaffold.declarationFindings`, `TestScaffold.functionExpressionFindings` — functions as findings.

## Implementation notes

A function attached to the `prototype` of something belongs to the objects made by it. The segments
`prototype` are left out of the qualifier, and the position of the name before the first of them is kept.
-/

namespace TestScaffold

/-- The name a function is bound to, with what it is reached through. -/
structure FunctionName where
  /-- The last name. -/
  name : String
  /-- The names before it, without the segments `prototype`. -/
  qualifier : List String
  /-- The position in `qualifier` of the name whose `prototype` is meant. -/
  ownerIndex : Option Nat
deriving DecidableEq, Repr

/-- The member that holds what all objects made by a function share. -/
def prototypeWord : String := "prototype"

/-- The position, among the segments other than `prototype`, of the one before the first `prototype` that
has such a segment before it. -/
def ownerIndex? (qualifier : List String) : Option Nat :=
  let named := qualifier.dropWhile (· == prototypeWord)
  let owned := named.takeWhile (· != prototypeWord)
  if owned.length < named.length then some (owned.length - 1) else none

/-- Splits a chain of names into the last one and what qualifies it. -/
def FunctionName.ofChain? (chain : List String) : Option FunctionName :=
  match chain.getLast? with
  | none => none
  | some name =>
    some
      { name
        qualifier := chain.dropLast.filter (· != prototypeWord)
        ownerIndex := ownerIndex? chain.dropLast }

/-- The chain of names that an assignment assigns to. -/
def assignedChain? (src : SourceText) (target : Tree) : Option (List String) :=
  match target.kind with
  | .identifier => some [target.text src]
  | .memberExpression => some (nameChain src target)
  | _ => none

/-- The name that the node at a place is assigned to. -/
def assignedName? (src : SourceText) (p : Locus) : Option FunctionName :=
  match p.above with
  | [] => none
  | c :: _ =>
    if c.parent.kind == .assignmentExpression && c.fills .right then do
      let left ← c.parent.childAt? .left
      let chain ← assignedChain? src left
      FunctionName.ofChain? chain
    else none

/-- The name that the node at a place is bound to: that of the variable it initialises, or what it is
assigned to. -/
def boundName? (src : SourceText) (p : Locus) : Option FunctionName :=
  ((initialisedVariable? src p).map fun name => ⟨name, [], none⟩).or (assignedName? src p)

/-- The function at a node under a given name. -/
def functionReading (src : SourceText) (func : Tree) (name : FunctionName) :
    Reading FunctionUnit :=
  let facts := scopeFacts src func
  { unit :=
      { name := name.name
        role := .function
        parameters := facts.parameters
        locals := facts.locals
        calls := facts.calls
        returns := facts.returns
        qualifier := name.qualifier
        ownerIndex := name.ownerIndex }
    diagnostics := parameterDiagnostics src func }

/-- The finding at a function declaration. -/
def declarationFindings (src : SourceText) (func : Tree) : List Finding :=
  match func.childAt? .name with
  | some name => [.functionFound (functionReading src func ⟨name.text src, [], none⟩)]
  | none => []

/-- The finding at a function expression; none if it is bound to no name. -/
def functionExpressionFindings (src : SourceText) (p : Locus) : List Finding :=
  match boundName? src p with
  | some name => [.functionFound (functionReading src p.node name)]
  | none => []

end TestScaffold
