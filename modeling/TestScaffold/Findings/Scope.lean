import TestScaffold.Syntax.Locus
import TestScaffold.Findings.Chain
import TestScaffold.Findings.Parameters

set_option autoImplicit false

/-!
# What a function body reveals

The variables a body declares, the members of the own object it assigns to and whether it returns are
facts about its own scope: what stands inside a nested function or class does not count. Calls count
wherever they stand below the body.

## Main definitions

* `TestScaffold.ScopeFacts`, `TestScaffold.scopeFacts` — all that is read off a function-like node.
* `TestScaffold.declaredName?`, `TestScaffold.writtenMember?` — what a single node contributes.
* `TestScaffold.initialisedVariable?` — the variable that a function or class is the value of.
-/

namespace TestScaffold

/-- What is read off a function-like node. -/
structure ScopeFacts where
  /-- The names of the parameters. -/
  parameters : List String
  /-- The names of the declared variables in document order. -/
  locals : List String
  /-- The members of the own object that are assigned to, in the order of their first assignments. -/
  writtenMembers : List String
  /-- The calls in document order. -/
  calls : List CallChain
  /-- Whether a value is returned. -/
  returns : Bool
deriving DecidableEq, Repr

/-- The name of a child in the role `f`, if that child is a plain name. -/
def identifierAt? (src : SourceText) (f : Field) (t : Tree) : Option String :=
  match t.childAt? f with
  | some c => if c.kind == .identifier then some (c.text src) else none
  | none => none

/-- The variable that the node at a place initialises, if it has a plain name. -/
def initialisedVariable? (src : SourceText) (p : Locus) : Option String :=
  match p.above with
  | [] => none
  | c :: _ =>
    if c.parent.kind == .variableDeclarator && c.fills .value then
      identifierAt? src .name c.parent
    else none

/-- The variable that a node declares. -/
def declaredName? (src : SourceText) (t : Tree) : Option String :=
  if t.kind == .variableDeclarator then identifierAt? src .name t else none

/-- The member of the own object that a node assigns to. -/
def writtenMember? (src : SourceText) (t : Tree) : Option String := do
  guard (t.kind == .assignmentExpression)
  let left ← t.childAt? .left
  guard (left.kind == .memberExpression)
  let object ← left.childAt? .object
  let property ← left.childAt? .property
  guard (object.kind == .this)
  return property.text src

/-- Whether a body returns a value: an expression does by itself, a block by a `return` of its own. -/
def returns (body : Tree) : Bool :=
  body.kind != .statementBlock || body.ownNodes.any (·.kind == .returnStatement)

/-- The facts about a function declaration, function expression, arrow function or method. Without a body
there are only parameters. -/
def scopeFacts (src : SourceText) (func : Tree) : ScopeFacts :=
  match func.childAt? .body with
  | none =>
    { parameters := parameterNames src func
      locals := []
      writtenMembers := []
      calls := []
      returns := false }
  | some body =>
    { parameters := parameterNames src func
      locals := body.ownNodes.filterMap (declaredName? src)
      writtenMembers := (body.ownNodes.filterMap (writtenMember? src)).eraseDups
      calls := callChains src body
      returns := returns body }

end TestScaffold
