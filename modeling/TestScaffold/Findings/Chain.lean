import TestScaffold.Syntax.Tree
import TestScaffold.Module.CallChain

set_option autoImplicit false

/-!
# Member chains and calls

A member access such as `lib.a.b` is read as the chain of its names, and a call as the chain of what it
calls.

## Main definitions

* `TestScaffold.nameChain` — the names of a member access.
* `TestScaffold.callChain?` — the chain of one call.
* `TestScaffold.callChains` — the calls below a node.

## Implementation notes

An object that is neither a name, the own object nor a member access, such as the result of a call, has no
name of its own and contributes nothing to the chain.
-/

namespace TestScaffold

mutual

/-- The names of a member access from the outermost object on. -/
def nameChain (src : SourceText) : Tree → List String
  | .node l cs =>
    match l.kind with
    | .identifier => [(Tree.node l cs).text src]
    | .this => [CallChain.selfWord]
    | .memberExpression =>
      nameChainAt src .object cs ++ ((Tree.node l cs).childAt? .property).toList.map (·.text src)
    | _ => []

/-- The names of the first of several trees that plays the role `f`; none if there is no such tree. -/
def nameChainAt (src : SourceText) (f : Field) : List Tree → List String
  | [] => []
  | c :: cs => if c.field == some f then nameChain src c else nameChainAt src f cs

end

/-- The names read at a role are those of the child in this role. -/
theorem nameChainAt_eq (src : SourceText) (f : Field) (cs : List Tree) :
    nameChainAt src f cs = ((cs.find? (·.field == some f)).map (nameChain src)).getD [] := by
  induction cs with
  | nil => rw [nameChainAt]; rfl
  | cons c cs ih =>
    rw [nameChainAt, List.find?_cons]
    cases h : c.field == some f with
    | true => rfl
    | false => exact ih

/-- The names of a node by its kind and the children in its roles. -/
theorem nameChain_eq (src : SourceText) (t : Tree) :
    nameChain src t =
      match t.kind with
      | .identifier => [t.text src]
      | .this => [CallChain.selfWord]
      | .memberExpression =>
        ((t.childAt? .object).map (nameChain src)).getD [] ++
          (t.childAt? .property).toList.map (·.text src)
      | _ => [] := by
  obtain ⟨l, cs⟩ := t
  rw [nameChain, nameChainAt_eq]
  rfl

/-- The chain of a call. A call of something without a name, such as a function written in place, has
none. -/
def callChain? (src : SourceText) (call : Tree) : Option CallChain := do
  let callee ← call.childAt? .function
  let chain :=
    match callee.kind with
    | .identifier => [callee.text src]
    | .memberExpression => nameChain src callee
    | _ => []
  if chain.isEmpty then none else some ⟨chain⟩

/-- The chains of all calls below a node in document order, those in nested functions and classes
included. -/
def callChains (src : SourceText) (body : Tree) : List CallChain :=
  (body.preorder.filter (·.kind == .callExpression)).filterMap (callChain? src)

end TestScaffold
