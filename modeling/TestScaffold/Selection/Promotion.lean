import TestScaffold.Module.Unit

set_option autoImplicit false

/-!
# Constructor functions

In a module without classes, a function that other functions are attached to sets up objects: it is
promoted to a constructor.

## Main definitions

* `TestScaffold.isReferencedAt` — whether another function is attached to the one at a position.
* `TestScaffold.promotedIndex?` — the position of the function to promote.
* `TestScaffold.promoteConstructor` — the functions with that one promoted.
-/

namespace TestScaffold

/-- Whether the qualifier of a function mentions a name. -/
def FunctionUnit.mentions (f : FunctionUnit) (name : String) : Bool := f.qualifier.contains name

/-- Whether the function at position `i` is named `name` and some function at another position has this
name in its qualifier. -/
def isReferencedAt (functions : List FunctionUnit) (i : Nat) : Bool :=
  match functions[i]? with
  | some candidate =>
    functions.zipIdx.any fun (f, j) => j != i && f.mentions candidate.name
  | none => false

/-- The last position of a function that another function is attached to. -/
def promotedIndex? (functions : List FunctionUnit) : Option Nat :=
  ((List.range functions.length).filter (isReferencedAt functions)).getLast?

/-- The functions, with the last one that another is attached to made a constructor. -/
def promoteConstructor (functions : List FunctionUnit) : List FunctionUnit :=
  match promotedIndex? functions with
  | some i => functions.modify i fun f => { f with role := .constructor }
  | none => functions

/-- Promotion keeps the number of functions. -/
@[simp] theorem length_promoteConstructor (functions : List FunctionUnit) :
    (promoteConstructor functions).length = functions.length := by
  unfold promoteConstructor
  split <;> simp

end TestScaffold
