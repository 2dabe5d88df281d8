import TestScaffold.Scaffold.Statement
import TestScaffold.Module.Usage

set_option autoImplicit false

/-!
# Mock trees

What a module calls through one imported name, as a tree of members: paths with a common beginning share
it. A node is marked if it is called itself. Written out, a node becomes a mock function, an object, or a
mock function with members.

## Main definitions

* `TestScaffold.MockTree`, `TestScaffold.MockTree.insert` — trees and the adding of a path.
* `TestScaffold.MockTree.ofUsage` — the tree of one library usage.
* `TestScaffold.MockTree.render` — the entry of a substitute module.
-/

namespace TestScaffold

/-- Members reached through one name. -/
inductive MockTree where
  /-- A member, whether it is called, and the members reached through it in the order of first use. -/
  | node (segment : String) (called : Bool) (children : List MockTree)
deriving Repr

namespace MockTree

/-- The name of the root. -/
def segment : MockTree → String
  | node s _ _ => s

/-- Whether the root is called. -/
def called : MockTree → Bool
  | node _ c _ => c

/-- The members of the root. -/
def children : MockTree → List MockTree
  | node _ _ cs => cs

/-- Changes the first tree named `name` by `f`; if there is none, a new one is changed and put last. -/
def updateFirst (f : MockTree → MockTree) (name : String) : List MockTree → List MockTree
  | [] => [f (node name false [])]
  | t :: ts => if t.segment == name then f t :: ts else t :: updateFirst f name ts

/-- The tree with what the path leads to marked as called. -/
def insert : List String → MockTree → MockTree
  | [], node s _ cs => node s true cs
  | name :: path, node s c cs => node s c (updateFirst (insert path) name cs)

/-- The tree with several paths inserted one after the other. -/
def insertAll (paths : List (List String)) (t : MockTree) : MockTree :=
  paths.foldl (fun t path => t.insert path) t

/-- The tree of a library under the name `key`. The library itself is called only if nothing is reached
through it. -/
def ofUsage (key : String) (u : Usage) : MockTree :=
  let t := insertAll u.paths (node key u.paths.isEmpty [])
  if t.children.isEmpty then t else node t.segment false t.children

mutual

/-- The entry of a tree in an object, with `comma` at its end. -/
def render (comma : String) : MockTree → Statement
  | node s _ [] => .line (s ++ ": jest.fn()" ++ comma)
  | node s c (t :: ts) =>
    if c then
      .block (s ++ ": Object.assign(jest.fn(), \x7b") (renderAll (t :: ts)) ("\x7d)" ++ comma)
    else .block (s ++ ": \x7b") (renderAll (t :: ts)) ("\x7d" ++ comma)

/-- The entries of several trees, with a comma after each but the last. -/
def renderAll : List MockTree → List Statement
  | [] => []
  | [t] => [render "" t]
  | t :: u :: ts => render "," t :: renderAll (u :: ts)

end

end MockTree

end TestScaffold
