import TestScaffold.Syntax.Kind
import TestScaffold.Text.Source

set_option autoImplicit false

/-!
# Syntax trees

A syntax tree is a labelled rose tree over a source text. A label gives the kind of the node, whether it
is named, the fault the parser found there, the byte range of the text it covers and its role in its
parent.

## Main definitions

* `TestScaffold.Label`, `TestScaffold.Tree` — labels and trees.
* `TestScaffold.Tree.childAt?`, `TestScaffold.Tree.namedChildren` — children by field and by name.
* `TestScaffold.Tree.text`, `TestScaffold.Tree.line` — what a node covers and where it begins.
* `TestScaffold.Tree.preorder` — all nodes in document order.
* `TestScaffold.Tree.preorderWhile` — the nodes in document order, leaving out what stands below the nodes
  that are not to be entered.
* `TestScaffold.Tree.ownNodes` — the nodes of one function body that belong to its own scope.
* `TestScaffold.Tree.firstFault?` — the first faulty node in document order.

## Implementation notes

Functions over a tree come in pairs, one for a tree and one for a list of trees, so that the recursion
is structural and concrete trees can be evaluated.
-/

namespace TestScaffold

/-- What a parser may find wrong at a node. -/
inductive Fault where
  /-- The text at the node fits no rule of the grammar. -/
  | error
  /-- The node is not in the text; the parser supplied it. -/
  | missing
deriving DecidableEq, Repr

/-- The description of one syntax node. -/
structure Label where
  /-- The grammar rule of the node. -/
  kind : Kind
  /-- Whether the node is named in the grammar; the others are tokens such as a brace or a keyword. -/
  named : Bool
  /-- What the parser found wrong at the node itself. -/
  fault : Option Fault
  /-- The byte offset of the first byte of the node's text. -/
  start : Nat
  /-- The byte offset after the last byte of the node's text. -/
  stop : Nat
  /-- The role of the node in its parent. -/
  field : Option Field
deriving DecidableEq, Repr

/-- A syntax tree. -/
inductive Tree where
  /-- A node with its children in document order. -/
  | node (label : Label) (children : List Tree)
deriving Repr

namespace Tree

/-- The label of the root. -/
def label : Tree → Label
  | node l _ => l

/-- The children of the root, in document order. -/
def children : Tree → List Tree
  | node _ cs => cs

/-- The kind of the root. -/
def kind (t : Tree) : Kind := t.label.kind

/-- The role of the root in its parent. -/
def field (t : Tree) : Option Field := t.label.field

/-- Whether the root is a named node. -/
def isNamed (t : Tree) : Bool := t.label.named

/-- The children that are named nodes. -/
def namedChildren (t : Tree) : List Tree := t.children.filter isNamed

/-- The first child that is a named node. -/
def firstNamed? (t : Tree) : Option Tree := t.children.find? isNamed

/-- The first child in the role `f`. -/
def childAt? (t : Tree) (f : Field) : Option Tree :=
  t.children.find? (·.field == some f)

/-- The position of the first child in the role `f` among all children. -/
def childIndex? (t : Tree) (f : Field) : Option Nat :=
  t.children.findIdx? (·.field == some f)

/-- Whether some child, named or not, is of kind `k`. -/
def hasChildOfKind (t : Tree) (k : Kind) : Bool := t.children.any (·.kind == k)

/-- The source text that the root covers. -/
def text (src : SourceText) (t : Tree) : String := src.slice t.label.start t.label.stop

/-- The line where the root begins, counted from one. -/
def line (src : SourceText) (t : Tree) : Nat := src.line t.label.start

/-- The column where the root begins, in bytes, counted from one. -/
def column (src : SourceText) (t : Tree) : Nat := src.column t.label.start

mutual

/-- What holds of a tree if it holds of its children holds of every tree. -/
theorem inductionOn_children {P : Tree → Prop} (h : ∀ t : Tree, (∀ c ∈ t.children, P c) → P t) :
    ∀ t : Tree, P t
  | node l cs => h (node l cs) (inductionOn_children_all h cs)

/-- What holds of a tree if it holds of its children holds of each of several trees. -/
theorem inductionOn_children_all {P : Tree → Prop} (h : ∀ t : Tree, (∀ c ∈ t.children, P c) → P t) :
    ∀ cs : List Tree, ∀ c ∈ cs, P c
  | [] => fun _ hc => nomatch hc
  | c :: cs => List.forall_mem_cons.2 ⟨inductionOn_children h c, inductionOn_children_all h cs⟩

end

/-! ## Document order -/

mutual

/-- All nodes of a tree in document order, a node before its children. -/
def preorder : Tree → List Tree
  | node l cs => node l cs :: preorderAll cs

/-- All nodes of a list of trees in document order. -/
def preorderAll : List Tree → List Tree
  | [] => []
  | c :: cs => preorder c ++ preorderAll cs

end

mutual

/-- The nodes of a tree in document order, where only a node that satisfies `enter` is followed by what
stands below it. -/
def preorderWhile (enter : Tree → Bool) : Tree → List Tree
  | node l cs => node l cs :: if enter (node l cs) then preorderWhileAll enter cs else []

/-- The nodes of a list of trees in document order, entered as by `TestScaffold.Tree.preorderWhile`. -/
def preorderWhileAll (enter : Tree → Bool) : List Tree → List Tree
  | [] => []
  | c :: cs => preorderWhile enter c ++ preorderWhileAll enter cs

end

mutual

/-- If every node is entered, no node is left out. -/
theorem preorderWhile_true : ∀ t : Tree, t.preorderWhile (fun _ => true) = t.preorder
  | node l cs => by rw [preorderWhile, preorder, if_pos rfl, preorderWhileAll_true cs]

/-- If every node is entered, no node of several trees is left out. -/
theorem preorderWhileAll_true : ∀ cs : List Tree, preorderWhileAll (fun _ => true) cs = preorderAll cs
  | [] => by rw [preorderWhileAll, preorderAll]
  | c :: cs => by
    rw [preorderWhileAll, preorderAll, preorderWhile_true c, preorderWhileAll_true cs]

end

/-- The nodes that belong to the scope of a function body: the body itself and every node with no
function, method or class strictly between it and the body. A nested function is such a node; what
stands inside it is not. -/
def ownNodes (body : Tree) : List Tree :=
  body :: preorderWhileAll (fun t => !t.kind.opensScope) body.children

/-! ## Faults -/

mutual

/-- Whether a node of the tree is faulty. -/
def hasFault : Tree → Bool
  | node l cs => l.fault.isSome || anyHasFault cs

/-- Whether a node of one of the trees is faulty. -/
def anyHasFault : List Tree → Bool
  | [] => false
  | c :: cs => hasFault c || anyHasFault cs

end

mutual

/-- The first faulty node in document order. A subtree without a faulty node is passed over. -/
def firstFault? : Tree → Option Tree
  | node l cs =>
    if l.fault.isSome then some (node l cs)
    else if hasFault (node l cs) then firstFaultAmong? cs
    else none

/-- The first faulty node of a list of trees in document order. -/
def firstFaultAmong? : List Tree → Option Tree
  | [] => none
  | c :: cs => (firstFault? c).or (firstFaultAmong? cs)

end

end Tree

end TestScaffold
