import TestScaffold.Syntax.Tree

set_option autoImplicit false

/-!
# Places in a syntax tree

Two equal subtrees may stand at different places, so what depends on the surroundings of a node is asked
of a *locus*: the node together with the path of steps that leads down to it.

## Main definitions

* `TestScaffold.Crumb`, `TestScaffold.Locus` — one step downwards, and a node with the steps above it.
* `TestScaffold.Crumb.fills` — whether a step goes to the child that plays a given role.
* `TestScaffold.Tree.loci` — every place of a tree in document order.
* `TestScaffold.Locus.down?`, `TestScaffold.Locus.next?`, `TestScaffold.Locus.up?` — single moves.
* `TestScaffold.Locus.onward?` — the move to the place to visit next.
* `TestScaffold.Locus.traverse`, `TestScaffold.Tree.traverse` — visiting a tree by moving about, with a state.

## Main results

* `TestScaffold.Tree.map_node_loci` — the nodes at the loci are the nodes in document order.
* `TestScaffold.Locus.countFrom_lt_of_onward?` — every move goes forward, so a traversal ends.
-/

namespace TestScaffold

/-- One step from a node to one of its children. -/
structure Crumb where
  /-- The node stepped from. -/
  parent : Tree
  /-- The position of the child stepped to. -/
  index : Nat
deriving Repr

/-- A node of a tree and the steps that lead to it, the last step first. -/
structure Locus where
  /-- The node at this place. -/
  node : Tree
  /-- The steps that lead here, the nearest first. -/
  above : List Crumb
deriving Repr

/-- Whether the step goes to the first child in the role `f`, the one that role denotes. -/
def Crumb.fills (c : Crumb) (f : Field) : Bool :=
  c.parent.childIndex? f == some c.index

namespace Tree

mutual

/-- Every place of a tree in document order, below the given steps. -/
def loci (above : List Crumb) : Tree → List Locus
  | node l cs => ⟨node l cs, above⟩ :: lociBelow (node l cs) above 0 cs

/-- Every place below `parent` in document order, from its child at position `i` on. -/
def lociBelow (parent : Tree) (above : List Crumb) (i : Nat) : List Tree → List Locus
  | [] => []
  | c :: cs => loci (⟨parent, i⟩ :: above) c ++ lociBelow parent above (i + 1) cs

end

mutual

/-- The nodes at the loci of a tree are its nodes in document order. -/
theorem map_node_loci (above : List Crumb) :
    ∀ t : Tree, (t.loci above).map (·.node) = t.preorder
  | node l cs => by
    rw [loci, preorder, List.map_cons, map_node_lociBelow (node l cs) above 0 cs]

/-- The nodes at the loci below a node are the nodes of its children in document order. -/
theorem map_node_lociBelow (parent : Tree) (above : List Crumb) (i : Nat) :
    ∀ cs : List Tree, (lociBelow parent above i cs).map (·.node) = preorderAll cs
  | [] => by rw [lociBelow, preorderAll, List.map_nil]
  | c :: cs => by
    rw [lociBelow, preorderAll, List.map_append, map_node_loci _ c,
      map_node_lociBelow parent above (i + 1) cs]

end

/-- A tree has a node. -/
theorem length_preorder_pos (t : Tree) : 0 < t.preorder.length := by
  cases t
  exact Nat.succ_pos _

end Tree

/-! ## Moving about -/

namespace Locus

/-- The place of the first child. -/
def down? (p : Locus) : Option Locus :=
  p.node.children.head?.map fun c => ⟨c, ⟨p.node, 0⟩ :: p.above⟩

/-- The place of the next sibling. -/
def next? (p : Locus) : Option Locus :=
  match p.above with
  | [] => none
  | c :: above =>
    c.parent.children[c.index + 1]?.map fun t => ⟨t, ⟨c.parent, c.index + 1⟩ :: above⟩

/-- The place of the parent. -/
def up? (p : Locus) : Option Locus :=
  match p.above with
  | [] => none
  | c :: above => some ⟨c.parent, above⟩

/-- The place that follows everything below the last of the steps: its next sibling, or that of the nearest
node above it that has one. -/
def afterSteps? : List Crumb → Option Locus
  | [] => none
  | c :: above =>
    match c.parent.children[c.index + 1]? with
    | some t => some ⟨t, ⟨c.parent, c.index + 1⟩ :: above⟩
    | none => afterSteps? above

/-- The place that follows this node and everything below it. -/
def after? (p : Locus) : Option Locus := afterSteps? p.above

/-- What follows a node is its next sibling, or else what follows its parent. -/
theorem after?_eq (p : Locus) : p.after? = p.next?.or (p.up?.bind after?) := by
  obtain ⟨t, above⟩ := p
  cases above with
  | nil => rfl
  | cons c above =>
    simp only [after?, afterSteps?, next?, up?, Option.bind_some]
    cases c.parent.children[c.index + 1]? <;> rfl

/-- The place to go to from here: into the node if that is wanted and possible, else past it. -/
def onward? (p : Locus) (enter : Bool) : Option Locus :=
  (if enter then p.down? else none).or p.after?

/-! ## What is ahead -/

/-- The number of nodes that follow what the steps lead to and everything below it. -/
def countAfter : List Crumb → Nat
  | [] => 0
  | c :: above => (Tree.preorderAll (c.parent.children.drop (c.index + 1))).length + countAfter above

/-- The number of nodes from a place on, in document order. -/
def countFrom (p : Locus) : Nat := p.node.preorder.length + countAfter p.above

/-- The nodes after some steps are those from the place on that follows them. -/
theorem countFrom_of_afterSteps? {above : List Crumb} {q : Locus} (h : afterSteps? above = some q) :
    q.countFrom = countAfter above := by
  induction above with
  | nil => cases h
  | cons c above ih =>
    rw [afterSteps?] at h
    cases hnext : c.parent.children[c.index + 1]? with
    | some sibling =>
      rw [hnext] at h
      obtain ⟨hlt, hsibling⟩ := List.getElem?_eq_some_iff.1 hnext
      cases h
      simp only [countFrom, countAfter]
      rw [List.drop_eq_getElem_cons hlt, hsibling, Tree.preorderAll, List.length_append]
      omega
    | none =>
      -- There is nothing left beside this step, so the count is that for the steps above it.
      rw [hnext] at h
      rw [ih h, countAfter, List.drop_eq_nil_of_le (List.getElem?_eq_none_iff.1 hnext), Tree.preorderAll,
        List.length_nil, Nat.zero_add]

/-- The nodes from a node on are this node and those from its first child on. -/
theorem countFrom_of_down? {p q : Locus} (h : p.down? = some q) : p.countFrom = q.countFrom + 1 := by
  obtain ⟨⟨l, cs⟩, above⟩ := p
  cases cs with
  | nil => cases h
  | cons c cs =>
    cases h
    simp only [countFrom, countAfter, Tree.preorder, Tree.preorderAll, List.length_cons, List.length_append,
      Tree.children, List.drop_succ_cons, List.drop_zero]
    omega

/-- Every move goes forward in document order. -/
theorem countFrom_lt_of_onward? {p q : Locus} {enter : Bool} (h : p.onward? enter = some q) :
    q.countFrom < p.countFrom := by
  have hpast : p.after? = some q → q.countFrom < p.countFrom := fun hafter => by
    have hpos := p.node.length_preorder_pos
    rw [countFrom_of_afterSteps? hafter, countFrom]
    omega
  unfold onward? at h
  rcases Option.or_eq_some_iff.1 h with hdown | ⟨-, hafter⟩
  · cases enter with
    | false => cases hdown
    | true =>
      rw [countFrom_of_down? hdown]
      exact Nat.lt_succ_self _
  · exact hpast hafter

/-! ## Traversal -/

universe u

/-- The place that the steps to `r` and, from there on, those to `p` lead to. -/
def under (r p : Locus) : Locus := ⟨p.node, p.above ++ r.above⟩

/-- Visits the places from `p` on, where `p` is given by the steps from `r` on. A visit sees the place and the
state, and answers with the new state and whether to go into the node. -/
def visitFrom {σ : Type u} (visit : σ → Locus → σ × Bool) (r : Locus) (s : σ) (p : Locus) : σ :=
  let answer := visit s (r.under p)
  match _hmove : p.onward? answer.2 with
  | none => answer.1
  | some q => visitFrom visit r answer.1 q
termination_by p.countFrom
decreasing_by exact countFrom_lt_of_onward? _hmove

/-- Visits a node and what stands below it by moving about. The moves begin at the node as if nothing were
above it, so they do not lead out of it. -/
def traverse {σ : Type u} (visit : σ → Locus → σ × Bool) (s : σ) (r : Locus) : σ :=
  visitFrom visit r s ⟨r.node, []⟩

end Locus

/-- Visits a tree from its root, where a visit sees the node only. -/
def Tree.traverse {σ : Type} (visit : σ → Tree → σ × Bool) (s : σ) (t : Tree) : σ :=
  Locus.traverse (fun s p => visit s p.node) s ⟨t, []⟩

end TestScaffold
