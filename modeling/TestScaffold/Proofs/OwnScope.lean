import Mathlib.Data.Option.Basic
import TestScaffold.Findings.Scope

set_option autoImplicit false

/-!
# The scope of a body

The nodes of the scope of a body are those below it with no function, method or class strictly between. What is
read off them, such as the members of the own object that they assign to, is picked out in document order.

## Main definitions

* `TestScaffold.PickedOut` — a list holds what is read off those entries of another that anything is read off.
* `TestScaffold.Tree.IsOwnNode` — a node is in the scope of a body.
* `TestScaffold.Tree.DeclaresVariable`, `TestScaffold.Tree.WritesField` — a node declares a variable, or assigns to
  a member of the own object.

## Main results

* `TestScaffold.pickedOut_iff` — what a function reads is picked out, and nothing else is.
* `TestScaffold.Tree.mem_ownNodes_iff` — the nodes of the scope of a body.
-/

namespace TestScaffold

/-! ## Picking out -/

section PickedOut

variable {α β : Type} {R : α → β → Prop} {xs : List α} {ys : List β}

/-- `PickedOut R xs ys`: the list `ys` holds, in order, what `R` reads off the entries of `xs`. Entries that nothing
is read off are passed over. -/
inductive PickedOut (R : α → β → Prop) : List α → List β → Prop where
  /-- Nothing is read off no entries. -/
  | nil : PickedOut R [] []
  /-- What is read off an entry stands before what is read off the later ones. -/
  | keep {a : α} {b : β} {xs : List α} {ys : List β} (hkeep : R a b) (hrest : PickedOut R xs ys) :
    PickedOut R (a :: xs) (b :: ys)
  /-- An entry that nothing is read off is passed over. -/
  | skip {a : α} {xs : List α} {ys : List β} (hskip : ∀ b, ¬R a b) (hrest : PickedOut R xs ys) :
    PickedOut R (a :: xs) ys

/-- What a function reads is picked out, and nothing else is. -/
theorem pickedOut_iff {f : α → Option β} (hf : ∀ a b, f a = some b ↔ R a b) :
    PickedOut R xs ys ↔ ys = xs.filterMap f := by
  have hskip : ∀ {a}, f a = none ↔ ∀ b, ¬R a b := by
    intro a
    simp [Option.eq_none_iff_forall_not_mem, hf]
  constructor
  · intro h
    induction h with
    | nil => rfl
    | keep hkeep _ ih => rw [List.filterMap_cons_some ((hf _ _).2 hkeep), ih]
    | skip hnone _ ih => rw [List.filterMap_cons_none (hskip.2 hnone), ih]
  · rintro rfl
    induction xs with
    | nil => exact .nil
    | cons a xs ih =>
      cases ha : f a with
      | none =>
        rw [List.filterMap_cons_none ha]
        exact .skip (hskip.1 ha) ih
      | some b =>
        rw [List.filterMap_cons_some ha]
        exact .keep ((hf a b).1 ha) ih

/-- What a function reads off an entry is picked out. -/
theorem PickedOut.mem_iff {f : α → Option β} (hf : ∀ a b, f a = some b ↔ R a b) (h : PickedOut R xs ys) {b : β} :
    b ∈ ys ↔ ∃ a ∈ xs, R a b := by
  rw [(pickedOut_iff hf).1 h, List.mem_filterMap]
  simp only [hf]

end PickedOut

/-! ## The scope of a body -/

namespace Tree

/-- `body.IsOwnNode t`: the node `t` is in the scope of a body. It is the body itself, or it stands below it and no
function, method or class is strictly between. -/
inductive IsOwnNode (body : Tree) : Tree → Prop where
  /-- The body is in its scope. -/
  | body : IsOwnNode body body
  /-- So is what stands directly below it. -/
  | child {c : Tree} (hc : c ∈ body.children) : IsOwnNode body c
  /-- So is what stands directly below a node that has no scope of its own. -/
  | step {t c : Tree} (ht : IsOwnNode body t) (hscope : t.kind.opensScope = false) (hc : c ∈ t.children) :
    IsOwnNode body c

/-- The nodes of several trees are those of each. -/
theorem preorderWhileAll_eq_flatMap (enter : Tree → Bool) (cs : List Tree) :
    preorderWhileAll enter cs = cs.flatMap (preorderWhile enter) := by
  induction cs with
  | nil => rw [preorderWhileAll]; rfl
  | cons c cs ih => rw [preorderWhileAll, List.flatMap_cons, ih]

/-- A node of a tree is the root, or a node below it if the root is entered. -/
theorem mem_preorderWhile_iff {enter : Tree → Bool} {s t : Tree} :
    t ∈ preorderWhile enter s ↔ t = s ∨ enter s = true ∧ ∃ c ∈ s.children, t ∈ preorderWhile enter c := by
  obtain ⟨l, cs⟩ := s
  rw [preorderWhile, List.mem_cons, preorderWhileAll_eq_flatMap]
  by_cases henter : enter (node l cs) = true <;> simp [henter, children]

/-- What stands below an entered node of a tree is a node of the tree. -/
theorem mem_preorderWhile_of_mem_children {enter : Tree → Bool} {t c : Tree} (ht : enter t = true)
    (hc : c ∈ t.children) : ∀ s : Tree, t ∈ preorderWhile enter s → c ∈ preorderWhile enter s := by
  refine inductionOn_children fun s ih h => ?_
  rcases mem_preorderWhile_iff.1 h with rfl | ⟨henter, d, hd, h⟩
  · exact mem_preorderWhile_iff.2 (Or.inr ⟨ht, c, hc, mem_preorderWhile_iff.2 (Or.inl rfl)⟩)
  · exact mem_preorderWhile_iff.2 (Or.inr ⟨henter, d, hd, ih d hd h⟩)

/-- **The nodes of the scope of a body** are the body, and what stands below it with no function, method or class
strictly between. -/
theorem mem_ownNodes_iff {body t : Tree} : t ∈ body.ownNodes ↔ body.IsOwnNode t := by
  have hown : t ∈ body.ownNodes ↔
      t = body ∨ ∃ c ∈ body.children, t ∈ preorderWhile (fun u => !u.kind.opensScope) c := by
    rw [ownNodes, List.mem_cons, preorderWhileAll_eq_flatMap, List.mem_flatMap]
  rw [hown]
  constructor
  · -- The nodes below an own node are own ones, by induction on this node.
    have hbelow : ∀ s : Tree, body.IsOwnNode s → t ∈ preorderWhile (fun u => !u.kind.opensScope) s →
        body.IsOwnNode t := by
      refine inductionOn_children fun s ih hs ht => ?_
      rcases mem_preorderWhile_iff.1 ht with rfl | ⟨hscope, c, hc, ht⟩
      · exact hs
      · exact ih c hc (.step hs (by simpa using hscope) hc) ht
    rintro (rfl | ⟨c, hc, ht⟩)
    · exact .body
    · exact hbelow c (.child hc) ht
  · intro h
    clear hown
    induction h with
    | body => exact Or.inl rfl
    | child hc => exact Or.inr ⟨_, hc, mem_preorderWhile_iff.2 (Or.inl rfl)⟩
    | step _ hscope hc ih =>
      rcases ih with rfl | ⟨d, hd, ht⟩
      · exact Or.inr ⟨_, hc, mem_preorderWhile_iff.2 (Or.inl rfl)⟩
      · exact Or.inr ⟨d, hd, mem_preorderWhile_of_mem_children (by simp [hscope]) hc d ht⟩

/-! ## What a node declares or assigns to -/

section

variable {src : SourceText} {t : Tree}

/-- The name that a child plainly is. -/
theorem identifierAt?_eq_some {f : Field} {name : String} : identifierAt? src f t = some name ↔
    ∃ c, t.childAt? f = some c ∧ c.kind = .identifier ∧ c.text src = name := by
  unfold identifierAt?
  cases t.childAt? f with
  | none => simp
  | some c => simp

/-- `t.DeclaresVariable src name`: a node declares a variable with a plain name. -/
def DeclaresVariable (src : SourceText) (t : Tree) (name : String) : Prop :=
  t.kind = .variableDeclarator ∧
    ∃ c, t.childAt? .name = some c ∧ c.kind = .identifier ∧ c.text src = name

/-- The variable that a node declares is read. -/
theorem declaredName?_eq_some {name : String} :
    declaredName? src t = some name ↔ t.DeclaresVariable src name := by
  rw [declaredName?, Option.ite_none_right_eq_some, beq_iff_eq, identifierAt?_eq_some]
  rfl

end

/-- `t.WritesField src name`: a node assigns to a member of the own object. -/
def WritesField (src : SourceText) (t : Tree) (name : String) : Prop :=
  t.kind = .assignmentExpression ∧ ∃ left, t.childAt? .left = some left ∧ left.kind = .memberExpression ∧
    ∃ object property, left.childAt? .object = some object ∧ left.childAt? .property = some property ∧
      object.kind = .this ∧ property.text src = name

/-- The member of the own object that a node assigns to is read. -/
theorem writtenMember?_eq_some {src : SourceText} {t : Tree} {name : String} :
    writtenMember? src t = some name ↔ t.WritesField src name := by
  unfold writtenMember? WritesField
  simp [Option.bind_eq_some_iff, Option.guard_eq_some']

end Tree

end TestScaffold
