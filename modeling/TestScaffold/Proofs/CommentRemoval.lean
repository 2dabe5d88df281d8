import TestScaffold.Proofs.UnitNodes

set_option autoImplicit false

/-!
# Trees without comments

A comment may stand between any two parts of a construct, where it is a child of the construct like those
parts. Here the comments are taken out of a tree, and what is asked of a node is compared before and after.

## Main definitions

* `TestScaffold.Tree.uncommented` — a tree without the comments below its root.
* `TestScaffold.Tree.CommentsBetween` — comments at a node stand where a parser puts them.
* `TestScaffold.Locus.uncommented` — a place in the tree without comments.

## Main results

* `TestScaffold.Tree.childAt?_uncommented` — the child in a role is the same one.
* `TestScaffold.Tree.preorderWhile_uncommented` — the nodes in document order are the same but for comments.
* `TestScaffold.Crumb.fills_uncommented` — a step goes to the same role.
* `TestScaffold.Tree.flatMap_loci_uncommented` — what is read at each place is the same if it is at one.
-/

namespace TestScaffold

namespace Tree

/-! ## Taking comments out -/

/-- Whether a node is a comment. -/
def isComment (t : Tree) : Bool := t.kind == .comment

mutual

/-- The tree without the comments below its root. -/
def uncommented : Tree → Tree
  | node l cs => node l (uncommentedAll cs)

/-- Those of several trees that are no comments, without the comments in them. -/
def uncommentedAll : List Tree → List Tree
  | [] => []
  | c :: cs => if c.isComment then uncommentedAll cs else uncommented c :: uncommentedAll cs

end

/-- The comments at a node stand where a parser puts them: a comment is a leaf without a role, and none
stands before the word that a declaration of variables begins with. -/
structure CommentsBetween (t : Tree) : Prop where
  /-- A comment is a leaf without a role. -/
  leaf : t.isComment = true → t.children = [] ∧ t.field = none
  /-- A declaration of variables does not begin with a comment. -/
  keyword : t.hasChildOfKind .variableDeclarator = true → ∀ first ∈ t.children.head?, first.isComment = false

/-- Several trees without comments are those that are no comments, each without comments. -/
theorem uncommentedAll_eq (cs : List Tree) :
    uncommentedAll cs = (cs.filter (!·.isComment)).map uncommented := by
  induction cs with
  | nil => rfl
  | cons c cs ih =>
    rw [uncommentedAll]
    cases h : c.isComment with
    | true => simpa [h] using ih
    | false => simpa [h] using ih

section Label

variable (t : Tree)

/-- The label of the root stays. -/
@[simp] theorem label_uncommented : t.uncommented.label = t.label := by cases t; rfl

/-- The kind of the root stays. -/
@[simp] theorem kind_uncommented : t.uncommented.kind = t.kind := by cases t; rfl

/-- The role of the root stays. -/
@[simp] theorem field_uncommented : t.uncommented.field = t.field := by cases t; rfl

/-- A named root stays named. -/
@[simp] theorem isNamed_uncommented : t.uncommented.isNamed = t.isNamed := by cases t; rfl

/-- The root covers the same text. -/
@[simp] theorem text_uncommented (src : SourceText) : t.uncommented.text src = t.text src := by cases t; rfl

/-- The root begins in the same line. -/
@[simp] theorem line_uncommented (src : SourceText) : t.uncommented.line src = t.line src := by cases t; rfl

/-- The children are those that are no comments. -/
theorem children_uncommented :
    t.uncommented.children = (t.children.filter (!·.isComment)).map uncommented := by
  cases t
  exact uncommentedAll_eq _

end Label

/-! ## Children -/

section Lists

variable {β : Type} {cs : List Tree}

/-- A search that does not end at a comment finds the same tree without comments. -/
theorem find?_uncommented {p : Tree → Bool} (hlabel : ∀ t : Tree, p t.uncommented = p t)
    (hfound : ∀ c ∈ cs.find? p, c.isComment = false) :
    ((cs.filter (!·.isComment)).map uncommented).find? p = (cs.find? p).map uncommented := by
  induction cs with
  | nil => rfl
  | cons c cs ih =>
    cases hp : p c with
    | true =>
      rw [List.find?_cons_of_pos hp] at hfound ⊢
      have hc : c.isComment = false := hfound c rfl
      simp [hc, hlabel, hp]
    | false =>
      rw [List.find?_cons_of_neg (by simp [hp])] at hfound ⊢
      cases hc : c.isComment with
      | true => simpa [hc] using ih hfound
      | false => simpa [hc, hlabel, hp] using ih hfound

/-- If comments give nothing and every other tree the same as before, so do all together. -/
theorem flatMap_uncommented {f : Tree → List β} (hcomment : ∀ c ∈ cs, c.isComment = true → f c = [])
    (hsame : ∀ c ∈ cs, c.isComment = false → f c.uncommented = f c) :
    ((cs.filter (!·.isComment)).map uncommented).flatMap f = cs.flatMap f := by
  induction cs with
  | nil => rfl
  | cons c cs ih =>
    have hrest := ih (fun d hd => hcomment d (List.mem_cons_of_mem c hd))
      (fun d hd => hsame d (List.mem_cons_of_mem c hd))
    rw [List.flatMap_cons, ← hrest]
    cases hc : c.isComment with
    | true => simp [hc, hcomment c List.mem_cons_self hc]
    | false => simp [hc, hsame c List.mem_cons_self hc]

/-- If comments give nothing and every other tree what it is to give, so do all together. -/
theorem filterMap_uncommented {f g : Tree → Option β}
    (hcomment : ∀ c ∈ cs, c.isComment = true → g c = none)
    (hsame : ∀ c ∈ cs, c.isComment = false → f c.uncommented = g c) :
    ((cs.filter (!·.isComment)).map uncommented).filterMap f = cs.filterMap g := by
  induction cs with
  | nil => rfl
  | cons c cs ih =>
    have hrest := ih (fun d hd => hcomment d (List.mem_cons_of_mem c hd))
      (fun d hd => hsame d (List.mem_cons_of_mem c hd))
    cases hc : c.isComment with
    | true => simpa [hc, hcomment c List.mem_cons_self hc] using hrest
    | false => simp [List.filterMap_cons, hc, hsame c List.mem_cons_self hc, hrest]

/-- A property that no comment has is there as before. -/
theorem any_uncommented {p : Tree → Bool} (hlabel : ∀ t : Tree, p t.uncommented = p t)
    (hcomment : ∀ c ∈ cs, c.isComment = true → p c = false) :
    ((cs.filter (!·.isComment)).map uncommented).any p = cs.any p := by
  induction cs with
  | nil => rfl
  | cons c cs ih =>
    have hrest := ih fun d hd => hcomment d (List.mem_cons_of_mem c hd)
    rw [List.any_cons, ← hrest]
    cases hc : c.isComment with
    | true => simp [hc, hcomment c List.mem_cons_self hc]
    | false => simp [hc, hlabel]

/-- The trees with a property that no comment has are the same ones. -/
theorem filter_uncommented {p : Tree → Bool} (hlabel : ∀ t : Tree, p t.uncommented = p t)
    (hcomment : ∀ c ∈ cs, c.isComment = true → p c = false) :
    ((cs.filter (!·.isComment)).map uncommented).filter p = (cs.filter p).map uncommented := by
  induction cs with
  | nil => rfl
  | cons c cs ih =>
    have hrest := ih fun d hd => hcomment d (List.mem_cons_of_mem c hd)
    cases hc : c.isComment with
    | true => simpa [hc, hcomment c List.mem_cons_self hc] using hrest
    | false => cases hp : p c <;> simp [hc, hlabel, hp, hrest]

/-- The trees before the first one without a property that every comment has are those that are no
comments. -/
theorem takeWhile_uncommented {p : Tree → Bool} (hlabel : ∀ t : Tree, p t.uncommented = p t)
    (hcomment : ∀ c ∈ cs, c.isComment = true → p c = true) :
    ((cs.filter (!·.isComment)).map uncommented).takeWhile p =
      ((cs.takeWhile p).filter (!·.isComment)).map uncommented := by
  induction cs with
  | nil => rfl
  | cons c cs ih =>
    have hrest := ih fun d hd => hcomment d (List.mem_cons_of_mem c hd)
    cases hc : c.isComment with
    | true => simpa [hc, List.takeWhile_cons, hcomment c List.mem_cons_self hc] using hrest
    | false => cases hp : p c <;> simp [hc, hlabel, hp, hrest]

/-- The first tree is the same one if it is no comment. -/
theorem head?_uncommented (h : ∀ first ∈ cs.head?, first.isComment = false) :
    ((cs.filter (!·.isComment)).map uncommented).head? = cs.head?.map uncommented := by
  cases cs with
  | nil => rfl
  | cons c cs => simp [h c rfl]

end Lists

section Children

variable {t : Tree}

/-- The named children are those that are no comments. -/
theorem namedChildren_uncommented :
    t.uncommented.namedChildren = (t.namedChildren.filter (!·.isComment)).map uncommented := by
  have hnamed : isNamed ∘ uncommented = isNamed := funext isNamed_uncommented
  rw [namedChildren, children_uncommented, List.filter_map, hnamed, namedChildren, List.filter_comm]

/-- A comment is of no other kind. -/
theorem kind_beq_eq_false {k : Kind} (hk : k ≠ .comment) (hcomment : t.isComment = true) :
    (t.kind == k) = false := by
  rw [eq_of_beq hcomment]
  exact beq_false_of_ne hk.symm

/-- What is found by another kind is no comment. -/
theorem isComment_of_find?_kind {k : Kind} (hk : k ≠ .comment) {cs : List Tree}
    (hfound : cs.find? (·.kind == k) = some t) : t.isComment = false := by
  have hkind : t.kind = k := by simpa using List.find?_some hfound
  rw [isComment, hkind]
  exact beq_false_of_ne hk

/-- Of several trees those of one kind are the same ones. -/
theorem filter_kind_uncommented {k : Kind} (hk : k ≠ .comment) (cs : List Tree) :
    ((cs.filter (!·.isComment)).map uncommented).filter (·.kind == k) =
      (cs.filter (·.kind == k)).map uncommented :=
  filter_uncommented (fun c => by rw [kind_uncommented]) fun _ _ hc => kind_beq_eq_false hk hc

/-- A child of one kind is there as before. -/
theorem hasChildOfKind_uncommented {k : Kind} (hk : k ≠ .comment) :
    t.uncommented.hasChildOfKind k = t.hasChildOfKind k := by
  rw [hasChildOfKind, children_uncommented]
  exact any_uncommented (fun c => by rw [kind_uncommented]) fun _ _ hc => kind_beq_eq_false hk hc

/-- The first named child is the same one if it is no comment. -/
theorem firstNamed?_uncommented (h : ∀ c ∈ t.firstNamed?, c.isComment = false) :
    t.uncommented.firstNamed? = t.firstNamed?.map uncommented := by
  rw [firstNamed?, children_uncommented]
  exact find?_uncommented isNamed_uncommented h

end Children

section Roles

variable {root t : Tree} (hbetween : ∀ u ∈ root.preorder, u.CommentsBetween) (ht : t ∈ root.preorder)

include hbetween

/-- A node in some role is no comment. -/
theorem isComment_of_field {f : Field} (ht : t ∈ root.preorder) (hfield : t.field = some f) :
    t.isComment = false := by
  rw [← Bool.not_eq_true]
  intro hcomment
  rw [((hbetween t ht).leaf hcomment).2] at hfield
  cases hfield

include ht

/-- The child in a role is no comment. -/
theorem isComment_childAt? {c : Tree} {f : Field} (hc : t.childAt? f = some c) : c.isComment = false :=
  isComment_of_field hbetween (mem_preorder_of_childAt? ht hc)
    (eq_of_beq (List.find?_some (p := fun d : Tree => d.field == some f) hc))

/-- **The child in a role** is the same one without comments. -/
theorem childAt?_uncommented (f : Field) : t.uncommented.childAt? f = (t.childAt? f).map uncommented := by
  rw [childAt?, children_uncommented]
  exact find?_uncommented (fun c => by rw [field_uncommented])
    fun c hc => isComment_childAt? hbetween ht hc

end Roles

/-! ## Nodes in document order -/

/-- Below a comment there is nothing. -/
theorem preorderWhile_of_isComment (enter : Tree → Bool) {t : Tree} (ht : t.CommentsBetween)
    (hcomment : t.isComment = true) : t.preorderWhile enter = [t] := by
  obtain ⟨l, cs⟩ := t
  obtain rfl : cs = [] := (ht.leaf hcomment).1
  simp [preorderWhile, preorderWhileAll]

mutual

/-- **The nodes in document order** are those that are no comments, each without comments. -/
theorem preorderWhile_uncommented {root : Tree} (hbetween : ∀ u ∈ root.preorder, u.CommentsBetween)
    {enter : Tree → Bool} (henter : ∀ t : Tree, enter t.uncommented = enter t) :
    ∀ t ∈ root.preorder, t.isComment = false →
      t.uncommented.preorderWhile enter =
        ((t.preorderWhile enter).filter (!·.isComment)).map uncommented
  | node l cs, ht, hcomment => by
    have hbelow := preorderWhileAll_uncommented hbetween henter cs
      fun c hc => mem_preorder_of_mem_children hc root ht
    have henter' := henter (node l cs)
    rw [uncommented] at henter' ⊢
    rw [preorderWhile, preorderWhile, henter', List.filter_cons_of_pos (by simp [hcomment]), List.map_cons,
      uncommented]
    split
    · rw [hbelow]
    · rfl

/-- The nodes of several trees in document order are those that are no comments. -/
theorem preorderWhileAll_uncommented {root : Tree} (hbetween : ∀ u ∈ root.preorder, u.CommentsBetween)
    {enter : Tree → Bool} (henter : ∀ t : Tree, enter t.uncommented = enter t) :
    ∀ cs : List Tree, (∀ c ∈ cs, c ∈ root.preorder) →
      preorderWhileAll enter (uncommentedAll cs) =
        ((preorderWhileAll enter cs).filter (!·.isComment)).map uncommented
  | [], _ => rfl
  | c :: cs, hcs => by
    have hc : c ∈ root.preorder := hcs c List.mem_cons_self
    have hrest := preorderWhileAll_uncommented hbetween henter cs
      fun d hd => hcs d (List.mem_cons_of_mem c hd)
    rw [uncommentedAll, preorderWhileAll, List.filter_append, List.map_append, ← hrest]
    cases hcomment : c.isComment with
    | true =>
      rw [preorderWhile_of_isComment enter (hbetween c hc) hcomment]
      simp [hcomment]
    | false =>
      rw [if_neg Bool.false_ne_true, preorderWhileAll,
        preorderWhile_uncommented hbetween henter c hc hcomment]

end

mutual

/-- The visited nodes are nodes of the tree. -/
theorem preorderWhile_sublist (enter : Tree → Bool) :
    ∀ t : Tree, (t.preorderWhile enter).Sublist t.preorder
  | node l cs => by
    rw [preorderWhile, preorder]
    split
    · exact (preorderWhileAll_sublist enter cs).cons_cons _
    · exact (List.nil_sublist _).cons_cons _

/-- The visited nodes of several trees are nodes of them. -/
theorem preorderWhileAll_sublist (enter : Tree → Bool) :
    ∀ cs : List Tree, (preorderWhileAll enter cs).Sublist (preorderAll cs)
  | [] => by
    rw [preorderWhileAll]
    exact List.nil_sublist _
  | c :: cs => by
    rw [preorderWhileAll, preorderAll]
    exact (preorderWhile_sublist enter c).append (preorderWhileAll_sublist enter cs)

end

section OwnNodes

variable {root t : Tree}

/-- The nodes of the scope of a body are nodes of it. -/
theorem ownNodes_subset (t : Tree) : t.ownNodes ⊆ t.preorder := by
  obtain ⟨l, cs⟩ := t
  rw [ownNodes, preorder]
  exact ((preorderWhileAll_sublist _ cs).cons_cons _).subset

variable (hbetween : ∀ u ∈ root.preorder, u.CommentsBetween) (ht : t ∈ root.preorder)
  (hcomment : t.isComment = false)

include hbetween ht hcomment

/-- All nodes in document order are those that are no comments. -/
theorem preorder_uncommented :
    t.uncommented.preorder = (t.preorder.filter (!·.isComment)).map uncommented := by
  rw [← preorderWhile_true, ← preorderWhile_true]
  exact preorderWhile_uncommented hbetween (fun _ => rfl) t ht hcomment

/-- The nodes of the scope of a body are those that are no comments. -/
theorem ownNodes_uncommented :
    t.uncommented.ownNodes = (t.ownNodes.filter (!·.isComment)).map uncommented := by
  let enter : Tree → Bool := fun u => !u.kind.opensScope
  have henter : ∀ u : Tree, enter u.uncommented = enter u := fun u => by
    dsimp only [enter]
    rw [kind_uncommented]
  have hbelow := preorderWhileAll_uncommented hbetween henter t.children
    fun c hc => mem_preorder_of_mem_children hc root ht
  rw [ownNodes, ownNodes, List.filter_cons_of_pos (by simp [hcomment]), List.map_cons, ← hbelow,
    children_uncommented, uncommentedAll_eq]

end OwnNodes

end Tree

/-! ## Places -/

/-- The step to the same child in the tree without comments. -/
def Crumb.uncommented (c : Crumb) : Crumb where
  parent := c.parent.uncommented
  index := (c.parent.children.take c.index).countP (!·.isComment)

/-- The step begins at the same node without comments. -/
@[simp] theorem Crumb.parent_uncommented (c : Crumb) : c.uncommented.parent = c.parent.uncommented := rfl

/-- The same place in the tree without comments. -/
def Locus.uncommented (p : Locus) : Locus where
  node := p.node.uncommented
  above := p.above.map Crumb.uncommented

/-- The node at a place is the same one without comments. -/
@[simp] theorem Locus.node_uncommented (p : Locus) : p.uncommented.node = p.node.uncommented := rfl

/-- The steps to a place are the same. -/
@[simp] theorem Locus.above_uncommented (p : Locus) :
    p.uncommented.above = p.above.map Crumb.uncommented := rfl

/-- The steps that lead down from the root of a tree to a node, the last one first. -/
inductive Tree.Reaches (root : Tree) : Tree → List Crumb → Prop where
  /-- No step leads to the root. -/
  | here : Reaches root root []
  /-- One more step leads to a child. -/
  | down {t c : Tree} {above : List Crumb} {i : Nat} (h : Reaches root t above)
      (hc : t.children[i]? = some c) : Reaches root c (⟨t, i⟩ :: above)

/-- What is reached from the root of a tree is a node of it. -/
theorem Tree.Reaches.mem_preorder {root t : Tree} {above : List Crumb} (h : root.Reaches t above) :
    t ∈ root.preorder := by
  induction h with
  | here => exact Tree.mem_preorder_self root
  | down _ hc ih => exact Tree.mem_preorder_of_mem_children (List.mem_of_getElem? hc) root ih

/-- The first tree with a property stands behind those without. -/
theorem findIdx?_eq_some_length {α : Type} {p : α → Bool} {xs ys : List α} {x : α} :
    (xs ++ x :: ys).findIdx? p = some xs.length ↔ p x = true ∧ ∀ y ∈ xs, p y = false := by
  induction xs with
  | nil => cases h : p x <;> simp [List.findIdx?_cons, h]
  | cons y xs ih =>
    rw [List.cons_append, List.findIdx?_cons, List.forall_mem_cons]
    cases h : p y with
    | true => simp
    | false =>
      simp only [Bool.false_eq_true, if_false, Option.map_eq_some_iff, List.length_cons,
        Nat.add_right_cancel_iff, exists_eq_right, ih, true_and]

section Places

variable {root : Tree} (hbetween : ∀ u ∈ root.preorder, u.CommentsBetween)

include hbetween

/-- **A step** goes to the same role. -/
theorem Crumb.fills_uncommented {parent d : Tree} {i : Nat} (hparent : parent ∈ root.preorder)
    (hd : parent.children[i]? = some d) (hcomment : d.isComment = false) (f : Field) :
    (Crumb.mk parent i).uncommented.fills f = (Crumb.mk parent i).fills f := by
  obtain ⟨l, cs⟩ := parent
  dsimp only [Tree.children] at hd
  -- The step goes to the first child in a role if and only if none of the children `xs` before it has it.
  obtain ⟨xs, ys, rfl, rfl⟩ : ∃ xs ys, cs = xs ++ d :: ys ∧ i = xs.length := by
    obtain ⟨hi, rfl⟩ := List.getElem?_eq_some_iff.1 hd
    refine ⟨cs.take i, cs.drop (i + 1), ?_, (List.length_take_of_le hi.le).symm⟩
    rw [← List.drop_eq_getElem_cons hi, List.take_append_drop]
  have hbare : ∀ x ∈ xs, x.isComment = true → (x.field == some f) = false := fun x hx hx' => by
    have hin : x ∈ root.preorder :=
      Tree.mem_preorder_of_mem_children (List.mem_append_left _ hx) root hparent
    rw [((hbetween x hin).leaf hx').2]
    rfl
  rw [Bool.eq_iff_iff, fills, fills, beq_iff_eq, beq_iff_eq]
  unfold Crumb.uncommented Tree.childIndex?
  dsimp only
  rw [Tree.children_uncommented]
  dsimp only [Tree.children]
  rw [List.take_left, List.filter_append, List.filter_cons_of_pos (by simp [hcomment]), List.map_append,
    List.map_cons, List.countP_eq_length_filter, ← List.length_map Tree.uncommented,
    findIdx?_eq_some_length, findIdx?_eq_some_length, Tree.field_uncommented]
  refine and_congr_right' ⟨fun h x hx => ?_, fun h x hx => ?_⟩
  · cases hx' : x.isComment with
    | true => exact hbare x hx hx'
    | false =>
      rw [← Tree.field_uncommented x]
      exact h _ (List.mem_map_of_mem (List.mem_filter.2 ⟨hx, by simp [hx']⟩))
  · obtain ⟨y, hy, rfl⟩ := List.mem_map.1 hx
    rw [Tree.field_uncommented]
    exact h y (List.mem_filter.1 hy).1

/-- What has a child is no comment. -/
theorem isComment_of_getElem? {t c : Tree} {i : Nat} (ht : t ∈ root.preorder)
    (hc : t.children[i]? = some c) : t.isComment = false := by
  rw [← Bool.not_eq_true]
  intro hcomment
  rw [((hbetween t ht).leaf hcomment).1] at hc
  cases hc

end Places

/-- What is read at the places of a tree does not depend on comments: nothing is read at a comment, and at
every other place the same as without comments. -/
structure Locus.ReadsPastComments {β : Type} (root : Tree) (f : Locus → List β) : Prop where
  /-- Nothing is read at a comment. -/
  comment : ∀ p : Locus, p.node.isComment = true → f p = []
  /-- The same is read at every other place. -/
  same : ∀ p : Locus, root.Reaches p.node p.above → p.node.isComment = false → f p.uncommented = f p

/-- Below a comment there are no places. -/
theorem Tree.loci_of_isComment {above : List Crumb} {t : Tree} (ht : t.CommentsBetween)
    (hcomment : t.isComment = true) : t.loci above = [⟨t, above⟩] := by
  obtain ⟨l, cs⟩ := t
  obtain rfl : cs = [] := (ht.leaf hcomment).1
  rfl

mutual

/-- **What is read at the places of a tree** is the same without comments.

**Proof sketch.** Induction on the tree. A comment is a leaf, so it takes with it only what is read at
itself, which is nothing. For every other child the step that leads to it leads to the same child. -/
theorem Tree.flatMap_loci_uncommented {β : Type} {root : Tree} {f : Locus → List β}
    (hbetween : ∀ u ∈ root.preorder, u.CommentsBetween) (hf : Locus.ReadsPastComments root f)
    {above : List Crumb} :
    ∀ t : Tree, root.Reaches t above → t.isComment = false →
      (t.uncommented.loci (above.map Crumb.uncommented)).flatMap f = (t.loci above).flatMap f
  | .node l cs, ht, hcomment => by
    have hbelow := flatMap_lociBelow_uncommented hbetween hf ht [] cs rfl
    have hhere : f ⟨(Tree.node l cs).uncommented, above.map Crumb.uncommented⟩ = f ⟨.node l cs, above⟩ :=
      hf.same ⟨.node l cs, above⟩ ht hcomment
    rw [Tree.loci, List.flatMap_cons, ← hhere, List.length_nil.symm, ← hbelow]
    rfl

/-- What is read below a node is the same without comments. -/
theorem Tree.flatMap_lociBelow_uncommented {β : Type} {root : Tree} {f : Locus → List β}
    (hbetween : ∀ u ∈ root.preorder, u.CommentsBetween) (hf : Locus.ReadsPastComments root f)
    {parent : Tree} {above : List Crumb} (hparent : root.Reaches parent above) :
    ∀ before cs : List Tree, parent.children = before ++ cs →
      (lociBelow parent.uncommented (above.map Crumb.uncommented) (before.countP (!·.isComment))
        (uncommentedAll cs)).flatMap f = (lociBelow parent above before.length cs).flatMap f
  | before, [], _ => rfl
  | before, c :: cs, hsplit => by
    have hrest := flatMap_lociBelow_uncommented hbetween hf hparent (before ++ [c]) cs
      (by rw [hsplit, List.append_assoc, List.singleton_append])
    have hstep : root.Reaches c (⟨parent, before.length⟩ :: above) := hparent.down (by simp [hsplit])
    rw [List.countP_append, List.length_append, List.length_singleton] at hrest
    rw [uncommentedAll, lociBelow, List.flatMap_append, ← hrest]
    cases hcomment : c.isComment with
    | true =>
      have hhere : (loci (⟨parent, before.length⟩ :: above) c).flatMap f = [] := by
        rw [Tree.loci_of_isComment (hbetween c hstep.mem_preorder) hcomment, List.flatMap_singleton]
        exact hf.comment _ hcomment
      simp [hcomment, hhere]
    | false =>
      have hhere := flatMap_loci_uncommented hbetween hf c hstep hcomment
      rw [if_neg Bool.false_ne_true, lociBelow, List.flatMap_append, ← hhere, List.map_cons,
        List.countP_singleton, hcomment, Crumb.uncommented, hsplit, List.take_left]
      rfl

end

end TestScaffold
