import TestScaffold.Syntax.Listing
import TestScaffold.Findings.Collection
import TestScaffold.Proofs.CommentUnits

set_option autoImplicit false

/-!
# Comments change nothing

The findings of a tree are the same with and without its comments, as long as no comment stands before what
is read as the first part of a construct.

## Main results

* `TestScaffold.Locus.findings_uncommented` — what is found at a place is the same without comments.
* `TestScaffold.ofTree_uncommented` — all findings are the same without comments.
* `TestScaffold.ofTree_uncommented_ne_leading` — they are not if a comment leads the argument of a require.
-/

namespace TestScaffold

/-! ## Parts of constructs -/

section Parts

variable {root t : Tree}

/-- The named children of one kind are the same ones. -/
theorem namedOfKind_uncommented {k : Kind} (hk : k ≠ .comment) (t : Tree) :
    namedOfKind k t.uncommented = (namedOfKind k t).map Tree.uncommented := by
  rw [namedOfKind, Tree.namedChildren_uncommented, Tree.filter_kind_uncommented hk, namedOfKind]

/-- The named children of a node of a tree that are of one kind are nodes of the tree. -/
theorem mem_preorder_of_mem_namedOfKind {k : Kind} {c : Tree} (ht : t ∈ root.preorder)
    (hc : c ∈ namedOfKind k t) : c ∈ root.preorder :=
  Tree.mem_preorder_of_mem_namedChildren ht (List.mem_filter.1 hc).1

/-- The declaration that a value initialises is reached. -/
theorem reaches_of_declaratorAbove? {above steps : List Crumb} {d : Tree} (h : root.Reaches t above)
    (hd : declaratorAbove? above = some (d, steps)) :
    root.Reaches d steps ∧ d.kind = .variableDeclarator := by
  induction h with
  | here => cases hd
  | @down parent c above i h hc ih =>
    rw [declaratorAbove?] at hd
    split at hd
    · exact ih hd
    · split at hd
      · next hkind =>
        obtain ⟨rfl, rfl⟩ := Prod.mk.inj (Option.some.inj hd)
        exact ⟨h, eq_of_beq (Bool.and_eq_true_iff.1 hkind).1⟩
      · cases hd

end Parts

section Unread

variable {src : SourceText} {root t : Tree} (hroot : root.CommentsUnread src)

include hroot

/-! ## Import and export statements -/

theorem memberBinding?_uncommented (ht : t ∈ root.preorder) :
    memberBinding? src t.uncommented = memberBinding? src t := by
  unfold memberBinding?
  rw [Tree.kind_uncommented, Tree.childAt?_uncommented hroot.between ht,
    Tree.childAt?_uncommented hroot.between ht]
  cases t.childAt? .name with
  | none => simp only [Option.map_none, Option.bind_eq_bind, Option.bind_none]
  | some imported =>
    cases t.childAt? .newName with
    | none => simp only [Option.map_some, Option.map_none, Option.getD_none, Option.bind_eq_bind,
        Option.bind_some, Tree.text_uncommented]
    | some localName => simp only [Option.map_some, Option.getD_some, Option.bind_eq_bind,
        Option.bind_some, Tree.text_uncommented]

theorem specifierBindings_uncommented (ht : t ∈ root.preorder) :
    specifierBindings src t.uncommented = specifierBindings src t := by
  have hwhole : (t.uncommented.namedChildren.find? (·.kind == .identifier)).map
        (fun c => Binding.whole (c.text src)) =
      (t.namedChildren.find? (·.kind == .identifier)).map fun c => Binding.whole (c.text src) := by
    rw [Tree.namedChildren_uncommented, Tree.find?_uncommented (fun c => by rw [Tree.kind_uncommented]),
      Option.map_map]
    · simp only [Function.comp_def, Tree.text_uncommented]
    · exact fun c hc => Tree.isComment_of_find?_kind Kind.noConfusion hc
  have hmembers : t.uncommented.namedChildren.filterMap (memberBinding? src) =
      t.namedChildren.filterMap (memberBinding? src) := by
    rw [Tree.namedChildren_uncommented]
    refine Tree.filterMap_uncommented (fun c _ hc => ?_) fun c hc _ => ?_
    · rw [memberBinding?, eq_of_beq hc]
      rfl
    · exact memberBinding?_uncommented hroot (Tree.mem_preorder_of_mem_namedChildren ht hc)
  rw [specifierBindings, specifierBindings, Tree.kind_uncommented, Tree.text_uncommented, hwhole, hmembers]

theorem import?_uncommented (ht : t ∈ root.preorder) : import? src t.uncommented = import? src t := by
  have hclause : Kind.importClause ≠ .comment := Kind.noConfusion
  have htype : t.uncommented.hasChildOfKind .typeKeyword = t.hasChildOfKind .typeKeyword :=
    Tree.hasChildOfKind_uncommented Kind.noConfusion
  -- A statement is read from the parts of its clauses, which are the same ones but for comments.
  obtain ⟨specs, hspecs⟩ : ∃ specs, (t.children.filter (·.kind == .importClause)).flatMap
      Tree.namedChildren = specs := ⟨_, rfl⟩
  have hleft : (t.uncommented.children.filter (·.kind == .importClause)).flatMap Tree.namedChildren =
      (specs.filter (!·.isComment)).map Tree.uncommented := by
    rw [← hspecs, Tree.children_uncommented, Tree.filter_kind_uncommented hclause, List.flatMap_map,
      List.filter_flatMap, List.map_flatMap]
    exact List.flatMap_congr fun c _ => Tree.namedChildren_uncommented
  have hkind : ((specs.filter (!·.isComment)).map Tree.uncommented).findSome? specifierKind? =
      specs.findSome? specifierKind? := by
    rw [← List.head?_filterMap, ← List.head?_filterMap]
    refine congrArg List.head? (Tree.filterMap_uncommented (fun c _ hc => ?_) fun c _ _ => ?_)
    · rw [specifierKind?, eq_of_beq hc]
    · rw [specifierKind?, specifierKind?, Tree.kind_uncommented]
  have hbindings : ((specs.filter (!·.isComment)).map Tree.uncommented).flatMap (specifierBindings src) =
      specs.flatMap (specifierBindings src) := by
    refine Tree.flatMap_uncommented (fun c _ hc => ?_) fun spec hspec _ => ?_
    · rw [specifierBindings, eq_of_beq hc]
    · rw [← hspecs] at hspec
      obtain ⟨c, hc, hspec⟩ := List.mem_flatMap.1 hspec
      have hin := Tree.mem_preorder_of_mem_children (List.mem_filter.1 hc).1 root ht
      exact specifierBindings_uncommented hroot (Tree.mem_preorder_of_mem_namedChildren hin hspec)
  rw [import?, import?, Tree.childAt?_uncommented hroot.between ht, htype, hleft, hspecs]
  cases t.childAt? .source with
  | none => rfl
  | some source => simp only [Option.map_some, hkind, hbindings, Tree.text_uncommented]

theorem reexportedNames_uncommented (ht : t ∈ root.preorder) :
    reexportedNames src t.uncommented = reexportedNames src t := by
  rw [reexportedNames, reexportedNames, Tree.kind_uncommented]
  cases hkind : t.kind with
  | namespaceExport =>
    dsimp only
    rw [Tree.firstNamed?_uncommented ((hroot.led t ht).namespaceExport hkind), Option.map_map]
    simp only [Function.comp_def, Tree.text_uncommented]
  | exportClause =>
    dsimp only
    rw [namedOfKind_uncommented Kind.noConfusion, List.filterMap_map]
    refine List.filterMap_congr fun spec hspec => ?_
    have hin := mem_preorder_of_mem_namedOfKind ht hspec
    rw [Function.comp_apply, Option.map_or, Option.map_or, map_text_childAt?_uncommented hroot hin,
      map_text_childAt?_uncommented hroot hin]
  | _ => rfl

theorem reexportFindings_uncommented (ht : t ∈ root.preorder) (source : String) :
    reexportFindings src source t.uncommented = reexportFindings src source t := by
  have hnames : t.uncommented.namedChildren.flatMap (reexportedNames src) =
      t.namedChildren.flatMap (reexportedNames src) := by
    rw [Tree.namedChildren_uncommented]
    refine Tree.flatMap_uncommented (fun c _ hc => ?_) fun c hc _ => ?_
    · rw [reexportedNames, eq_of_beq hc]
    · exact reexportedNames_uncommented hroot (Tree.mem_preorder_of_mem_namedChildren ht hc)
  rw [reexportFindings, reexportFindings, hnames]

theorem declaredNames_uncommented (ht : t ∈ root.preorder) :
    declaredNames src t.uncommented = declaredNames src t := by
  have hname := map_text_childAt?_uncommented hroot ht .name
  have hdeclarators : (namedOfKind .variableDeclarator t.uncommented).filterMap (identifierAt? src .name) =
      (namedOfKind .variableDeclarator t).filterMap (identifierAt? src .name) := by
    rw [namedOfKind_uncommented Kind.noConfusion, List.filterMap_map]
    exact List.filterMap_congr fun c hc =>
      identifierAt?_uncommented hroot (mem_preorder_of_mem_namedOfKind ht hc) _
  rw [declaredNames, declaredNames, Tree.kind_uncommented, hname, hdeclarators]

theorem valueName?_uncommented (ht : t ∈ root.preorder) :
    valueName? src t.uncommented = valueName? src t := by
  rw [valueName?, valueName?, Tree.kind_uncommented, Tree.text_uncommented,
    map_text_childAt?_uncommented hroot ht]

theorem specifierFinding?_uncommented (ht : t ∈ root.preorder) :
    specifierFinding? src t.uncommented = specifierFinding? src t := by
  rw [specifierFinding?, specifierFinding?, map_text_childAt?_uncommented hroot ht,
    Tree.childAt?_uncommented hroot.between ht, Option.map_map]
  simp only [Function.comp_def, Tree.text_uncommented]

theorem exportFindings_uncommented (ht : t ∈ root.preorder) :
    exportFindings src t.uncommented = exportFindings src t := by
  have hspecs : ((namedOfKind .exportClause t.uncommented).flatMap (namedOfKind .exportSpecifier)).filterMap
        (specifierFinding? src) =
      ((namedOfKind .exportClause t).flatMap (namedOfKind .exportSpecifier)).filterMap
        (specifierFinding? src) := by
    rw [namedOfKind_uncommented Kind.noConfusion, List.flatMap_map, List.filterMap_flatMap,
      List.filterMap_flatMap]
    refine List.flatMap_congr fun c hc => ?_
    have hin := mem_preorder_of_mem_namedOfKind ht hc
    rw [namedOfKind_uncommented Kind.noConfusion, List.filterMap_map]
    exact List.filterMap_congr fun spec hspec =>
      specifierFinding?_uncommented hroot (mem_preorder_of_mem_namedOfKind hin hspec)
  have hdefault : t.uncommented.hasChildOfKind .defaultKeyword = t.hasChildOfKind .defaultKeyword :=
    Tree.hasChildOfKind_uncommented Kind.noConfusion
  rw [exportFindings, exportFindings, Tree.childAt?_uncommented hroot.between ht,
    Tree.childAt?_uncommented hroot.between ht, Tree.childAt?_uncommented hroot.between ht, hspecs, hdefault,
    Tree.line_uncommented]
  cases t.childAt? .source with
  | some source => simp only [Option.map_some, Tree.text_uncommented,
      reexportFindings_uncommented hroot ht]
  | none =>
    cases hdeclaration : t.childAt? .declaration with
    | some declaration =>
      have hin := Tree.mem_preorder_of_childAt? ht hdeclaration
      simp only [Option.map_none, Option.map_some, declaredNames_uncommented hroot hin]
    | none =>
      cases hvalue : t.childAt? .value with
      | none => rfl
      | some value =>
        have hin := Tree.mem_preorder_of_childAt? ht hvalue
        simp only [Option.map_none, Option.map_some, valueName?_uncommented hroot hin]

/-! ## The export slot -/

theorem isExportSlot_uncommented (ht : t ∈ root.preorder) :
    isExportSlot src t.uncommented = isExportSlot src t := by
  rw [isExportSlot, isExportSlot, Tree.kind_uncommented, Tree.childAt?_uncommented hroot.between ht,
    Tree.childAt?_uncommented hroot.between ht]
  cases t.childAt? .object with
  | none => rfl
  | some object =>
    cases t.childAt? .property with
    | none => rfl
    | some property => simp only [Option.map_some, Tree.kind_uncommented, Tree.text_uncommented]

theorem isExportObject_uncommented (ht : t ∈ root.preorder) :
    isExportObject src t.uncommented = isExportObject src t := by
  rw [isExportObject, isExportObject, isExportSlot_uncommented hroot ht, Tree.kind_uncommented,
    Tree.text_uncommented]

theorem objectPropertyFindings_uncommented (ht : t ∈ root.preorder) :
    objectPropertyFindings src t.uncommented = objectPropertyFindings src t := by
  rw [objectPropertyFindings, objectPropertyFindings, Tree.kind_uncommented, Tree.text_uncommented,
    Tree.line_uncommented, Tree.childAt?_uncommented hroot.between ht,
    Tree.childAt?_uncommented hroot.between ht]
  cases t.childAt? .key with
  | none => rfl
  | some key =>
    cases t.childAt? .value with
    | none => rfl
    | some value => simp only [Option.map_some, Tree.kind_uncommented, Tree.text_uncommented]

theorem wholeSlotFindings_uncommented (ht : t ∈ root.preorder) (assignment : Tree) :
    wholeSlotFindings src assignment.uncommented t.uncommented = wholeSlotFindings src assignment t := by
  have hproperties : t.uncommented.namedChildren.flatMap (objectPropertyFindings src) =
      t.namedChildren.flatMap (objectPropertyFindings src) := by
    rw [Tree.namedChildren_uncommented]
    refine Tree.flatMap_uncommented (fun c _ hc => ?_) fun c hc _ => ?_
    · rw [objectPropertyFindings, eq_of_beq hc]
    · exact objectPropertyFindings_uncommented hroot (Tree.mem_preorder_of_mem_namedChildren ht hc)
  rw [wholeSlotFindings, wholeSlotFindings, Tree.kind_uncommented, Tree.text_uncommented,
    Tree.line_uncommented, hproperties]

theorem slotFindings_uncommented (ht : t ∈ root.preorder) :
    slotFindings src t.uncommented = slotFindings src t := by
  rw [slotFindings, slotFindings, Tree.childAt?_uncommented hroot.between ht,
    Tree.childAt?_uncommented hroot.between ht]
  cases hleft : t.childAt? .left with
  | none => rfl
  | some left =>
    cases hright : t.childAt? .right with
    | none => rfl
    | some right =>
      have hl := Tree.mem_preorder_of_childAt? ht hleft
      have hr := Tree.mem_preorder_of_childAt? ht hright
      dsimp only [Option.map_some]
      rw [Tree.kind_uncommented, isExportSlot_uncommented hroot hl,
        wholeSlotFindings_uncommented hroot hr, Tree.childAt?_uncommented hroot.between hl,
        Tree.childAt?_uncommented hroot.between hl]
      cases hobject : left.childAt? .object with
      | none => rfl
      | some object =>
        cases left.childAt? .property with
        | none => rfl
        | some property =>
          have ho := Tree.mem_preorder_of_childAt? hl hobject
          simp only [Option.map_some, isExportObject_uncommented hroot ho, propertySlotFindings,
            Tree.kind_uncommented, Tree.text_uncommented, Tree.line_uncommented]

/-! ## Places -/

theorem initialisedVariable?_uncommented {p : Locus} (hp : root.Reaches p.node p.above)
    (hcomment : p.node.isComment = false) :
    initialisedVariable? src p.uncommented = initialisedVariable? src p := by
  obtain ⟨node, above⟩ := p
  cases hp with
  | here => rfl
  | down h hc =>
    have hfills := Crumb.fills_uncommented hroot.between h.mem_preorder hc hcomment .value
    have hname := identifierAt?_uncommented hroot h.mem_preorder .name
    unfold initialisedVariable? Locus.uncommented
    dsimp only
    rw [List.map_cons]
    dsimp only
    simp only [hfills, Crumb.parent_uncommented, Tree.kind_uncommented, hname]

theorem assignedName?_uncommented {p : Locus} (hp : root.Reaches p.node p.above)
    (hcomment : p.node.isComment = false) : assignedName? src p.uncommented = assignedName? src p := by
  obtain ⟨node, above⟩ := p
  cases hp with
  | here => rfl
  | @down t _ _ _ h hc =>
    have hfills := Crumb.fills_uncommented hroot.between h.mem_preorder hc hcomment .right
    have hleft : ∀ left : Tree, t.childAt? .left = some left →
        assignedChain? src left.uncommented = assignedChain? src left := fun left hleft => by
      have hin := Tree.mem_preorder_of_childAt? h.mem_preorder hleft
      rw [assignedChain?, assignedChain?, Tree.kind_uncommented, Tree.text_uncommented,
        nameChain_uncommented hroot hin]
    unfold assignedName? Locus.uncommented
    dsimp only
    rw [List.map_cons]
    dsimp only
    simp only [hfills, Crumb.parent_uncommented, Tree.kind_uncommented,
      Tree.childAt?_uncommented hroot.between h.mem_preorder]
    cases hchild : t.childAt? .left with
    | none => rfl
    | some left => simp only [Option.map_some, Option.bind_eq_bind, Option.bind_some, hleft left hchild]

theorem boundName?_uncommented {p : Locus} (hp : root.Reaches p.node p.above)
    (hcomment : p.node.isComment = false) : boundName? src p.uncommented = boundName? src p := by
  rw [boundName?, boundName?, initialisedVariable?_uncommented hroot hp hcomment,
    assignedName?_uncommented hroot hp hcomment]

theorem functionExpressionFindings_uncommented {p : Locus} (hp : root.Reaches p.node p.above)
    (hcomment : p.node.isComment = false) :
    functionExpressionFindings src p.uncommented = functionExpressionFindings src p := by
  rw [functionExpressionFindings, functionExpressionFindings, boundName?_uncommented hroot hp hcomment]
  cases boundName? src p with
  | none => rfl
  | some name =>
    dsimp only [functionReading]
    rw [Locus.node_uncommented, scopeFacts_uncommented hroot hp.mem_preorder,
      parameterDiagnostics_uncommented hroot hp.mem_preorder]

theorem declarationFindings_uncommented (ht : t ∈ root.preorder) :
    declarationFindings src t.uncommented = declarationFindings src t := by
  rw [declarationFindings, declarationFindings, Tree.childAt?_uncommented hroot.between ht]
  cases t.childAt? .name with
  | none => rfl
  | some name =>
    dsimp only [Option.map_some, functionReading]
    rw [scopeFacts_uncommented hroot ht, parameterDiagnostics_uncommented hroot ht,
      Tree.text_uncommented]

theorem classFindings_uncommented {p : Locus} (hp : root.Reaches p.node p.above)
    (hcomment : p.node.isComment = false) : classFindings src p.uncommented = classFindings src p := by
  have hname : reachableName? src p.uncommented = reachableName? src p := by
    rw [reachableName?, reachableName?, initialisedVariable?_uncommented hroot hp hcomment,
      Locus.node_uncommented, map_text_childAt?_uncommented hroot hp.mem_preorder]
  rw [classFindings, classFindings, hname]
  cases reachableName? src p with
  | none =>
    dsimp only
    rw [Locus.node_uncommented, Tree.line_uncommented]
  | some name =>
    dsimp only
    rw [Locus.node_uncommented, classReading_uncommented hroot hp.mem_preorder]

/-! ## Requires -/

theorem isRequireCall_uncommented (ht : t ∈ root.preorder) :
    isRequireCall src t.uncommented = isRequireCall src t := by
  rw [isRequireCall, isRequireCall, Tree.childAt?_uncommented hroot.between ht]
  cases t.childAt? .function with
  | none => rfl
  | some f => simp only [Option.map_some, Tree.kind_uncommented, Tree.text_uncommented]

theorem literalArgument?_uncommented (ht : t ∈ root.preorder) (hkind : t.kind = .callExpression)
    (hrequire : isRequireCall src t = true) :
    literalArgument? src t.uncommented = literalArgument? src t := by
  unfold literalArgument?
  rw [Tree.childAt?_uncommented hroot.between ht]
  cases harguments : t.childAt? .arguments with
  | none => rfl
  | some arguments =>
    have hfirst := (hroot.led t ht).argument hkind hrequire arguments harguments
    simp only [Option.map_some, Option.bind_eq_bind, Option.bind_some]
    rw [Tree.firstNamed?_uncommented hfirst]
    cases arguments.firstNamed? with
    | none => rfl
    | some first =>
      have hcomputed : first.uncommented.namedChildren.any (·.kind == .templateSubstitution) =
          first.namedChildren.any (·.kind == .templateSubstitution) := by
        rw [Tree.namedChildren_uncommented]
        exact Tree.any_uncommented (fun c => by rw [Tree.kind_uncommented])
          fun _ _ hc => Tree.kind_beq_eq_false Kind.noConfusion hc
      simp only [Option.map_some, Option.bind_some, Tree.kind_uncommented, Tree.text_uncommented, hcomputed]

theorem passesValue_uncommented {i : Nat} {c : Tree} (ht : t ∈ root.preorder)
    (hc : t.children[i]? = some c) (hcomment : c.isComment = false) :
    (Crumb.mk t i).uncommented.passesValue = (Crumb.mk t i).passesValue := by
  have hfills := Crumb.fills_uncommented hroot.between ht hc hcomment
  rw [Crumb.passesValue, Crumb.passesValue, hfills, hfills, Crumb.parent_uncommented,
    Tree.kind_uncommented]

theorem declaratorAbove?_uncommented {above : List Crumb} (h : root.Reaches t above)
    (hcomment : t.isComment = false) :
    declaratorAbove? (above.map Crumb.uncommented) =
      (declaratorAbove? above).map fun (d, steps) => (d.uncommented, steps.map Crumb.uncommented) := by
  -- Induction on the way down to the node, which is climbed back: every step goes to the same role.
  induction h with
  | here => rfl
  | @down parent c above i h hc ih =>
    have hin := h.mem_preorder
    rw [List.map_cons, declaratorAbove?, declaratorAbove?, passesValue_uncommented hroot hin hc hcomment,
      Crumb.fills_uncommented hroot.between hin hc hcomment, ih (isComment_of_getElem? hroot.between hin hc)]
    simp only [Crumb.parent_uncommented, Tree.kind_uncommented]
    split
    · rfl
    · split <;> rfl

theorem declarationKeyword_uncommented {steps : List Crumb} (h : root.Reaches t steps)
    (hkind : t.kind = .variableDeclarator) :
    declarationKeyword src (steps.map Crumb.uncommented) = declarationKeyword src steps := by
  cases h with
  | here => rfl
  | @down parent _ _ i h hc =>
    have hdeclarator : parent.hasChildOfKind .variableDeclarator = true :=
      List.any_eq_true.2 ⟨t, List.mem_of_getElem? hc, beq_iff_eq.2 hkind⟩
    have hfirst := (hroot.between parent h.mem_preorder).keyword hdeclarator
    rw [List.map_cons, declarationKeyword, declarationKeyword, Crumb.parent_uncommented,
      Tree.children_uncommented, Tree.head?_uncommented hfirst, Option.map_map]
    simp only [Function.comp_def, Tree.text_uncommented]

theorem requireFindings_uncommented {p : Locus} (hp : root.Reaches p.node p.above)
    (hcomment : p.node.isComment = false) (hkind : p.node.kind = .callExpression) :
    requireFindings src p.uncommented = requireFindings src p := by
  have hin := hp.mem_preorder
  unfold requireFindings
  rw [Locus.node_uncommented, Locus.above_uncommented, isRequireCall_uncommented hroot hin,
    declaratorAbove?_uncommented hroot hp hcomment, Tree.line_uncommented]
  cases hrequire : isRequireCall src p.node with
  | false => rfl
  | true =>
    rw [literalArgument?_uncommented hroot hin hkind hrequire]
    cases hd : declaratorAbove? p.above with
    | none => rfl
    | some found =>
      obtain ⟨d, steps⟩ := found
      obtain ⟨hreach, hdeclarator⟩ := reaches_of_declaratorAbove? hp hd
      dsimp only [Option.map_some]
      rw [Tree.childAt?_uncommented hroot.between hreach.mem_preorder,
        declarationKeyword_uncommented hroot hreach hdeclarator, Tree.text_uncommented]
      cases hpattern : d.childAt? .name with
      | none => rfl
      | some pattern =>
        have hpattern' := Tree.mem_preorder_of_childAt? hreach.mem_preorder hpattern
        simp only [Option.map_some, patternNames_uncommented hroot hpattern',
          Tree.line_uncommented]

/-! ## All findings -/

omit hroot in
/-- Nothing is found at a comment. -/
theorem Locus.findings_of_isComment {p : Locus} (hcomment : p.node.isComment = true) :
    p.findings src = [] := by
  unfold Locus.findings
  rw [eq_of_beq hcomment]
  cases p.node.isNamed <;> rfl

/-- **What is found at a place** is the same without comments. -/
theorem Locus.findings_uncommented {p : Locus} (hp : root.Reaches p.node p.above)
    (hcomment : p.node.isComment = false) : p.uncommented.findings src = p.findings src := by
  have hin := hp.mem_preorder
  unfold Locus.findings
  rw [Locus.node_uncommented, Tree.isNamed_uncommented, Tree.kind_uncommented]
  cases p.node.isNamed with
  | false => rfl
  | true =>
    cases hkind : p.node.kind with
    | importStatement =>
      dsimp only
      rw [import?_uncommented hroot hin]
    | exportStatement => exact exportFindings_uncommented hroot hin
    | classDeclaration => exact classFindings_uncommented hroot hp hcomment
    | abstractClassDeclaration => exact classFindings_uncommented hroot hp hcomment
    | classExpression => exact classFindings_uncommented hroot hp hcomment
    | functionDeclaration => exact declarationFindings_uncommented hroot hin
    | generatorFunctionDeclaration => exact declarationFindings_uncommented hroot hin
    | functionExpression => exact functionExpressionFindings_uncommented hroot hp hcomment
    | function => exact functionExpressionFindings_uncommented hroot hp hcomment
    | generatorFunction => exact functionExpressionFindings_uncommented hroot hp hcomment
    | arrowFunction => exact functionExpressionFindings_uncommented hroot hp hcomment
    | callExpression => exact requireFindings_uncommented hroot hp hcomment hkind
    | assignmentExpression => exact slotFindings_uncommented hroot hin
    | _ => rfl

end Unread

/-- **Comments change nothing**: the findings of a tree are the same without its comments, if these stand
where a parser puts them and none stands where the first part of a construct is read.

**Proof sketch.** Children are read by role, by kind, all in turn or first of all. A comment has no role and
a kind of its own; read in turn, it gives nothing; and it is not the first. So every reading of a node is the
same without comments, and the places of the tree are the same but for those of comments. -/
theorem ofTree_uncommented {src : SourceText} (specifier : String) {root : Tree}
    (hbetween : ∀ t ∈ root.preorder, t.CommentsBetween) (hled : ∀ t ∈ root.preorder, t.NotLedByComment src) :
    Findings.ofTree src specifier root.uncommented = Findings.ofTree src specifier root := by
  have hreads : Locus.ReadsPastComments root (Locus.findings src) :=
    ⟨fun p hcomment => Locus.findings_of_isComment hcomment,
      fun p hp hcomment => Locus.findings_uncommented ⟨hbetween, hled⟩ hp hcomment⟩
  rw [Findings.ofTree, Findings.ofTree]
  congr 1
  -- Only below its root is a tree without comments free of them, so the root is a case of its own.
  cases hcomment : root.isComment with
  | true =>
    obtain ⟨l, cs⟩ := root
    obtain rfl : cs = [] := ((hbetween _ (Tree.mem_preorder_self _)).leaf hcomment).1
    rfl
  | false => exact Tree.flatMap_loci_uncommented hbetween hreads root .here hcomment

instance (t : Tree) : Decidable t.CommentsBetween :=
  decidable_of_iff
    ((t.isComment = true → t.children.isEmpty = true ∧ t.field = none) ∧
      (t.hasChildOfKind .variableDeclarator = true → ∀ first ∈ t.children.head?, first.isComment = false))
    ⟨fun h => ⟨fun hc => ⟨List.isEmpty_iff.1 (h.1 hc).1, (h.1 hc).2⟩, h.2⟩,
      fun h => ⟨fun hc => ⟨List.isEmpty_iff.2 (h.leaf hc).1, (h.leaf hc).2⟩, h.keyword⟩⟩

instance (src : SourceText) (t : Tree) : Decidable (t.NotLedByComment src) :=
  decidable_of_iff
    ((t.kind = .restPattern → ∀ c ∈ t.firstNamed?, c.isComment = false) ∧
      (t.kind = .namespaceExport → ∀ c ∈ t.firstNamed?, c.isComment = false) ∧
        (t.kind = .callExpression → isRequireCall src t = true →
          ∀ arguments ∈ t.childAt? .arguments, ∀ c ∈ arguments.firstNamed?, c.isComment = false))
    ⟨fun h => ⟨h.1, h.2.1, h.2.2⟩, fun h => ⟨h.rest, h.namespaceExport, h.argument⟩⟩

/-- The listing of a require with a comment before the call and one behind its argument. -/
def trailingCommentListing : List Row :=
  [.make 0 1 "program" 0 39 none, .make 1 1 "lexical_declaration" 0 39 none,
    .make 2 0 "const" 0 5 "kind", .make 2 1 "variable_declarator" 6 38 none,
    .make 3 1 "identifier" 6 7 "name", .make 3 0 "=" 8 9 none, .make 3 1 "comment" 10 17 none,
    .make 3 1 "call_expression" 18 38 "value", .make 4 1 "identifier" 18 25 "function",
    .make 4 1 "arguments" 25 38 "arguments", .make 5 0 "(" 25 26 none, .make 5 1 "string" 26 29 none,
    .make 6 0 "\"" 26 27 none, .make 6 1 "string_fragment" 27 28 none, .make 6 0 "\"" 28 29 none,
    .make 5 1 "comment" 30 37 none, .make 5 0 ")" 37 38 none, .make 2 0 ";" 38 39 none]

/-- The text of that require. -/
def trailingCommentText : SourceText :=
  SourceText.ofString "const b = /* c */ require(\"z\" /* d */);"

/-- The comments around a require change nothing about it. -/
theorem ofTree_uncommented_trailing :
    ∃ root, Tree.ofRows? trailingCommentListing = some root ∧ root.preorder.any Tree.isComment = true ∧
      Findings.ofTree trailingCommentText "my-module" root.uncommented =
        Findings.ofTree trailingCommentText "my-module" root ∧
      (Findings.ofTree trailingCommentText "my-module" root).requires =
        [⟨"b", "z", "const b = /* c */ require(\"z\" /* d */);"⟩] :=
  ⟨_, rfl, rfl, ofTree_uncommented "my-module" (by decide) (by decide), rfl⟩

/-- The listing of a require with a comment before its argument. -/
def leadingCommentListing : List Row :=
  [.make 0 1 "program" 0 31 none, .make 1 1 "lexical_declaration" 0 31 none,
    .make 2 0 "const" 0 5 "kind", .make 2 1 "variable_declarator" 6 30 none,
    .make 3 1 "identifier" 6 7 "name", .make 3 0 "=" 8 9 none,
    .make 3 1 "call_expression" 10 30 "value", .make 4 1 "identifier" 10 17 "function",
    .make 4 1 "arguments" 17 30 "arguments", .make 5 0 "(" 17 18 none, .make 5 1 "comment" 18 25 none,
    .make 5 1 "string" 26 29 none, .make 6 0 "\"" 26 27 none, .make 6 1 "string_fragment" 27 28 none,
    .make 6 0 "\"" 28 29 none, .make 5 0 ")" 29 30 none, .make 2 0 ";" 30 31 none]

/-- The text of that require. -/
def leadingCommentText : SourceText := SourceText.ofString "const b = require(/* c */ \"z\");"

/-- A comment before the argument of a require hides the required module: without the comment the name is
bound by a require, with it the path counts as computed. -/
theorem ofTree_uncommented_ne_leading :
    ∃ root, Tree.ofRows? leadingCommentListing = some root ∧ (∀ t ∈ root.preorder, t.CommentsBetween) ∧
      (Findings.ofTree leadingCommentText "my-module" root.uncommented).requires =
        [⟨"b", "z", "const b = require(/* c */ \"z\");"⟩] ∧
      (Findings.ofTree leadingCommentText "my-module" root).requires = [] ∧
      (Findings.ofTree leadingCommentText "my-module" root).diagnostics = [⟨.computedPath, 1⟩] ∧
      Findings.ofTree leadingCommentText "my-module" root.uncommented ≠
        Findings.ofTree leadingCommentText "my-module" root :=
  ⟨_, rfl, by decide, rfl, rfl, rfl, by decide⟩

end TestScaffold
