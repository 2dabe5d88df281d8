import TestScaffold.Proofs.CommentRemoval

set_option autoImplicit false

/-!
# Units without comments

What is read off a function, a method or a class is the same with and without the comments in it, as long as
no comment stands before what is read as the first part of a construct.

## Main definitions

* `TestScaffold.Tree.NotLedByComment` — no comment stands where the first part of a construct is read.
* `TestScaffold.Tree.CommentsUnread` — the comments in a tree stand where they are not read.

## Main results

* `TestScaffold.patternNames_uncommented`, `TestScaffold.parameterNames_uncommented` — names are the same.
* `TestScaffold.scopeFacts_uncommented` — the facts about a function are the same.
* `TestScaffold.classReading_uncommented` — the class at a node is the same.

## Implementation notes

A lemma `foo_uncommented` says of a reading `foo` of a node that it is the same without comments. Its proof
goes along the definition of `foo`: what is read in a role is rewritten by
`TestScaffold.Tree.childAt?_uncommented`, and what is read of children in turn by one of the lemmas on lists,
which ask for the reading of a comment and of every other child.
-/

namespace TestScaffold

/-- No comment stands where the first named part of a construct is read, whatever it is. -/
structure Tree.NotLedByComment (src : SourceText) (t : Tree) : Prop where
  /-- What a rest pattern collects into is not preceded by a comment. -/
  rest : t.kind = .restPattern → ∀ c ∈ t.firstNamed?, c.isComment = false
  /-- The name that all exports of a module are passed on under is not preceded by a comment. -/
  namespaceExport : t.kind = .namespaceExport → ∀ c ∈ t.firstNamed?, c.isComment = false
  /-- The first argument of a require is not preceded by a comment. -/
  argument : t.kind = .callExpression → isRequireCall src t = true →
    ∀ arguments ∈ t.childAt? .arguments, ∀ c ∈ arguments.firstNamed?, c.isComment = false

/-- The comments in a tree stand where a parser puts them, and none stands where the first part of a
construct is read. -/
structure Tree.CommentsUnread (src : SourceText) (root : Tree) : Prop where
  /-- Comments stand where a parser puts them. -/
  between : ∀ t ∈ root.preorder, t.CommentsBetween
  /-- No comment stands where the first part of a construct is read. -/
  led : ∀ t ∈ root.preorder, t.NotLedByComment src

/-! ## Parameter positions -/

section Parts

variable {root t : Tree}

/-- A parameter puts itself or its pattern at its position. -/
theorem eq_or_childAt?_of_formalPattern? {param pattern : Tree} (h : formalPattern? param = some pattern) :
    pattern = param ∨ param.childAt? .pattern = some pattern := by
  have hself : ∀ {pattern? : Option Tree},
      (pattern?.bind fun p => if p.kind == .this then none else some p) = some pattern →
        pattern? = some pattern := by
    intro pattern? hbind
    obtain ⟨p, rfl, hp⟩ := Option.bind_eq_some_iff.1 hbind
    split at hp
    · cases hp
    · exact hp
  unfold formalPattern? at h
  dsimp only at h
  split at h
  · exact Or.inr (hself h)
  · exact Or.inr (hself h)
  · cases h
  · cases h
  · exact Or.inl (Option.some.inj (hself h)).symm

/-- What stands at a parameter position of a node of a tree is a node of the tree. -/
theorem mem_preorder_of_mem_formalPatterns {pattern : Tree} (ht : t ∈ root.preorder)
    (h : pattern ∈ formalPatterns t) : pattern ∈ root.preorder := by
  unfold formalPatterns at h
  split at h
  · next params hparams =>
    obtain ⟨param, hparam, hpattern⟩ := List.mem_filterMap.1 h
    have hin : param ∈ root.preorder :=
      Tree.mem_preorder_of_mem_namedChildren (Tree.mem_preorder_of_childAt? ht hparams) hparam
    rcases eq_or_childAt?_of_formalPattern? hpattern with rfl | hchild
    · exact hin
    · exact Tree.mem_preorder_of_childAt? hin hchild
  · cases h

end Parts

section Unread

variable {src : SourceText} {root t : Tree} (hroot : root.CommentsUnread src)

include hroot

/-! ## Names and chains -/

section Roles

variable (ht : t ∈ root.preorder)

include ht

theorem map_text_childAt?_uncommented (f : Field) :
    (t.uncommented.childAt? f).map (·.text src) = (t.childAt? f).map (·.text src) := by
  rw [Tree.childAt?_uncommented hroot.between ht, Option.map_map]
  simp only [Function.comp_def, Tree.text_uncommented]

theorem identifierAt?_uncommented (f : Field) :
    identifierAt? src f t.uncommented = identifierAt? src f t := by
  rw [identifierAt?, identifierAt?, Tree.childAt?_uncommented hroot.between ht]
  cases t.childAt? f with
  | none => rfl
  | some c => simp only [Option.map_some, Tree.kind_uncommented, Tree.text_uncommented]

/-- What is read in a role is the same if it is the same for the child in that role. -/
theorem map_childAt?_uncommented {β : Type} {g : Tree → β} {f : Field}
    (hsame : ∀ c ∈ t.children, c ∈ root.preorder → g c.uncommented = g c) :
    (t.uncommented.childAt? f).map g = (t.childAt? f).map g := by
  rw [Tree.childAt?_uncommented hroot.between ht]
  cases hc : t.childAt? f with
  | none => rfl
  | some c =>
    exact congrArg some (hsame c (List.mem_of_find?_eq_some hc) (Tree.mem_preorder_of_childAt? ht hc))

end Roles

theorem nameChain_uncommented (ht : t ∈ root.preorder) : nameChain src t.uncommented = nameChain src t := by
  induction t using Tree.inductionOn_children with
  | h t ih =>
    have hproperty := map_text_childAt?_uncommented hroot ht .property
    have hobject := map_childAt?_uncommented hroot ht (f := .object) ih
    rw [nameChain_eq, nameChain_eq src t, Tree.kind_uncommented, Tree.text_uncommented, hobject,
      ← Option.toList_map, ← Option.toList_map, hproperty]

theorem callChain?_uncommented (ht : t ∈ root.preorder) :
    callChain? src t.uncommented = callChain? src t := by
  unfold callChain?
  rw [Tree.childAt?_uncommented hroot.between ht]
  cases hc : t.childAt? .function with
  | none => rfl
  | some callee =>
    have hchain := nameChain_uncommented hroot (Tree.mem_preorder_of_childAt? ht hc)
    simp only [Option.map_some, Option.bind_eq_bind, Option.bind_some, Tree.kind_uncommented,
      Tree.text_uncommented, hchain]

theorem callChains_uncommented (ht : t ∈ root.preorder) (hcomment : t.isComment = false) :
    callChains src t.uncommented = callChains src t := by
  have hcall : Kind.callExpression ≠ .comment := Kind.noConfusion
  rw [callChains, Tree.preorder_uncommented hroot.between ht hcomment, Tree.filter_kind_uncommented hcall,
    List.filterMap_map, callChains]
  refine List.filterMap_congr fun u hu => ?_
  have hin : u ∈ root.preorder :=
    Tree.preorder_subset_of_mem root ht (List.mem_filter.1 hu).1
  exact callChain?_uncommented hroot hin

theorem patternNames_uncommented (ht : t ∈ root.preorder) :
    patternNames src t.uncommented = patternNames src t := by
  induction t using Tree.inductionOn_children with
  | h t ih =>
    have hvalue := map_childAt?_uncommented hroot ht (f := .value) ih
    have hleft := map_childAt?_uncommented hroot ht (f := .left) ih
    have hnamed : t.uncommented.namedChildren.flatMap (patternNames src) =
        t.namedChildren.flatMap (patternNames src) := by
      rw [Tree.namedChildren_uncommented]
      refine Tree.flatMap_uncommented (fun c _ hc => ?_) fun c hc _ => ?_
      · rw [patternNames_eq, eq_of_beq hc]
      · exact ih c (List.mem_filter.1 hc).1 (Tree.mem_preorder_of_mem_namedChildren ht hc)
    rw [patternNames_eq, patternNames_eq src t, Tree.kind_uncommented, Tree.text_uncommented, hvalue, hleft,
      hnamed]
    -- Only a rest pattern is read through its first named child, which might be a comment.
    cases hkind : t.kind with
    | restPattern =>
      dsimp only
      rw [Tree.firstNamed?_uncommented ((hroot.led t ht).rest hkind)]
      cases hc : t.firstNamed? with
      | none => rfl
      | some c =>
        have hin : c ∈ t.children := List.mem_of_find?_eq_some hc
        exact ih c hin (Tree.mem_preorder_of_mem_children hin root ht)
    | _ => rfl

/-! ## Parameters -/

theorem restName?_uncommented (ht : t ∈ root.preorder) (hkind : t.kind = .restPattern) :
    restName? src t.uncommented = restName? src t := by
  rw [restName?, restName?, Tree.firstNamed?_uncommented ((hroot.led t ht).rest hkind)]
  cases t.firstNamed? with
  | none => rfl
  | some c => simp only [Option.map_some, Tree.kind_uncommented, Tree.text_uncommented]

theorem formalName?_uncommented (ht : t ∈ root.preorder) :
    formalName? src t.uncommented = formalName? src t := by
  induction t using Tree.inductionOn_children with
  | h t ih =>
    rw [formalName?_eq, formalName?_eq src t, Tree.kind_uncommented, Tree.text_uncommented]
    cases hkind : t.kind with
    | assignmentPattern =>
      dsimp only
      rw [Tree.childAt?_uncommented hroot.between ht]
      cases hc : t.childAt? .left with
      | none => rfl
      | some c =>
        exact ih c (List.mem_of_find?_eq_some hc) (Tree.mem_preorder_of_childAt? ht hc)
    | restPattern => exact restName?_uncommented hroot ht hkind
    | _ => rfl

/-- What a parameter puts at its position is the same without comments. -/
theorem formalPattern?_uncommented (ht : t ∈ root.preorder) :
    formalPattern? t.uncommented = (formalPattern? t).map Tree.uncommented := by
  have hpattern : ∀ pattern? : Option Tree,
      (pattern?.map Tree.uncommented).bind (fun p => if p.kind == .this then none else some p) =
        (pattern?.bind fun p => if p.kind == .this then none else some p).map Tree.uncommented := by
    rintro (_ | p)
    · rfl
    · simp only [Option.map_some, Option.bind_some, Tree.kind_uncommented]
      split <;> rfl
  unfold formalPattern?
  rw [Tree.kind_uncommented, Tree.childAt?_uncommented hroot.between ht]
  cases t.kind with
  | requiredParameter => exact hpattern (t.childAt? .pattern)
  | optionalParameter => exact hpattern (t.childAt? .pattern)
  | comment => rfl
  | decorator => rfl
  | _ => exact hpattern (some t)

/-- What stands at each parameter position is the same without comments. -/
theorem formalPatterns_uncommented (ht : t ∈ root.preorder) :
    formalPatterns t.uncommented = (formalPatterns t).map Tree.uncommented := by
  rw [formalPatterns, formalPatterns, Tree.childAt?_uncommented hroot.between ht]
  cases hparams : t.childAt? .parameters with
  | none => rfl
  | some params =>
    dsimp only [Option.map_some]
    rw [Tree.namedChildren_uncommented, List.map_filterMap]
    refine Tree.filterMap_uncommented (fun c _ hc => ?_) fun c hc _ => ?_
    · rw [formalPattern?, eq_of_beq hc]
      rfl
    · have hin := Tree.mem_preorder_of_childAt? ht hparams
      exact formalPattern?_uncommented hroot (Tree.mem_preorder_of_mem_namedChildren hin hc)

theorem parameterNames_uncommented (ht : t ∈ root.preorder) :
    parameterNames src t.uncommented = parameterNames src t := by
  rw [parameterNames, parameterNames, Tree.childAt?_uncommented hroot.between ht]
  cases t.childAt? .parameter with
  | some single => simp only [Option.map_some, Tree.text_uncommented]
  | none =>
    dsimp only [Option.map_none]
    rw [formalPatterns_uncommented hroot ht, List.zipIdx_map, List.map_map]
    refine List.map_congr_left fun entry hentry => ?_
    have hpattern : entry.1 ∈ formalPatterns t := List.fst_mem_of_mem_zipIdx hentry
    have hname := formalName?_uncommented hroot (mem_preorder_of_mem_formalPatterns ht hpattern)
    simp only [Function.comp_apply, Prod.map_fst, Prod.map_snd, id_eq, hname]

theorem parameterDiagnostics_uncommented (ht : t ∈ root.preorder) :
    parameterDiagnostics src t.uncommented = parameterDiagnostics src t := by
  rw [parameterDiagnostics, parameterDiagnostics, Tree.childAt?_uncommented hroot.between ht]
  cases t.childAt? .parameter with
  | some single => rfl
  | none =>
    dsimp only [Option.map_none]
    rw [formalPatterns_uncommented hroot ht, List.filter_map, List.map_map]
    have hname : (formalPatterns t).filter
          ((fun pattern => (formalName? src pattern).isNone) ∘ Tree.uncommented) =
        (formalPatterns t).filter fun pattern => (formalName? src pattern).isNone := by
      refine List.filter_congr fun pattern hpattern => ?_
      rw [Function.comp_apply,
        formalName?_uncommented hroot (mem_preorder_of_mem_formalPatterns ht hpattern)]
    rw [hname]
    simp only [Function.comp_def, Tree.line_uncommented]

/-! ## Scopes -/

theorem declaredName?_uncommented (ht : t ∈ root.preorder) :
    declaredName? src t.uncommented = declaredName? src t := by
  rw [declaredName?, declaredName?, Tree.kind_uncommented, identifierAt?_uncommented hroot ht]

theorem writtenMember?_uncommented (ht : t ∈ root.preorder) :
    writtenMember? src t.uncommented = writtenMember? src t := by
  unfold writtenMember?
  rw [Tree.kind_uncommented, Tree.childAt?_uncommented hroot.between ht]
  cases hleft : t.childAt? .left with
  | none => rfl
  | some left =>
    have hin := Tree.mem_preorder_of_childAt? ht hleft
    simp only [Option.map_some, Option.bind_eq_bind, Option.bind_some, Tree.kind_uncommented,
      Tree.childAt?_uncommented hroot.between hin]
    cases left.childAt? .object with
    | none => rfl
    | some object =>
      cases left.childAt? .property with
      | none => rfl
      | some property =>
        simp only [Option.map_some, Option.bind_some, Tree.kind_uncommented, Tree.text_uncommented]

theorem returns_uncommented (ht : t ∈ root.preorder) (hcomment : t.isComment = false) :
    returns t.uncommented = returns t := by
  rw [returns, returns, Tree.kind_uncommented, Tree.ownNodes_uncommented hroot.between ht hcomment]
  congr 1
  exact Tree.any_uncommented (fun c => by rw [Tree.kind_uncommented])
    fun _ _ hc => Tree.kind_beq_eq_false Kind.noConfusion hc

theorem filterMap_ownNodes_uncommented {β : Type} {f : Tree → Option β} (ht : t ∈ root.preorder)
    (hcomment : t.isComment = false) (hnone : ∀ c : Tree, c.isComment = true → f c = none)
    (hsame : ∀ c ∈ root.preorder, f c.uncommented = f c) :
    t.uncommented.ownNodes.filterMap f = t.ownNodes.filterMap f := by
  rw [Tree.ownNodes_uncommented hroot.between ht hcomment]
  refine Tree.filterMap_uncommented (fun c _ hc => hnone c hc) fun c hc _ => hsame c ?_
  exact Tree.preorder_subset_of_mem root ht (Tree.ownNodes_subset t hc)

theorem scopeFacts_uncommented (ht : t ∈ root.preorder) :
    scopeFacts src t.uncommented = scopeFacts src t := by
  rw [scopeFacts, scopeFacts, Tree.childAt?_uncommented hroot.between ht,
    parameterNames_uncommented hroot ht]
  cases hbody : t.childAt? .body with
  | none => rfl
  | some body =>
    have hin := Tree.mem_preorder_of_childAt? ht hbody
    have hcomment := Tree.isComment_childAt? hroot.between ht hbody
    have hlocals := filterMap_ownNodes_uncommented hroot hin hcomment
      (f := declaredName? src) (fun c hc => by rw [declaredName?, eq_of_beq hc]; rfl)
      fun c hc => declaredName?_uncommented hroot hc
    have hwritten := filterMap_ownNodes_uncommented hroot hin hcomment
      (f := writtenMember? src) (fun c hc => by rw [writtenMember?, eq_of_beq hc]; rfl)
      fun c hc => writtenMember?_uncommented hroot hc
    have hcalls := callChains_uncommented hroot hin hcomment
    have hreturns := returns_uncommented hroot hin hcomment
    simp only [Option.map_some, hlocals, hwritten, hcalls, hreturns]

/-! ## Classes -/

/-- The words before the name of a class member are those that are no comments. -/
theorem modifiers_uncommented (ht : t ∈ root.preorder) :
    modifiers t.uncommented = ((modifiers t).filter (!·.isComment)).map Tree.uncommented := by
  rw [modifiers, Tree.children_uncommented, modifiers]
  refine Tree.takeWhile_uncommented (fun c => by rw [Tree.field_uncommented]) fun c hc hcomment => ?_
  rw [((hroot.between c (Tree.mem_preorder_of_mem_children hc root ht)).leaf hcomment).2]
  rfl

theorem isAccessor_uncommented (ht : t ∈ root.preorder) : isAccessor t.uncommented = isAccessor t := by
  rw [isAccessor, isAccessor, modifiers_uncommented hroot ht]
  refine Tree.any_uncommented (fun c => by rw [Tree.kind_uncommented]) fun _ _ hc => ?_
  rw [Tree.kind_beq_eq_false Kind.noConfusion hc, Tree.kind_beq_eq_false Kind.noConfusion hc]
  rfl

theorem isStatic_uncommented (ht : t ∈ root.preorder) : isStatic t.uncommented = isStatic t := by
  rw [isStatic, isStatic, modifiers_uncommented hroot ht]
  exact Tree.any_uncommented (fun c => by rw [Tree.kind_uncommented])
    fun _ _ hc => Tree.kind_beq_eq_false Kind.noConfusion hc

theorem method?_uncommented (ht : t ∈ root.preorder) : method? src t.uncommented = method? src t := by
  rw [method?, method?, Tree.childAt?_uncommented hroot.between ht]
  cases t.childAt? .name with
  | none => rfl
  | some name =>
    simp only [Option.map_some, isAccessor_uncommented hroot ht, isStatic_uncommented hroot ht,
      scopeFacts_uncommented hroot ht, Tree.text_uncommented]

theorem markedFields_uncommented (ht : t ∈ root.preorder) :
    markedFields src t.uncommented = markedFields src t := by
  rw [markedFields, markedFields, Tree.childAt?_uncommented hroot.between ht]
  cases hparams : t.childAt? .parameters with
  | none => rfl
  | some params =>
    have hin := Tree.mem_preorder_of_childAt? ht hparams
    dsimp only [Option.map_some]
    rw [Tree.namedChildren_uncommented, Tree.filter_uncommented, List.filterMap_map]
    · refine List.filterMap_congr fun c hc => ?_
      have hc' := Tree.mem_preorder_of_mem_namedChildren hin (List.mem_filter.1 hc).1
      exact identifierAt?_uncommented hroot hc' _
    · intro c
      rw [Tree.hasChildOfKind_uncommented Kind.noConfusion, Tree.hasChildOfKind_uncommented Kind.noConfusion]
    · intro c hc hcomment
      have hleaf := ((hroot.between c (Tree.mem_preorder_of_mem_namedChildren hin hc)).leaf hcomment).1
      simp [Tree.hasChildOfKind, hleaf]

theorem declaredFields_uncommented (ht : t ∈ root.preorder) :
    declaredFields src t.uncommented = declaredFields src t := by
  have hname : ((t.uncommented.childAt? .name).or (t.uncommented.childAt? .property)).map (·.text src) =
      ((t.childAt? .name).or (t.childAt? .property)).map (·.text src) := by
    rw [Option.map_or, Option.map_or, map_text_childAt?_uncommented hroot ht,
      map_text_childAt?_uncommented hroot ht]
  rw [declaredFields, declaredFields, Tree.kind_uncommented, hname, method?_uncommented hroot ht,
    markedFields_uncommented hroot ht]

/-- The members of a class are those that are no comments. -/
theorem classMembers_uncommented (ht : t ∈ root.preorder) :
    classMembers t.uncommented = ((classMembers t).filter (!·.isComment)).map Tree.uncommented := by
  rw [classMembers, classMembers, Tree.childAt?_uncommented hroot.between ht]
  cases t.childAt? .body with
  | none => rfl
  | some body => exact Tree.namedChildren_uncommented

/-- The methods of a class are the same, each with its member without comments. -/
theorem methodMembers_uncommented (ht : t ∈ root.preorder) :
    methodMembers src (classMembers t.uncommented) =
      (methodMembers src (classMembers t)).map fun (member, m) => (member.uncommented, m) := by
  have hmethod : Kind.methodDefinition ≠ .comment := Kind.noConfusion
  rw [classMembers_uncommented hroot ht, methodMembers, Tree.filter_kind_uncommented hmethod,
    List.filterMap_map, methodMembers, List.map_filterMap]
  refine List.filterMap_congr fun c hc => ?_
  have hin := Tree.mem_preorder_of_mem_classMembers ht (List.mem_filter.1 hc).1
  rw [Function.comp_apply, method?_uncommented hroot hin, Option.map_map]
  rfl

theorem classReading_uncommented (ht : t ∈ root.preorder) (name : String) :
    classReading src t.uncommented name = classReading src t name := by
  have hmethods := methodMembers_uncommented hroot ht
  have hfields : (classMembers t.uncommented).flatMap (declaredFields src) =
      (classMembers t).flatMap (declaredFields src) := by
    rw [classMembers_uncommented hroot ht]
    refine Tree.flatMap_uncommented (fun c _ hc => ?_) fun c hc _ => ?_
    · rw [declaredFields, eq_of_beq hc]
    · exact declaredFields_uncommented hroot (Tree.mem_preorder_of_mem_classMembers ht hc)
  have hdiagnostics : (methodMembers src (classMembers t.uncommented)).flatMap
        (fun (member, _) => parameterDiagnostics src member) =
      (methodMembers src (classMembers t)).flatMap
        fun (member, _) => parameterDiagnostics src member := by
    rw [hmethods, List.flatMap_map]
    refine List.flatMap_congr fun entry hentry => ?_
    have hin := Tree.mem_preorder_of_mem_classMembers ht (Tree.of_mem_methodMembers hentry).1
    exact parameterDiagnostics_uncommented hroot hin
  have hread : ∀ u : Tree, classReading src u name =
      { unit :=
          { name
            fields :=
              ((classMembers u).flatMap (declaredFields src) ++
                (methodMembers src (classMembers u)).flatMap fun (_, m) => m.writtenMembers).eraseDups
            methods := withConstructor ((methodMembers src (classMembers u)).map (·.2)) }
        diagnostics := (methodMembers src (classMembers u)).flatMap fun (member, _) =>
          parameterDiagnostics src member } := fun _ => rfl
  rw [hread, hread t, hdiagnostics, hfields, hmethods, List.flatMap_map, List.map_map]
  rfl

end Unread

end TestScaffold
