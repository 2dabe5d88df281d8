import TestScaffold.Generation
import TestScaffold.Proofs.CommentFree
import TestScaffold.Proofs.Distinct
import TestScaffold.Proofs.FoundUnits
import TestScaffold.Proofs.StepwisePlaces
import TestScaffold.Syntax.Listing

set_option autoImplicit false

/-!
# Names bound by requires

A `require` call binds the names of the declaration whose value it is or leads to. Which declaration this is depends
on the steps above the call only, and which names there are on the places in the pattern only. So both are said by
places here: the call is reached from the declaration through member accesses, calls, parentheses and awaits, and the
names stand where steps of certain sorts lead to in the pattern.

## Main definitions

* `TestScaffold.Tree.bindingPlaces` — the places where a pattern binds names.
* `TestScaffold.ClimbsTo` — the value of a node initialises a declaration.
* `TestScaffold.Locus.Records` — what is recorded for a `require` call.

## Main results

* `TestScaffold.Tree.patternNames_eq_map` — the names that a pattern binds stand at its binding places.
* `TestScaffold.declaratorAbove?_eq_some` — the declaration that is found by climbing.
* `TestScaffold.Locus.records_iff` — what is recorded for a `require` call.
* `TestScaffold.requires_recorded` — what a `require` call adds to a model, and its statement in a scaffold.
-/

namespace TestScaffold

/-! ## Binding places -/

/-- Whether a step in a pattern goes on to what is bound: to an entry of an object or array pattern, to the value of
a property, to the left side of a default, or to the first named child of a rest pattern. -/
def Crumb.entersBinding (c : Crumb) : Bool :=
  match c.parent.kind with
  | .objectPattern | .arrayPattern => c.parent.children[c.index]?.any (·.isNamed)
  | .pairPattern => c.fills .value
  | .assignmentPattern | .objectAssignmentPattern => c.fills .left
  | .restPattern => c.parent.children.findIdx? (·.isNamed) == some c.index
  | _ => false

namespace Tree

/-- Whether a node of a pattern is a name: a plain one, or a property that is bound under its own name. -/
def isBoundName (t : Tree) : Bool := t.kind == .identifier || t.kind == .shorthandPropertyIdentifierPattern

/-- The places where a pattern binds names, in source order. -/
def bindingPlaces (pattern : Tree) : List Locus :=
  (pattern.loci []).filter fun p => p.above.all Crumb.entersBinding && p.node.isBoundName

section Entered

variable {β : Type} (g : Tree → List β) (t : Tree)

/-- What is read of the named children is read of those that a step goes on to. -/
theorem flatMap_enteredEntries (h : t.kind = .objectPattern ∨ t.kind = .arrayPattern) :
    (t.children.zipIdx.filter fun e => Crumb.entersBinding ⟨t, e.2⟩).flatMap (fun e => g e.1) =
      t.namedChildren.flatMap g := by
  rw [namedChildren, ← flatMap_filter_zipIdx isNamed g 0]
  congr 1
  refine List.filter_congr fun e he => ?_
  have hentry : t.children[e.2]? = some e.1 := List.mem_zipIdx_iff_getElem?.1 he
  rcases h with h | h <;> simp [Crumb.entersBinding, h, hentry]

/-- What is read of the one child that a step goes on to, if this is the first child with a property. -/
theorem flatMap_enteredFirst (p : Tree → Bool)
    (h : ∀ i, Crumb.entersBinding ⟨t, i⟩ = (t.children.findIdx? p == some i)) :
    (t.children.zipIdx.filter fun e => Crumb.entersBinding ⟨t, e.2⟩).flatMap (fun e => g e.1) =
      ((t.children.find? p).map g).getD [] := by
  have hfirst : (t.children.zipIdx.filter fun e => Crumb.entersBinding ⟨t, e.2⟩).map (·.1) =
      (t.children.find? p).toList := by
    rw [← map_fst_filter_zipIdx p 0]
    simp [h]
  rw [← List.flatMap_map, hfirst]
  cases t.children.find? p <;> simp

/-- What is read of the child in the role that steps go on to. -/
theorem flatMap_enteredRole (f : Field) (h : ∀ i, Crumb.entersBinding ⟨t, i⟩ = Crumb.fills ⟨t, i⟩ f) :
    (t.children.zipIdx.filter fun e => Crumb.entersBinding ⟨t, e.2⟩).flatMap (fun e => g e.1) =
      ((t.childAt? f).map g).getD [] :=
  flatMap_enteredFirst g t (·.field == some f) h

/-- What is read where no step goes on is nothing. -/
theorem flatMap_enteredNone (h : ∀ i, Crumb.entersBinding ⟨t, i⟩ = false) :
    (t.children.zipIdx.filter fun e => Crumb.entersBinding ⟨t, e.2⟩).flatMap (fun e => g e.1) = [] := by
  simp [h]

end Entered

/-- The names of a pattern are its own, if it is a name, and those of what its steps go on to. -/
theorem patternNames_eq_flatMap (src : SourceText) (t : Tree) :
    patternNames src t = (if t.isBoundName then [t.text src] else []) ++
      (t.children.zipIdx.filter fun e => Crumb.entersBinding ⟨t, e.2⟩).flatMap fun e => patternNames src e.1 := by
  have hsteps : ∀ i, Crumb.entersBinding ⟨t, i⟩ =
      match t.kind with
      | .objectPattern | .arrayPattern => t.children[i]?.any (·.isNamed)
      | .pairPattern => Crumb.fills ⟨t, i⟩ .value
      | .assignmentPattern | .objectAssignmentPattern => Crumb.fills ⟨t, i⟩ .left
      | .restPattern => t.children.findIdx? (·.isNamed) == some i
      | _ => false := fun _ => rfl
  rw [patternNames_eq]
  split
  · next h => simp [flatMap_enteredNone _ t fun i => by rw [hsteps, h], isBoundName, h]
  · next h => simp [flatMap_enteredNone _ t fun i => by rw [hsteps, h], isBoundName, h]
  · next h => simp [flatMap_enteredEntries _ t (.inl h), isBoundName, h]
  · next h => simp [flatMap_enteredEntries _ t (.inr h), isBoundName, h]
  · next h => simp [flatMap_enteredRole _ t .value fun i => by rw [hsteps, h], isBoundName, h]
  · next h => simp [flatMap_enteredRole _ t .left fun i => by rw [hsteps, h], isBoundName, h]
  · next h => simp [flatMap_enteredRole _ t .left fun i => by rw [hsteps, h], isBoundName, h]
  · next h => simp [flatMap_enteredFirst _ t isNamed fun i => by rw [hsteps, h], isBoundName, h, firstNamed?]
  · next hname hproperty _ _ _ _ _ _ =>
    have hown : t.isBoundName = false := by simpa [isBoundName] using ⟨hname, hproperty⟩
    simp [flatMap_enteredNone _ t fun i => by simp only [hsteps], hown]

/-- **The names that a pattern binds** stand at its binding places. -/
theorem patternNames_eq_map (src : SourceText) (pattern : Tree) :
    patternNames src pattern = pattern.bindingPlaces.map (·.node.text src) := by
  have hplaces := flatMap_filter_loci (List.all · Crumb.entersBinding) Crumb.entersBinding
    (fun t => if t.isBoundName then [t.text src] else []) (fun _ _ _ => rfl) (patternNames_eq_flatMap src) rfl pattern
  calc patternNames src pattern
    _ = ((pattern.loci []).filter fun p => p.above.all Crumb.entersBinding).flatMap fun p =>
          if p.node.isBoundName then [p.node.text src] else [] := by
      rw [hplaces, patternNames_eq_flatMap]
      simp
    _ = pattern.bindingPlaces.map (·.node.text src) := by
      rw [flatMap_ite_singleton, bindingPlaces, List.filter_filter]
      simp [Bool.and_comm]

end Tree

/-! ## Initialised declarations -/

/-- The value of a node is taken over by its parent: the parent reads a member of it, calls it, puts it into
parentheses or awaits it. -/
def Crumb.Passes (c : Crumb) : Prop :=
  c.parent.kind = .memberExpression ∧ c.fills .object = true ∨
    c.parent.kind = .callExpression ∧ c.fills .function = true ∨
    c.parent.kind = .parenthesizedExpression ∨ c.parent.kind = .awaitExpression

/-- `ClimbsTo above declarator outer`: a node with the given steps above it initialises a declaration. The declaration
takes its value from the node or from what the value of the node leads to, and has the steps `outer` above it. -/
def ClimbsTo (above : List Crumb) (declarator : Tree) (outer : List Crumb) : Prop :=
  ∃ passed last, above = passed ++ last :: outer ∧ (∀ c ∈ passed, c.Passes) ∧
    last.parent = declarator ∧ declarator.kind = .variableDeclarator ∧ last.fills .value = true

section Initialised

variable {c : Crumb} {above outer : List Crumb} {declarator : Tree}

/-- Where the value of a node is taken over. -/
theorem Crumb.passesValue_eq_true : c.passesValue = true ↔ c.Passes := by
  unfold passesValue Passes
  split <;> simp_all

/-- Climbing goes on from a step that passes the value. -/
theorem climbsTo_cons_of_passes (h : c.Passes) :
    ClimbsTo (c :: above) declarator outer ↔ ClimbsTo above declarator outer := by
  constructor
  · rintro ⟨_ | ⟨d, passed⟩, last, habove, hpassed, hlast, hkind, hvalue⟩
    · -- a declaration passes no value
      obtain ⟨rfl, rfl⟩ := List.cons.inj habove
      rw [Crumb.Passes, hlast, hkind] at h
      simp at h
    · exact ⟨passed, last, (List.cons.inj habove).2, fun d hd => hpassed d (List.mem_cons_of_mem _ hd), hlast, hkind,
        hvalue⟩
  · rintro ⟨passed, last, rfl, hpassed, hlast⟩
    exact ⟨c :: passed, last, rfl, List.forall_mem_cons.2 ⟨h, hpassed⟩, hlast⟩

/-- Climbing ends at any other step. -/
theorem climbsTo_cons_of_not_passes (h : ¬c.Passes) :
    ClimbsTo (c :: above) declarator outer ↔
      c.parent = declarator ∧ above = outer ∧ declarator.kind = .variableDeclarator ∧ c.fills .value = true := by
  constructor
  · rintro ⟨_ | ⟨d, passed⟩, last, habove, hpassed, hlast, hkind, hvalue⟩
    · obtain ⟨rfl, rfl⟩ := List.cons.inj habove
      exact ⟨hlast, rfl, hkind, hvalue⟩
    · obtain ⟨rfl, -⟩ := List.cons.inj habove
      exact absurd (hpassed c List.mem_cons_self) h
  · rintro ⟨hparent, rfl, hkind, hvalue⟩
    exact ⟨[], c, rfl, nofun, hparent, hkind, hvalue⟩

/-- **The declaration that is found by climbing** is the one that is initialised. -/
theorem declaratorAbove?_eq_some :
    declaratorAbove? above = some (declarator, outer) ↔ ClimbsTo above declarator outer := by
  induction above with
  | nil => simp [declaratorAbove?, ClimbsTo]
  | cons c above ih =>
    rw [declaratorAbove?]
    by_cases hpasses : c.Passes
    · rw [if_pos (Crumb.passesValue_eq_true.2 hpasses), ih, climbsTo_cons_of_passes hpasses]
    · rw [if_neg (mt Crumb.passesValue_eq_true.1 hpasses), climbsTo_cons_of_not_passes hpasses,
        Option.ite_none_right_eq_some, Option.some.injEq, Prod.mk.injEq, Bool.and_eq_true, beq_iff_eq]
      constructor
      · rintro ⟨⟨hkind, hvalue⟩, rfl, rfl⟩
        exact ⟨rfl, rfl, hkind, hvalue⟩
      · rintro ⟨rfl, rfl, hkind, hvalue⟩
        exact ⟨⟨hkind, hvalue⟩, rfl, rfl⟩

end Initialised

/-! ## Literal arguments -/

namespace Tree

/-- A node is a string, or a template without computed parts. -/
def IsLiteral (t : Tree) : Prop :=
  t.kind = .string ∨ t.kind = .templateString ∧ ∀ c ∈ t.namedChildren, c.kind ≠ .templateSubstitution

/-- `call.HasLiteralArgument src path`: the first argument of a call is a literal, and `path` is its text without
quotes. A comment is no argument. -/
def HasLiteralArgument (src : SourceText) (call : Tree) (path : String) : Prop :=
  ∃ arguments first, call.childAt? .arguments = some arguments ∧
    arguments.namedChildren.find? (!·.isComment) = some first ∧ first.IsLiteral ∧ stripQuotes (first.text src) = path

/-- A comment stands before the arguments of a call. -/
def LedByComment (call : Tree) : Prop :=
  ∃ arguments first, call.childAt? .arguments = some arguments ∧ arguments.firstNamed? = some first ∧
    first.isComment = true

section Literals

variable {src : SourceText} {call : Tree} {path : String}

/-- What is read where the first named child of the arguments is given. -/
theorem literalArgument?_eq_some_of_first {arguments first : Tree}
    (harguments : call.childAt? .arguments = some arguments) (hfirst : arguments.firstNamed? = some first) :
    literalArgument? src call = some path ↔ first.IsLiteral ∧ stripQuotes (first.text src) = path := by
  rw [literalArgument?, harguments, Option.bind_eq_bind, Option.bind_some, hfirst, Option.bind_some, IsLiteral]
  split
  · next h => simp [h]
  · next h => simp [h]
  · next hstring htemplate =>
    exact ⟨nofun, fun ⟨hliteral, _⟩ => hliteral.elim (absurd · hstring) fun h => absurd h.1 htemplate⟩

/-- **A path is read** where the first argument is a literal and no comment stands before it. -/
theorem literalArgument?_eq_some :
    literalArgument? src call = some path ↔ call.HasLiteralArgument src path ∧ ¬call.LedByComment := by
  unfold HasLiteralArgument LedByComment
  cases harguments : call.childAt? .arguments with
  | none => simp [literalArgument?, harguments]
  | some arguments =>
    have hhead : arguments.firstNamed? = arguments.namedChildren.head? := List.head?_filter.symm
    cases hnamed : arguments.namedChildren with
    | nil => simp [literalArgument?, harguments, hhead, hnamed]
    | cons first rest =>
      rw [hnamed, List.head?_cons] at hhead
      rw [literalArgument?_eq_some_of_first harguments hhead]
      by_cases hcomment : first.isComment = true
      · have hkind : first.kind = .comment := eq_of_beq hcomment
        simp [hnamed, hhead, hcomment, IsLiteral, hkind]
      · simp [hnamed, hhead, hcomment]

end Literals

end Tree

/-! ## What is recorded -/

namespace Locus

section Recorded

variable {src : SourceText} {p : Locus} {found : List Finding}

/-- A `require` call stands at a place. -/
structure CallsRequire (src : SourceText) (p : Locus) : Prop where
  /-- The node is a call. -/
  holds : p.Holds [.callExpression]
  /-- What is called is `require`. -/
  callee : ∃ callee, p.node.childAt? .function = some callee ∧ callee.kind = .identifier ∧ callee.text src = "require"

/-- `p.Records src found`: what is recorded for a `require` call. -/
inductive Records (src : SourceText) (p : Locus) : List Finding → Prop where
  /-- Each name of the declaration that is initialised is bound, in source order. All are bound to one module, and by
  the text of the declaration. -/
  | bound {declarator pattern : Tree} {outer : List Crumb} {path : String}
      (hclimb : ClimbsTo p.above declarator outer) (hpattern : declarator.childAt? .name = some pattern)
      (hpath : p.node.HasLiteralArgument src path) (hled : ¬p.node.LedByComment)
      (hbinds : pattern.bindingPlaces ≠ []) :
    Records src p (pattern.bindingPlaces.map fun q =>
      .required ⟨q.node.text src, path, declarationKeyword src outer ++ " " ++ declarator.text src ++ ";"⟩)
  /-- A pattern that binds nothing is reported. -/
  | empty {declarator pattern : Tree} {outer : List Crumb} {path : String}
      (hclimb : ClimbsTo p.above declarator outer) (hpattern : declarator.childAt? .name = some pattern)
      (hpath : p.node.HasLiteralArgument src path) (hled : ¬p.node.LedByComment)
      (hbinds : pattern.bindingPlaces = []) :
    Records src p [.flagged ⟨.emptyPattern, pattern.line src⟩]
  /-- A path that is not read is reported. -/
  | computed {declarator pattern : Tree} {outer : List Crumb}
      (hclimb : ClimbsTo p.above declarator outer) (hpattern : declarator.childAt? .name = some pattern)
      (hpath : ∀ path, p.node.HasLiteralArgument src path → p.node.LedByComment) :
    Records src p [.flagged ⟨.computedPath, p.node.line src⟩]
  /-- A call that initialises no declaration records nothing. -/
  | elsewhere (hnone : ∀ declarator outer, ClimbsTo p.above declarator outer → declarator.childAt? .name = none) :
    Records src p []

/-- What is found at a `require` call. -/
theorem findings_eq_requireFindings (h : p.CallsRequire src) : p.findings src = requireFindings src p := by
  obtain ⟨⟨hnamed, hkind⟩, -⟩ := h
  simp [findings, hnamed, List.mem_singleton.1 hkind]

/-- A `require` call is one that is read as such. -/
theorem CallsRequire.isRequireCall (h : p.CallsRequire src) : isRequireCall src p.node = true := by
  obtain ⟨callee, hcallee, hname, htext⟩ := h.callee
  simp [TestScaffold.isRequireCall, hcallee, hname, htext]

/-- What is found at a `require` call is recorded for it. -/
theorem records_findings (h : p.CallsRequire src) : p.Records src (p.findings src) := by
  rw [findings_eq_requireFindings h, requireFindings, h.isRequireCall, Bool.not_true, if_neg Bool.false_ne_true]
  cases habove : declaratorAbove? p.above with
  | none =>
    refine .elsewhere fun declarator outer hclimb => ?_
    rw [← declaratorAbove?_eq_some, habove] at hclimb
    cases hclimb
  | some found =>
    obtain ⟨declarator, outer⟩ := found
    have hclimb := declaratorAbove?_eq_some.1 habove
    dsimp only
    cases hpattern : declarator.childAt? .name with
    | none =>
      refine .elsewhere fun declarator' outer' hclimb' => ?_
      rw [← declaratorAbove?_eq_some, habove] at hclimb'
      cases hclimb'
      exact hpattern
    | some pattern =>
      dsimp only
      cases hpath : literalArgument? src p.node with
      | none =>
        refine .computed hclimb hpattern fun path hliteral => ?_
        by_contra hled
        have hread := Tree.literalArgument?_eq_some.2 ⟨hliteral, hled⟩
        rw [hpath] at hread
        cases hread
      | some path =>
        obtain ⟨hliteral, hled⟩ := Tree.literalArgument?_eq_some.1 hpath
        dsimp only
        rw [Tree.patternNames_eq_map, List.isEmpty_map, List.map_map]
        cases hempty : pattern.bindingPlaces.isEmpty with
        | true => exact .empty hclimb hpattern hliteral hled (List.isEmpty_iff.1 hempty)
        | false => exact .bound hclimb hpattern hliteral hled (by simpa using hempty)

/-- What is recorded for a `require` call is found at it. -/
theorem Records.findings_eq (h : p.CallsRequire src) (hrecords : p.Records src found) : p.findings src = found := by
  rw [findings_eq_requireFindings h, requireFindings, h.isRequireCall, Bool.not_true, if_neg Bool.false_ne_true]
  cases hrecords with
  | bound hclimb hpattern hpath hled hbinds =>
    simp [declaratorAbove?_eq_some.2 hclimb, hpattern, Tree.literalArgument?_eq_some.2 ⟨hpath, hled⟩,
      Tree.patternNames_eq_map, hbinds]
  | empty hclimb hpattern hpath hled hbinds =>
    simp [declaratorAbove?_eq_some.2 hclimb, hpattern, Tree.literalArgument?_eq_some.2 ⟨hpath, hled⟩,
      Tree.patternNames_eq_map, hbinds]
  | computed hclimb hpattern hpath =>
    have hnone : literalArgument? src p.node = none := by
      refine Option.eq_none_iff_forall_ne_some.2 fun path hread => ?_
      obtain ⟨hliteral, hled⟩ := Tree.literalArgument?_eq_some.1 hread
      exact hled (hpath path hliteral)
    simp [declaratorAbove?_eq_some.2 hclimb, hpattern, hnone]
  | elsewhere hnone =>
    cases habove : declaratorAbove? p.above with
    | none => rfl
    | some found =>
      obtain ⟨declarator, outer⟩ := found
      simp [hnone declarator outer (declaratorAbove?_eq_some.1 habove)]

/-- **What is recorded for a `require` call** is what is found at it. -/
theorem records_iff (h : p.CallsRequire src) : p.Records src found ↔ p.findings src = found :=
  ⟨Records.findings_eq h, fun hfound => hfound ▸ records_findings h⟩

end Recorded

end Locus

/-- What is found at a place stands between what is found before and after it. -/
theorem filterMap_findings_eq_append {β : Type} (src : SourceText) (sort : Finding → Option β) {places : List Locus}
    {earlier later : List Locus} {p : Locus} (hplace : places = earlier ++ p :: later) :
    (places.flatMap (Locus.findings src)).filterMap sort =
      (earlier.flatMap (Locus.findings src)).filterMap sort ++ (p.findings src).filterMap sort ++
        (later.flatMap (Locus.findings src)).filterMap sort := by
  simp [hplace]

/-! ## Statements in a scaffold -/

/-- `m.WritesRequires statements`: the scaffold of a module has the given statements behind its `import` statements,
as the only ones for requires. -/
def Model.WritesRequires (m : Model) (statements : List String) : Prop :=
  ∀ framework, scaffold? framework m = (subjectSection? m).map fun subject =>
    ⟨Statement.spaced (reportSection m) ++
      Statement.spaced (framework.preamble ++ m.imports.flatMap (importSection framework m) ++
        statements.map .line) ++
      Statement.spaced subject ++ [suite framework m]⟩

/-- The statements of the requires are written once each, in the order of first occurrences. -/
theorem exists_writesRequires (m : Model) :
    ∃ statements, FirstOccurrences (m.requires.map (·.statement)) statements ∧ m.WritesRequires statements :=
  ⟨requireStatements m.requires, firstOccurrences_iff.2 rfl, fun _ => rfl⟩

/-- **A require with a literal path that no comment stands before** binds each name of the declaration that it
initialises, one after the other and to one module and statement; a declaration without names is reported instead.
Other requires bind nothing, and one that initialises no declaration records nothing at all. The statements stand in
a scaffold once each, in the order of first occurrences.

**Proof sketch.** Climbing passes the steps that take the value over, so it ends at the declaration that is
initialised. The recursion over the pattern gets to the binding places in source order. What is found at a place
stands between what is found at the places before and after it. -/
theorem requires_recorded {src : SourceText} {root : Tree} {earlier later : List Locus} {p : Locus}
    (specifier : String) (hplace : root.loci [] = earlier ++ p :: later) (hcall : p.CallsRequire src) :
    ∃ found, (∀ other, p.Records src other ↔ other = found) ∧
      (Findings.ofTree src specifier root).requires =
        (earlier.flatMap (Locus.findings src)).filterMap Finding.require? ++ found.filterMap Finding.require? ++
          (later.flatMap (Locus.findings src)).filterMap Finding.require? ∧
      (Findings.ofTree src specifier root).diagnostics =
        (earlier.flatMap (Locus.findings src)).filterMap Finding.diagnostic? ++
          found.filterMap Finding.diagnostic? ++
          (later.flatMap (Locus.findings src)).filterMap Finding.diagnostic? ∧
      ∃ statements, FirstOccurrences ((Findings.ofTree src specifier root).requires.map (·.statement)) statements ∧
        (Findings.ofTree src specifier root).toModel.WritesRequires statements :=
  ⟨p.findings src, fun _ => (Locus.records_iff hcall).trans eq_comm,
    filterMap_findings_eq_append src Finding.require? hplace,
    filterMap_findings_eq_append src Finding.diagnostic? hplace,
    exists_writesRequires (Findings.ofTree src specifier root).toModel⟩

/-- The listing of a declaration with a nested pattern, of a value that a require leads to. -/
def nestedRequireListing : List Row :=
  [.make 0 1 "program" 0 57 none, .make 1 1 "lexical_declaration" 0 57 none, .make 2 0 "const" 0 5 "kind",
    .make 2 1 "variable_declarator" 6 56 none, .make 3 1 "object_pattern" 6 28 "name", .make 4 0 "\x7b" 6 7 none,
    .make 4 1 "pair_pattern" 8 20 none, .make 5 1 "property_identifier" 8 9 "key", .make 5 0 ":" 9 10 none,
    .make 5 1 "object_pattern" 11 20 "value", .make 6 0 "\x7b" 11 12 none,
    .make 6 1 "object_assignment_pattern" 13 18 none,
    .make 7 1 "shorthand_property_identifier_pattern" 13 14 "left", .make 7 0 "=" 15 16 none,
    .make 7 1 "number" 17 18 "right", .make 6 0 "\x7d" 19 20 none, .make 4 0 "," 20 21 none,
    .make 4 1 "rest_pattern" 22 26 none, .make 5 0 "..." 22 25 none, .make 5 1 "identifier" 25 26 none,
    .make 4 0 "\x7d" 27 28 none, .make 3 0 "=" 29 30 none, .make 3 1 "call_expression" 31 56 "value",
    .make 4 1 "parenthesized_expression" 31 53 "function", .make 5 0 "(" 31 32 none,
    .make 5 1 "await_expression" 32 52 none, .make 6 0 "await" 32 37 none,
    .make 6 1 "member_expression" 38 52 none, .make 7 1 "call_expression" 38 50 "object",
    .make 8 1 "identifier" 38 45 "function", .make 8 1 "arguments" 45 50 "arguments", .make 9 0 "(" 45 46 none,
    .make 9 1 "string" 46 49 none, .make 10 0 "\"" 46 47 none, .make 10 1 "string_fragment" 47 48 none,
    .make 10 0 "\"" 48 49 none, .make 9 0 ")" 49 50 none, .make 7 0 "." 50 51 none,
    .make 7 1 "property_identifier" 51 52 "property", .make 5 0 ")" 52 53 none,
    .make 4 1 "arguments" 53 56 "arguments", .make 5 0 "(" 53 54 none, .make 5 1 "number" 54 55 none,
    .make 5 0 ")" 55 56 none, .make 2 0 ";" 56 57 none]

/-- The text of that declaration. -/
def nestedRequireText : SourceText :=
  SourceText.ofString "const \x7b a: \x7b b = 1 \x7d, ...c \x7d = (await require(\"z\").x)(1);"

/-- The module with that declaration. -/
def nestedRequireTree : Tree := (Tree.ofRows? nestedRequireListing).get rfl

/-- The place of the call of `require`. -/
def nestedRequirePlace : Locus :=
  ((nestedRequireTree.loci []).find? fun p => p.node.kind == .callExpression && p.node.field == some .object).get rfl

/-- A require binds the names of a nested pattern, none of them a key or a default value. -/
theorem requires_recorded_nested :
    nestedRequirePlace ∈ nestedRequireTree.loci [] ∧ nestedRequirePlace.CallsRequire nestedRequireText ∧
      (Findings.ofTree nestedRequireText "my-module" nestedRequireTree).requires =
        [⟨"b", "z", "const \x7b a: \x7b b = 1 \x7d, ...c \x7d = (await require(\"z\").x)(1);"⟩,
          ⟨"c", "z", "const \x7b a: \x7b b = 1 \x7d, ...c \x7d = (await require(\"z\").x)(1);"⟩] ∧
      ∃ found, (∀ other, nestedRequirePlace.Records nestedRequireText other ↔ other = found) ∧
        found.filterMap Finding.require? <:+:
          (Findings.ofTree nestedRequireText "my-module" nestedRequireTree).requires := by
  have hplace : nestedRequirePlace ∈ nestedRequireTree.loci [] :=
    List.mem_of_find?_eq_some (Option.some_get _).symm
  have hcall : nestedRequirePlace.CallsRequire nestedRequireText :=
    ⟨⟨rfl, by decide⟩, (nestedRequirePlace.node.childAt? .function).get rfl, (Option.some_get _).symm, rfl, rfl⟩
  obtain ⟨earlier, later, hsplit⟩ := List.append_of_mem hplace
  obtain ⟨found, hfound, hrequires, -⟩ := requires_recorded "my-module" hsplit hcall
  exact ⟨hplace, hcall, by decide +kernel, found, hfound, _, _, hrequires.symm⟩

/-- The module with a require that a comment stands before the argument of. -/
def leadingCommentTree : Tree := (Tree.ofRows? leadingCommentListing).get rfl

/-- The place of the call of `require` there. -/
def leadingCommentPlace : Locus :=
  ((leadingCommentTree.loci []).find? fun p => p.node.kind == .callExpression).get rfl

/-- A comment before the path hides it: nothing is bound, though the call has a literal argument and initialises a
declaration of a name. -/
theorem requires_unrecorded_leading :
    ∃ declarator outer pattern, leadingCommentPlace ∈ leadingCommentTree.loci [] ∧
      leadingCommentPlace.CallsRequire leadingCommentText ∧
      ClimbsTo leadingCommentPlace.above declarator outer ∧ declarator.childAt? .name = some pattern ∧
      pattern.bindingPlaces.map (·.node.text leadingCommentText) = ["b"] ∧
      leadingCommentPlace.node.HasLiteralArgument leadingCommentText "z" ∧
      (Findings.ofTree leadingCommentText "my-module" leadingCommentTree).requires = [] ∧
      (Findings.ofTree leadingCommentText "my-module" leadingCommentTree).diagnostics = [⟨.computedPath, 1⟩] := by
  have habove : declaratorAbove? leadingCommentPlace.above =
      some ((declaratorAbove? leadingCommentPlace.above).get rfl) :=
    (Option.some_get _).symm
  have hcall : leadingCommentPlace.CallsRequire leadingCommentText :=
    ⟨⟨rfl, by decide⟩, (leadingCommentPlace.node.childAt? .function).get rfl, (Option.some_get _).symm, rfl, rfl⟩
  have hliteral : leadingCommentPlace.node.HasLiteralArgument leadingCommentText "z" :=
    ⟨(leadingCommentPlace.node.childAt? .arguments).get rfl,
      (((leadingCommentPlace.node.childAt? .arguments).get rfl).namedChildren.find? (!·.isComment)).get rfl,
      (Option.some_get _).symm, (Option.some_get _).symm, .inl rfl, by decide⟩
  exact ⟨_, _, (((declaratorAbove? leadingCommentPlace.above).get rfl).1.childAt? .name).get rfl,
    List.mem_of_find?_eq_some (Option.some_get _).symm, hcall, declaratorAbove?_eq_some.1 habove,
    (Option.some_get _).symm, by decide, hliteral, by decide, by decide⟩

end TestScaffold
