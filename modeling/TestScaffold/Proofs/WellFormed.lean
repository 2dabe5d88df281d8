import TestScaffold.Generation
import TestScaffold.Syntax.Listing
import TestScaffold.Proofs.PrototypeOwner
import TestScaffold.Proofs.Selection

set_option autoImplicit false

/-!
# Well-formed models

A scaffold is written without looking twice at the model: bindings are taken to be distinct, indices to be
in range, and usage to be of names that are bound. Reading establishes this item by item, at whatever
place of a tree an item is found, and selection keeps it.

## Main definitions

* `TestScaffold.Import.WellFormed`, `TestScaffold.Export.WellFormed`, `TestScaffold.ClassUnit.WellFormed`,
  `TestScaffold.FunctionUnit.WellFormed`, `TestScaffold.Usage.WellFormed` — well-formed items.
* `TestScaffold.Finding.WellFormed`, `TestScaffold.Findings.WellFormed` — well-formed findings.
* `TestScaffold.Model.WellFormed` — well-formed models.
* `TestScaffold.Parser.ofListing` — the parser that gives the tree of one listing.

## Main results

* `TestScaffold.Locus.wellFormed_of_mem_findings` — what is found at any place is well-formed.
* `TestScaffold.Findings.WellFormed.toModel` — selection makes a well-formed model of it.
* `TestScaffold.exists_wellFormed_readModel` — reading a tree without faults gives a well-formed model.
-/

namespace TestScaffold

/-! ## Well-formed items -/

/-- An import binds no name twice, and none at all if it is for its effects alone. -/
structure Import.WellFormed (d : Import) : Prop where
  /-- The bound names are pairwise distinct. -/
  nodup : d.localNames.Nodup
  /-- A module that is loaded for what it does binds nothing. -/
  bare : d.kind = .sideEffect → d.bindings = []

/-- An export that is passed on keeps its name, and is not the default export. -/
structure Export.WellFormed (e : Export) : Prop where
  /-- What is passed on is a named export. -/
  named : e.isPassedOn = true → e.kind = .named
  /-- What is passed on has no name of its own inside the module. -/
  sameName : e.isPassedOn = true → e.localName = e.publicName
  /-- No default export is passed on. -/
  ne_default : e.isPassedOn = true → e.publicName ≠ defaultWord

/-- A class can be made anew, and has no field twice. -/
structure ClassUnit.WellFormed (c : ClassUnit) : Prop where
  /-- Some method is a constructor. -/
  hasConstructor : ∃ m ∈ c.methods, m.role = .constructor
  /-- The fields are pairwise distinct. -/
  nodup_fields : c.fields.Nodup

/-- A qualifier consists of names other than `prototype`, one of which may be the owner. -/
structure WellQualified (qualifier : List String) (ownerIndex : Option Nat) : Prop where
  /-- No name in the qualifier is `prototype`. -/
  ne_prototype : prototypeWord ∉ qualifier
  /-- The owner is one of the names in the qualifier. -/
  owner_lt : ∀ k, ownerIndex = some k → k < qualifier.length

/-- A function is well-formed if what it is reached through is. -/
def FunctionUnit.WellFormed (g : FunctionUnit) : Prop := WellQualified g.qualifier g.ownerIndex

/-- The paths of a usage are pairwise distinct and lead somewhere. -/
structure Usage.WellFormed (u : Usage) : Prop where
  /-- No path is recorded twice. -/
  nodup_paths : u.paths.Nodup
  /-- No path is empty. -/
  ne_nil : ∀ path ∈ u.paths, path ≠ []

/-- What a finding has to satisfy: a function is not a constructor before selection. -/
def Finding.WellFormed : Finding → Prop
  | .imported d => d.WellFormed
  | .exported e => e.WellFormed
  | .classFound c => c.unit.WellFormed
  | .functionFound g => g.unit.WellFormed ∧ g.unit.role = .function
  | .required _ | .slotExported _ | .flagged _ => True

/-- A finding that stands alone is well-formed if it is the well-formed one. -/
theorem Finding.WellFormed.of_mem_singleton {x y : Finding} (h : x ∈ [y]) (hy : y.WellFormed) :
    x.WellFormed := by
  obtain rfl := List.mem_singleton.1 h
  exact hy

/-- All findings are well-formed. -/
structure Findings.WellFormed (f : Findings) : Prop where
  /-- The imports are well-formed. -/
  imports : ∀ d ∈ f.imports, d.WellFormed
  /-- The exports are well-formed. -/
  exports : ∀ e ∈ f.exports, e.WellFormed
  /-- The classes are well-formed. -/
  classes : ∀ c ∈ f.classes, c.unit.WellFormed
  /-- The functions are well-formed. -/
  functions : ∀ g ∈ f.functions, g.unit.WellFormed
  /-- No function is a constructor yet. -/
  roles : ∀ g ∈ f.functions, g.unit.role = .function

/-- What the writing of a scaffold relies on. -/
structure Model.WellFormed (m : Model) : Prop where
  /-- The imports are well-formed. -/
  imports : ∀ d ∈ m.imports, d.WellFormed
  /-- The exports are well-formed. -/
  exports : ∀ e ∈ m.exports, e.WellFormed
  /-- The classes are well-formed. -/
  classes : ∀ c ∈ m.classes, c.WellFormed
  /-- The functions are well-formed. -/
  functions : ∀ g ∈ m.functions, g.WellFormed
  /-- A function is a constructor or just a function. -/
  roles : ∀ g ∈ m.functions, g.role = .constructor ∨ g.role = .function
  /-- At most one function is a constructor. -/
  oneConstructor : m.functions.countP (·.role == .constructor) ≤ 1
  /-- No function is a constructor beside a class. -/
  noConstructor : m.classes ≠ [] → ∀ g ∈ m.functions, g.role = .function
  /-- The usages are well-formed. -/
  usages : ∀ u ∈ m.usages, u.WellFormed
  /-- No name has two usages. -/
  nodup_usages : (m.usages.map (·.name)).Nodup
  /-- Every usage is of a name that an import or a require binds. -/
  foreign_usages : ∀ u ∈ m.usages, isForeign m.imports m.requires u.name = true
  /-- Every class is published under its name. -/
  publishedClasses : ∀ c ∈ m.classes, (Surface.ofExports m.slotExports m.exports).contains c.name = true
  /-- Every function is published. -/
  publishedFunctions :
    ∀ g ∈ m.functions, (Surface.ofExports m.slotExports m.exports).publishes g = true
  /-- The diagnostics never go back to an earlier line. -/
  sorted : m.diagnostics.Pairwise fun a b => a.line ≤ b.line

/-! ## Imports -/

/-- A part of an import clause that does not say how its statement binds has no binding. -/
theorem specifierBindings_eq_nil {src : SourceText} {spec : Tree} (h : specifierKind? spec = none) :
    specifierBindings src spec = [] := by
  unfold specifierKind? at h
  unfold specifierBindings
  split at h
  · cases h
  · cases h
  · cases h
  · rfl

/-- No part of an import clause makes its statement one for its effects alone. -/
theorem specifierKind?_ne_sideEffect (spec : Tree) : specifierKind? spec ≠ some .sideEffect := by
  unfold specifierKind?
  split <;> simp

/-- The reading of an `import` statement is well-formed. -/
theorem wellFormed_of_import? {src : SourceText} {statement : Tree} {d : Import}
    (h : import? src statement = some d) : d.WellFormed := by
  unfold import? at h
  split at h
  · cases h
  · obtain rfl := Option.some.inj h
    refine ⟨nodup_map_eraseDupsBy Binding.localName _, fun hkind => ?_⟩
    dsimp only at hkind ⊢
    generalize (statement.children.filter (·.kind == .importClause)).flatMap Tree.namedChildren =
      specs at hkind ⊢
    -- The kind is the default one, so no part of the clause says how the statement binds.
    have hnone : specs.findSome? specifierKind? = none := by
      cases hfirst : specs.findSome? specifierKind? with
      | none => rfl
      | some k =>
        obtain ⟨spec, -, hspec⟩ := List.exists_of_findSome?_eq_some hfirst
        rw [hfirst, Option.getD_some] at hkind
        exact absurd (hkind ▸ hspec) (specifierKind?_ne_sideEffect spec)
    have hbindings : specs.flatMap (specifierBindings src) = [] := by
      rw [List.flatMap_eq_nil_iff]
      intro spec hspec
      exact specifierBindings_eq_nil (List.findSome?_eq_none_iff.1 hnone spec hspec)
    rw [hbindings, List.eraseDupsBy_nil]

/-! ## Exports -/

/-- A name published under a name inside the module is not passed on. -/
theorem wellFormed_localExport (kind : ExportKind) (exported localName : String) :
    (localExport kind exported localName).WellFormed :=
  { named := by intro h; cases h
    sameName := by intro h; cases h
    ne_default := by intro h; cases h }

/-- The findings at an `export` statement are well-formed. -/
theorem wellFormed_of_mem_exportFindings {src : SourceText} {statement : Tree} {x : Finding}
    (h : x ∈ exportFindings src statement) : x.WellFormed := by
  unfold exportFindings at h
  split at h
  · obtain ⟨name, hname, rfl⟩ := List.mem_map.1 h
    have hne := (List.mem_filter.1 hname).2
    exact
      { named := fun _ => rfl
        sameName := fun _ => rfl
        ne_default := fun _ => by simpa using hne }
  · split at h
    · obtain ⟨name, -, rfl⟩ := List.mem_map.1 h
      exact wellFormed_localExport _ _ _
    · split at h
      · split at h
        · exact .of_mem_singleton h (wellFormed_localExport _ _ _)
        · exact .of_mem_singleton h trivial
      · obtain ⟨spec, -, hspec⟩ := List.mem_filterMap.1 h
        obtain ⟨nameNode, -, rfl⟩ := Option.map_eq_some_iff.1 hspec
        exact wellFormed_localExport _ _ _

/-! ## The export slot and requires -/

/-- The findings at one property of an object that is assigned to the export slot are well-formed. -/
theorem wellFormed_of_mem_objectPropertyFindings {src : SourceText} {prop : Tree} {x : Finding}
    (h : x ∈ objectPropertyFindings src prop) : x.WellFormed := by
  unfold objectPropertyFindings at h
  split at h
  · exact .of_mem_singleton h trivial
  · split at h
    · split at h
      · exact .of_mem_singleton h trivial
      · split at h
        · exact .of_mem_singleton h trivial
        · cases h
    · cases h
  · exact .of_mem_singleton h trivial
  · cases h

/-- The findings at an assignment to the whole export slot are well-formed. -/
theorem wellFormed_of_mem_wholeSlotFindings {src : SourceText} {assignment value : Tree} {x : Finding}
    (h : x ∈ wholeSlotFindings src assignment value) : x.WellFormed := by
  unfold wholeSlotFindings at h
  split at h
  · exact .of_mem_singleton h trivial
  · obtain ⟨prop, -, hprop⟩ := List.mem_flatMap.1 h
    exact wellFormed_of_mem_objectPropertyFindings hprop
  · split at h
    · exact .of_mem_singleton h trivial
    · cases h

/-- The findings at an assignment to a property of the export slot are well-formed. -/
theorem wellFormed_of_mem_propertySlotFindings {src : SourceText} {assignment property value : Tree}
    {x : Finding} (h : x ∈ propertySlotFindings src assignment property value) : x.WellFormed := by
  unfold propertySlotFindings at h
  split at h
  · exact .of_mem_singleton h trivial
  · split at h
    · exact .of_mem_singleton h trivial
    · cases h

/-- The findings at an assignment are well-formed. -/
theorem wellFormed_of_mem_slotFindings {src : SourceText} {assignment : Tree} {x : Finding}
    (h : x ∈ slotFindings src assignment) : x.WellFormed := by
  unfold slotFindings at h
  split at h
  · split at h
    · cases h
    · split at h
      · exact wellFormed_of_mem_wholeSlotFindings h
      · split at h
        · split at h
          · exact wellFormed_of_mem_propertySlotFindings h
          · cases h
        · cases h
  · cases h

/-- The findings at a call are well-formed. -/
theorem wellFormed_of_mem_requireFindings {src : SourceText} {p : Locus} {x : Finding}
    (h : x ∈ requireFindings src p) : x.WellFormed := by
  unfold requireFindings at h
  split at h
  · cases h
  · split at h
    · cases h
    · split at h
      · cases h
      · split at h
        · exact .of_mem_singleton h trivial
        · dsimp only at h
          split at h
          · exact .of_mem_singleton h trivial
          · obtain ⟨name, -, rfl⟩ := List.mem_map.1 h
            trivial

/-! ## Functions -/

/-- A name that stands alone is well qualified. -/
theorem wellQualified_nil : WellQualified [] none where
  ne_prototype := List.not_mem_nil
  owner_lt := by
    intro k hk
    cases hk

/-- A chain of names splits into a name and what qualifies it well. -/
theorem wellQualified_of_ofChain? {chain : List String} {n : FunctionName}
    (h : FunctionName.ofChain? chain = some n) : WellQualified n.qualifier n.ownerIndex := by
  unfold FunctionName.ofChain? at h
  split at h
  · cases h
  · obtain rfl := Option.some.inj h
    refine ⟨fun hmem => ?_, fun k hk => ownerIndex?_lt hk⟩
    have hne := (List.mem_filter.1 hmem).2
    simp at hne

/-- The name that a function expression is bound to is well qualified. -/
theorem wellQualified_of_boundName? {src : SourceText} {p : Locus} {n : FunctionName}
    (h : boundName? src p = some n) : WellQualified n.qualifier n.ownerIndex := by
  rcases Option.or_eq_some_iff.1 h with h | ⟨-, h⟩
  · obtain ⟨name, -, rfl⟩ := Option.map_eq_some_iff.1 h
    exact wellQualified_nil
  · unfold assignedName? at h
    split at h
    · cases h
    · split at h
      · obtain ⟨left, -, h⟩ := Option.bind_eq_some_iff.1 h
        obtain ⟨chain, -, h⟩ := Option.bind_eq_some_iff.1 h
        exact wellQualified_of_ofChain? h
      · cases h

/-- A function read under a well qualified name is well-formed. -/
theorem wellFormed_functionReading (src : SourceText) (func : Tree) {n : FunctionName}
    (h : WellQualified n.qualifier n.ownerIndex) :
    (Finding.functionFound (functionReading src func n)).WellFormed :=
  ⟨h, rfl⟩

/-- The findings at a function declaration are well-formed. -/
theorem wellFormed_of_mem_declarationFindings {src : SourceText} {func : Tree} {x : Finding}
    (h : x ∈ declarationFindings src func) : x.WellFormed := by
  unfold declarationFindings at h
  split at h
  · exact .of_mem_singleton h (wellFormed_functionReading src func wellQualified_nil)
  · cases h

/-- The findings at a function expression are well-formed. -/
theorem wellFormed_of_mem_functionExpressionFindings {src : SourceText} {p : Locus} {x : Finding}
    (h : x ∈ functionExpressionFindings src p) : x.WellFormed := by
  unfold functionExpressionFindings at h
  split at h
  · next n hn =>
    have hqualified := wellQualified_of_boundName? hn
    exact .of_mem_singleton h (wellFormed_functionReading src p.node hqualified)
  · cases h

/-! ## Classes -/

/-- The completed methods of a class have a constructor among them. -/
theorem exists_constructor_withConstructor (methods : List Method) :
    ∃ m ∈ withConstructor methods, m.role = .constructor := by
  unfold withConstructor
  split
  · next hany =>
    obtain ⟨m, hm, hrole⟩ := List.any_eq_true.1 hany
    exact ⟨m, hm, by simpa using hrole⟩
  · exact ⟨Method.emptyConstructor, List.mem_cons_self, rfl⟩

/-- The findings at a class are well-formed. -/
theorem wellFormed_of_mem_classFindings {src : SourceText} {p : Locus} {x : Finding}
    (h : x ∈ classFindings src p) : x.WellFormed := by
  unfold classFindings at h
  split at h
  · next name _ =>
    have hclass : (classReading src p.node name).unit.WellFormed :=
      ⟨exists_constructor_withConstructor _, nodup_eraseDups _⟩
    exact .of_mem_singleton h hclass
  · exact .of_mem_singleton h trivial

/-! ## All findings -/

/-- What is found at any place of a tree is well-formed. -/
theorem Locus.wellFormed_of_mem_findings {src : SourceText} {p : Locus} {x : Finding}
    (h : x ∈ p.findings src) : x.WellFormed := by
  unfold Locus.findings at h
  split at h
  · cases h
  · split at h
    · rw [Option.mem_toList] at h
      obtain ⟨d, hd, rfl⟩ := Option.map_eq_some_iff.1 h
      exact wellFormed_of_import? hd
    · exact wellFormed_of_mem_exportFindings h
    · exact wellFormed_of_mem_classFindings h
    · exact wellFormed_of_mem_classFindings h
    · exact wellFormed_of_mem_classFindings h
    · exact wellFormed_of_mem_declarationFindings h
    · exact wellFormed_of_mem_declarationFindings h
    · exact wellFormed_of_mem_functionExpressionFindings h
    · exact wellFormed_of_mem_functionExpressionFindings h
    · exact wellFormed_of_mem_functionExpressionFindings h
    · exact wellFormed_of_mem_functionExpressionFindings h
    · exact wellFormed_of_mem_requireFindings h
    · exact wellFormed_of_mem_slotFindings h
    · cases h

/-- Well-formed single findings make well-formed findings. -/
theorem Findings.wellFormed_ofList {specifier : String} {found : List Finding}
    (h : ∀ x ∈ found, x.WellFormed) : (Findings.ofList specifier found).WellFormed where
  imports := by
    intro d hd
    obtain ⟨x, hx, hsome⟩ := List.mem_filterMap.1 hd
    cases x with
    | imported d' => exact Option.some.inj hsome ▸ h _ hx
    | _ => cases hsome
  exports := by
    intro e he
    obtain ⟨x, hx, hsome⟩ := List.mem_filterMap.1 he
    cases x with
    | exported e' => exact Option.some.inj hsome ▸ h _ hx
    | _ => cases hsome
  classes := by
    intro c hc
    obtain ⟨x, hx, hsome⟩ := List.mem_filterMap.1 hc
    cases x with
    | classFound c' => exact Option.some.inj hsome ▸ h _ hx
    | _ => cases hsome
  functions := by
    intro g hg
    obtain ⟨x, hx, hsome⟩ := List.mem_filterMap.1 hg
    cases x with
    | functionFound g' => exact Option.some.inj hsome ▸ (h _ hx).1
    | _ => cases hsome
  roles := by
    intro g hg
    obtain ⟨x, hx, hsome⟩ := List.mem_filterMap.1 hg
    cases x with
    | functionFound g' => exact Option.some.inj hsome ▸ (h _ hx).2
    | _ => cases hsome

/-- The findings of a tree are well-formed. -/
theorem Findings.wellFormed_ofTree (src : SourceText) (specifier : String) (root : Tree) :
    (Findings.ofTree src specifier root).WellFormed := by
  apply Findings.wellFormed_ofList
  intro x hx
  obtain ⟨p, -, hp⟩ := List.mem_flatMap.1 hx
  exact Locus.wellFormed_of_mem_findings hp

/-! ## The model -/

/-- **Selection makes well-formed models** of well-formed findings.

**Proof sketch.** Classes, imports and exports are those of the findings. A function is one of the findings
up to its role, and only promotion changes a role, which takes place for a single function and only if there
is no class. Usage is gathered under distinct names and then restricted to foreign ones, and diagnostics are
sorted last. -/
theorem Findings.WellFormed.toModel {f : Findings} (h : f.WellFormed) : f.toModel.WellFormed where
  imports := h.imports
  exports := h.exports
  classes := by
    intro c hc
    obtain ⟨r, hr, -, rfl⟩ := mem_publishedClasses.1 hc
    exact h.classes r hr
  functions := by
    intro g hg
    rcases exists_of_mem_publishedFunctions hg with ⟨r, hr, -, rfl | rfl⟩
    · exact h.functions r hr
    · exact h.functions r hr
  roles := by
    intro g hg
    rcases exists_of_mem_publishedFunctions hg with ⟨r, hr, -, rfl | rfl⟩
    · exact Or.inr (h.roles r hr)
    · exact Or.inl rfl
  oneConstructor := by
    have hkept : ∀ g ∈ keptUnits f.surface.publishes f.functions, g.role = .function := by
      intro g hg
      obtain ⟨r, hr, -, rfl⟩ := mem_keptUnits.1 hg
      exact h.roles r hr
    show f.publishedFunctions.countP _ ≤ 1
    unfold publishedFunctions
    dsimp only
    split
    · exact countP_promoteConstructor_le hkept
    · rw [List.countP_eq_zero.2]
      · exact Nat.zero_le 1
      · intro g hg
        simp [hkept g hg]
  noConstructor := by
    intro hne g hg
    change f.publishedClasses ≠ [] at hne
    change g ∈ f.publishedFunctions at hg
    unfold publishedFunctions at hg
    rw [if_neg (by simpa using hne)] at hg
    obtain ⟨r, hr, -, rfl⟩ := mem_keptUnits.1 hg
    exact h.roles r hr
  usages := by
    intro u hu
    obtain ⟨hnodup, hnil⟩ := paths_of_mem_usageOfCalls (List.mem_filter.1 hu).1
    exact ⟨hnodup, fun path hpath heq => hnil (heq ▸ hpath)⟩
  nodup_usages := (nodup_names_usageOfCalls _).sublist (List.filter_sublist.map _)
  foreign_usages := by
    intro u hu
    exact (List.mem_filter.1 hu).2
  publishedClasses := by
    intro c hc
    obtain ⟨r, -, hname, rfl⟩ := mem_publishedClasses.1 hc
    exact Surface.contains_eq_true.2 hname
  publishedFunctions := by
    intro g hg
    rcases exists_of_mem_publishedFunctions hg with ⟨r, -, hpublished, rfl | rfl⟩
    · exact hpublished
    · exact hpublished
  sorted := pairwise_sortByLine _

/-- A tree without faults has no first fault. -/
theorem Tree.firstFault?_eq_none {t : Tree} (h : t.hasFault = false) : t.firstFault? = none := by
  obtain ⟨l, cs⟩ := t
  have hroot := h
  rw [hasFault, Bool.or_eq_false_iff] at hroot
  rw [firstFault?, hroot.1, h]
  rfl

/-- Whatever is read is the model of the findings of the tree that is parsed. -/
theorem exists_parseModule_of_readModel {parser : Parser} {src : SourceText} {filename : String} {m : Model}
    (h : readModel parser src filename = .ok m) :
    ∃ root, parseModule parser src filename = .ok root ∧ m = (Findings.ofTree src filename root).toModel := by
  unfold readModel readFindings at h
  cases hparse : parseModule parser src filename with
  | error e =>
    rw [hparse] at h
    cases h
  | ok root =>
    rw [hparse] at h
    exact ⟨root, rfl, (Except.ok.inj h).symm⟩

/-- Whatever is read is the model of the findings of a tree. -/
theorem exists_ofTree_of_readModel {parser : Parser} {src : SourceText} {filename : String} {m : Model}
    (h : readModel parser src filename = .ok m) :
    ∃ root, m = (Findings.ofTree src filename root).toModel := by
  obtain ⟨root, -, hm⟩ := exists_parseModule_of_readModel h
  exact ⟨root, hm⟩

/-- Whatever is read is well-formed. -/
theorem wellFormed_of_readModel {parser : Parser} {src : SourceText} {filename : String} {m : Model}
    (h : readModel parser src filename = .ok m) : m.WellFormed := by
  obtain ⟨root, rfl⟩ := exists_ofTree_of_readModel h
  exact (Findings.wellFormed_ofTree src filename root).toModel

/-- **Reading gives well-formed models**: whatever the text and its tree are, a tree without faults is
read, and its model is well-formed. -/
theorem exists_wellFormed_readModel {parser : Parser} {src : SourceText} {filename : String}
    {dialect : Dialect} {root : Tree} (hdialect : Dialect.ofFilename filename = .ok dialect)
    (htree : parser dialect src = some root) (hfault : root.hasFault = false) :
    ∃ m, readModel parser src filename = .ok m ∧ m.WellFormed := by
  have haccept : rejectFaults src filename root = .ok root := by
    rw [rejectFaults, Tree.firstFault?_eq_none hfault]
  have hparse : parseModule parser src filename = .ok root := by
    simp only [parseModule, hdialect, bind, Except.bind, htree, haccept]
  have hread : readModel parser src filename = .ok (Findings.ofTree src filename root).toModel := by
    rw [readModel, readFindings, hparse]
    rfl
  exact ⟨_, hread, wellFormed_of_readModel hread⟩

/-- The parser that gives the tree of one listing, whatever the text. -/
def Parser.ofListing (rows : List Row) : Parser := fun _ _ => Tree.ofRows? rows

/-- The listing of a module in which a function is attached to the prototype of another. -/
def prototypeListing : List Row :=
  [.make 0 1 "program" 0 66 none,
    .make 1 1 "function_declaration" 0 15 none, .make 2 0 "function" 0 8 none,
    .make 2 1 "identifier" 9 10 "name", .make 2 1 "formal_parameters" 10 12 "parameters",
    .make 3 0 "(" 10 11 none, .make 3 0 ")" 11 12 none,
    .make 2 1 "statement_block" 13 15 "body", .make 3 0 "\x7b" 13 14 none, .make 3 0 "\x7d" 14 15 none,
    .make 1 1 "expression_statement" 16 46 none, .make 2 1 "assignment_expression" 16 45 none,
    .make 3 1 "member_expression" 16 29 "left", .make 4 1 "member_expression" 16 27 "object",
    .make 5 1 "identifier" 16 17 "object", .make 5 0 "." 17 18 none,
    .make 5 1 "property_identifier" 18 27 "property", .make 4 0 "." 27 28 none,
    .make 4 1 "property_identifier" 28 29 "property", .make 3 0 "=" 30 31 none,
    .make 3 1 "function_expression" 32 45 "right", .make 4 0 "function" 32 40 none,
    .make 4 1 "formal_parameters" 40 42 "parameters", .make 5 0 "(" 40 41 none,
    .make 5 0 ")" 41 42 none, .make 4 1 "statement_block" 43 45 "body",
    .make 5 0 "\x7b" 43 44 none, .make 5 0 "\x7d" 44 45 none, .make 2 0 ";" 45 46 none,
    .make 1 1 "expression_statement" 47 66 none, .make 2 1 "assignment_expression" 47 65 none,
    .make 3 1 "member_expression" 47 61 "left", .make 4 1 "identifier" 47 53 "object",
    .make 4 0 "." 53 54 none, .make 4 1 "property_identifier" 54 61 "property",
    .make 3 0 "=" 62 63 none, .make 3 1 "identifier" 64 65 "right", .make 2 0 ";" 65 66 none]

/-- The text of that module. -/
def prototypeText : SourceText :=
  SourceText.ofString
    "function A() \x7b\x7d\nA.prototype.A = function() \x7b\x7d;\nmodule.exports = A;"

/-- A module with a function on a prototype has a well-formed model. -/
theorem exists_wellFormed_readModel_prototype :
    ∃ m, readModel (Parser.ofListing prototypeListing) prototypeText "my-module.js" = .ok m ∧
      m.WellFormed :=
  exists_wellFormed_readModel (by decide : _ = Except.ok Dialect.typescript) rfl (by decide)

end TestScaffold
