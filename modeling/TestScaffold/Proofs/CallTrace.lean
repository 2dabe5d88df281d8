import TestScaffold.Scaffold.Jest
import TestScaffold.Scaffold.Sections
import TestScaffold.Proofs.MockPaths
import TestScaffold.Proofs.Selection

set_option autoImplicit false

/-!
# What a Jest scaffold derives from calls

The entries of substitutes, the resets after each test and the spies of a test are derived from calls. The
text of a scaffold does not tell where a piece of it comes from, so the pieces are collected in a *trace*,
each together with what it is derived from. A framework that answers from the trace alone writes the same
scaffold as Jest does.

## Main definitions

* `TestScaffold.Jest.CallTrace` — the pieces that are derived from calls, with their origins.
* `TestScaffold.Jest.CallTrace.framework` — Jest, answering from a trace.
* `TestScaffold.Jest.CallTrace.StandsIn` — where the pieces of a trace stand in a scaffold.
* `TestScaffold.Jest.CallTrace.Sound`, `TestScaffold.Jest.CallTrace.Complete` — a trace has no piece
  without a call behind it, and no call is without its piece.
* `TestScaffold.Model.Tests` — which calls belong to the unit that a test is for.

## Main results

* `TestScaffold.Jest.CallTrace.standsIn_of_scaffold?` — a scaffold that is written from a trace has its pieces.
* `TestScaffold.jest_traces_published_calls` — every Jest scaffold has a sound and complete trace.
-/

namespace TestScaffold

/-- The tests of a model, each with the calls of the very unit that it tests. -/
inductive Model.Tests (m : Model) : TestCase → List CallChain → Prop where
  /-- The test of a method of a published class. -/
  | method {c : ClassUnit} {method : Method} (hc : c ∈ m.classes) (hm : method ∈ c.methods)
      (hrole : method.role = .method) : Tests m (methodCase c method) method.calls
  /-- The test of a published function. -/
  | function {g : FunctionUnit} (hg : g ∈ m.functions) (hrole : g.role = .function) :
      Tests m (functionCase g) g.calls

/-- Every test of a model observes calls of the unit it is for. -/
theorem Model.tests_of_mem_testCases {m : Model} {t : TestCase} (h : t ∈ m.testCases) :
    m.Tests t t.calls := by
  rcases List.mem_append.1 h with h | h
  · obtain ⟨c, hc, hcase⟩ := List.mem_flatMap.1 h
    obtain ⟨method, hm, rfl⟩ := List.mem_map.1 hcase
    obtain ⟨hin, hrole⟩ := List.mem_filter.1 hm
    exact .method hc hin (by simpa using hrole)
  · obtain ⟨g, hg, rfl⟩ := List.mem_map.1 h
    obtain ⟨hin, hrole⟩ := List.mem_filter.1 hg
    exact .function hin (by simpa using hrole)

namespace Jest

/-! ## Traces -/

/-- The pieces of a scaffold that are derived from calls, each with what it is derived from. -/
structure CallTrace where
  /-- The entries of the substitute of an import, each with the binding it stands for. -/
  entries : Import → List (Binding × MockTree)
  /-- The resets after each test, each with the name whose recorded calls it forgets. -/
  resets : List (String × Statement)
  /-- The spies of a test with the given calls and receiver, each with the call it observes. -/
  spies : List CallChain → Option String → List (CallChain × Statement)

namespace CallTrace

/-- Jest, with everything that depends on calls answered from a trace. -/
def framework (t : CallTrace) : Framework :=
  { jest with
    afterEach := fun _ _ => afterEachBlock (t.resets.map (·.2))
    substitute := fun d _ => substituteBy d ((t.entries d).map (·.2))
    observe := fun calls _ _ receiver => (t.spies calls receiver).map (·.2) }

/-- Where the pieces of a trace stand in a scaffold. -/
structure StandsIn (t : CallTrace) (m : Model) (d : Scaffold) : Prop where
  /-- The entries for an import stand in the substitute behind its statement. -/
  entries : (m.imports.flatMap fun i =>
    .line (importLine i) :: substituteBy i ((t.entries i).map (·.2))) <:+: d.statements
  /-- The suite ends the scaffold. The resets stand together before its tests, and the spies of a test begin its
  body. -/
  suite : d.statements.getLast? = some (callbackBlock ("describe(" ++ quoted (baseName m.specifier) ++ ", ")
    (m.instances.map instanceDeclaration ++ (if m.instances.isEmpty then [] else beforeEach m.instances) ++
      afterEachBlock (t.resets.map (·.2)) ++
      m.testCases.map fun c => callbackBlock ("test(" ++ quoted c.description ++ ", ")
        ((t.spies c.calls c.receiver).map (·.2) ++ nullDeclarations c.parameters ++ [.line c.invocation])))

/-- **A scaffold that is written from a trace has its pieces** where they should stand. -/
theorem standsIn_of_scaffold? {t : CallTrace} {m : Model} {d : Scaffold}
    (h : scaffold? t.framework m = some d) : t.StandsIn m d where
  entries := by
    obtain ⟨moduleSection, -, rfl⟩ := Option.map_eq_some_iff.1 h
    have hsection := ((List.prefix_append (m.imports.flatMap (importSection t.framework m))
      ((requireStatements m.requires).map .line)).trans (Statement.prefix_spaced _)).isInfix
    exact hsection.trans ⟨_, _, by rw [← List.append_assoc]; rfl⟩
  suite := by
    have hcase : caseBlock t.framework m = fun c => callbackBlock ("test(" ++ quoted c.description ++ ", ")
        ((t.spies c.calls c.receiver).map (·.2) ++ nullDeclarations c.parameters ++ [.line c.invocation]) := by
      funext c
      exact congrArg (callbackBlock _) (List.append_nil _)
    rw [getLast?_statements h, TestScaffold.suite, hcase]
    rfl

/-- A trace is sound if each of its pieces is derived from a call of a published unit through a name that
comes from another module; the spies of a test from calls of the unit under test. -/
structure Sound (t : CallTrace) (f : Findings) : Prop where
  /-- An entry stands, under its imported name, for a named import that is called through. -/
  entry : ∀ d ∈ f.imports, ∀ e ∈ t.entries d,
    ∃ imported localName, e.1 = .member imported localName ∧ e.2.segment = imported ∧
      e.1 ∈ d.bindings ∧ isForeign f.imports f.requires localName = true ∧
      f.CallsThrough localName
  /-- A reset forgets what is recorded of a call through its name. -/
  reset : ∀ r ∈ t.resets, isForeign f.imports f.requires r.1 = true ∧
    ∃ site, f.PublishedCall site ∧ site.through? = some r.1 ∧
      (r.2 = mockClear r.1 ∨ r.2 = mockClear (r.1 ++ "." ++ dotted site.members))
  /-- A spy observes a call of the unit under test. -/
  spy : ∀ case ∈ f.toModel.testCases, ∃ calls, f.toModel.Tests case calls ∧
    ∀ s ∈ t.spies case.calls case.receiver, s.1 ∈ calls ∧
      ∃ name chain, s.1.through? = some name ∧ isForeign f.imports f.requires name = true ∧
        spiedChain? case.receiver s.1 = some chain ∧ s.2 = .line (Jest.spy chain)

/-- A trace is complete if every named import that is called through has its entry and every imported name
that is called through has a reset, and nothing else has. -/
structure Complete (t : CallTrace) (f : Findings) : Prop where
  /-- A named import has an entry in the substitute of its module if it is called through. -/
  entry_iff : ∀ d ∈ f.imports, d.typeOnly = false → d.kind = .member →
    ∀ imported localName, Binding.member imported localName ∈ d.bindings →
      ((∃ tree, (Binding.member imported localName, tree) ∈ t.entries d) ↔ f.CallsThrough localName)
  /-- A name is reset if it is imported and called through. -/
  reset_iff : ∀ name, (∃ statement, (name, statement) ∈ t.resets) ↔
    isImported f.imports name = true ∧ f.CallsThrough name

end CallTrace

/-! ## The trace of a model -/

/-- The entries of the substitute of an import with their bindings. -/
def tracedMocks (usages : List Usage) (d : Import) : List (Binding × MockTree) :=
  match d.kind with
  | .member => d.bindings.filterMap fun b => (bindingMock? usages b).map fun tree => (b, tree)
  | _ => []

/-- The resets after each test with the names they go through. -/
def tracedResets (usages : List Usage) (imports : List Import) : List (String × Statement) :=
  (usages.filter fun u => isImported imports u.name).flatMap fun u =>
    (resets u).map fun statement => (u.name, statement)

/-- The spies of several calls, each text with the first call that it observes. -/
def tracedSpies (requires : List Require) (imports : List Import) (sites : List CallChain)
    (receiver : Option String) : List (CallChain × Statement) :=
  (((sites.filter (isObservable requires imports)).filterMap fun site =>
    (spiedChain? receiver site).map fun chain => (site, spy chain)).eraseDupsBy
      fun a b => a.2 == b.2).map fun s => (s.1, .line s.2)

/-- The trace of a model. -/
def traceOf (m : Model) : CallTrace where
  entries := tracedMocks m.usages
  resets := tracedResets m.usages m.imports
  spies := tracedSpies m.requires m.imports

/-- Without their bindings, the traced entries are the entries. -/
theorem map_tracedMocks (usages : List Usage) (d : Import) :
    (tracedMocks usages d).map (·.2) = mocks d usages := by
  unfold tracedMocks mocks
  cases d.kind with
  | member =>
    dsimp only
    rw [List.map_filterMap]
    refine List.filterMap_congr fun b _ => ?_
    cases bindingMock? usages b <;> rfl
  | default => rfl
  | sideEffect => rfl

/-- Without their names, the traced resets are the resets. -/
theorem map_tracedResets (usages : List Usage) (imports : List Import) :
    (tracedResets usages imports).map (·.2) =
      (usages.filter fun u => isImported imports u.name).flatMap resets := by
  unfold tracedResets
  rw [List.map_flatMap]
  congr 1
  funext u
  rw [List.map_map]
  exact List.map_id _

/-- Without their calls, the traced spies are the spies. -/
theorem map_tracedSpies (requires : List Require) (imports : List Import) (sites : List CallChain)
    (receiver : Option String) :
    (tracedSpies requires imports sites receiver).map (·.2) = spies sites requires imports receiver := by
  have hobserve : (fun site => (spiedChain? receiver site).map spy) =
      fun site => ((spiedChain? receiver site).map fun chain => (site, spy chain)).map (·.2) := by
    funext site
    rw [Option.map_map]
    rfl
  unfold tracedSpies spies
  rw [List.map_map, List.map_filterMap, hobserve, ← List.map_filterMap, eraseDups_map, List.map_map]
  rfl

/-- Answering from the trace of a model writes the scaffold of the model. -/
theorem scaffold?_framework_traceOf (m : Model) :
    scaffold? (traceOf m).framework m = scaffold? jest m := by
  have hsubstitute : importSection (traceOf m).framework m = importSection jest m := by
    funext d
    show Statement.line (importLine d) ::
      substituteBy d ((tracedMocks m.usages d).map (·.2)) = _
    rw [map_tracedMocks]
    rfl
  have hframe : suiteFrame (traceOf m).framework m = suiteFrame jest m := by
    show _ ++ afterEachBlock ((tracedResets m.usages m.imports).map (·.2)) = _
    rw [map_tracedResets]
    rfl
  have hcase : caseBlock (traceOf m).framework m = caseBlock jest m := by
    funext t
    show callbackBlock _ ((tracedSpies m.requires m.imports t.calls t.receiver).map (·.2) ++ _ ++ _ ++
      _) = _
    rw [map_tracedSpies]
    rfl
  unfold scaffold? dependencySection suite
  rw [hsubstitute, hframe, hcase]
  rfl

/-! ## Soundness and completeness -/

/-- A binding has a traced entry if the import binds named exports first, the binding is one of them, and
there is usage of its name. -/
theorem mem_tracedMocks {usages : List Usage} {d : Import} {b : Binding} {tree : MockTree} :
    (b, tree) ∈ tracedMocks usages d ↔
      d.kind = .member ∧ b ∈ d.bindings ∧ bindingMock? usages b = some tree := by
  unfold tracedMocks
  split
  · next hkind =>
    rw [List.mem_filterMap]
    constructor
    · rintro ⟨b', hb, hmock⟩
      obtain ⟨tree', htree, heq⟩ := Option.map_eq_some_iff.1 hmock
      obtain ⟨rfl, rfl⟩ := Prod.mk.inj heq
      exact ⟨hkind, hb, htree⟩
    · rintro ⟨-, hb, hmock⟩
      exact ⟨b, hb, by rw [hmock]; rfl⟩
  · next hkind =>
    constructor
    · exact fun h => absurd h List.not_mem_nil
    · exact fun h => absurd h.1 hkind

/-- The mock tree of a binding is that of a named export with usage of its name. -/
theorem bindingMock?_eq_some {usages : List Usage} {b : Binding} {tree : MockTree}
    (h : bindingMock? usages b = some tree) :
    ∃ imported localName, b = .member imported localName ∧ tree.segment = imported ∧
      localName ∈ usages.map (·.name) := by
  cases b with
  | default name => cases h
  | whole name => cases h
  | member imported localName =>
    obtain ⟨u, hu, rfl⟩ := Option.map_eq_some_iff.1 h
    have hname := List.find?_some hu
    exact ⟨imported, localName, rfl, MockTree.segment_ofUsage _ _,
      List.mem_map.2 ⟨u, List.mem_of_find?_eq_some hu, eq_of_beq hname⟩⟩

/-- A named export has a mock tree if there is usage of its name. -/
theorem exists_bindingMock?_member (usages : List Usage) (imported localName : String) :
    (∃ tree, bindingMock? usages (.member imported localName) = some tree) ↔
      localName ∈ usages.map (·.name) := by
  constructor
  · rintro ⟨tree, htree⟩
    obtain ⟨_, _, heq, -, hname⟩ := bindingMock?_eq_some htree
    rw [(Binding.member.inj heq).2]
    exact hname
  · intro hname
    obtain ⟨u, hu, hun⟩ := List.mem_map.1 hname
    have hsome : (usages.find? (·.name == localName)).isSome = true :=
      List.find?_isSome.2 ⟨u, hu, beq_iff_eq.2 hun⟩
    obtain ⟨u', hu'⟩ := Option.isSome_iff_exists.1 hsome
    exact ⟨MockTree.ofUsage imported u', by rw [bindingMock?, hu']; rfl⟩

/-- A traced reset goes through an imported name with usage, or through one of the paths of that usage. -/
theorem mem_tracedResets {usages : List Usage} {imports : List Import} {name : String}
    {statement : Statement} :
    (name, statement) ∈ tracedResets usages imports ↔
      ∃ u ∈ usages, u.name = name ∧ isImported imports name = true ∧ statement ∈ resets u := by
  unfold tracedResets
  rw [List.mem_flatMap]
  constructor
  · rintro ⟨u, hu, hstatement⟩
    obtain ⟨hin, himported⟩ := List.mem_filter.1 hu
    obtain ⟨st, hst, heq⟩ := List.mem_map.1 hstatement
    obtain ⟨rfl, rfl⟩ := Prod.mk.inj heq
    exact ⟨u, hin, rfl, himported, hst⟩
  · rintro ⟨u, hu, rfl, himported, hst⟩
    exact ⟨u, List.mem_filter.2 ⟨hu, himported⟩, List.mem_map.2 ⟨statement, hst, rfl⟩⟩

/-- A traced spy observes one of the calls, whose target comes from another module. -/
theorem of_mem_tracedSpies {requires : List Require} {imports : List Import} {sites : List CallChain}
    {receiver : Option String} {s : CallChain × Statement}
    (h : s ∈ tracedSpies requires imports sites receiver) :
    s.1 ∈ sites ∧ ∃ name chain, s.1.through? = some name ∧ isForeign imports requires name = true ∧
      spiedChain? receiver s.1 = some chain ∧ s.2 = .line (spy chain) := by
  obtain ⟨p, hp, rfl⟩ := List.mem_map.1 h
  obtain ⟨site, hsite, hpair⟩ := List.mem_filterMap.1 ((eraseDupsBy_sublist _ _).mem hp)
  obtain ⟨chain, hchain, rfl⟩ := Option.map_eq_some_iff.1 hpair
  obtain ⟨hin, hobservable⟩ := List.mem_filter.1 hsite
  unfold isObservable at hobservable
  split at hobservable
  · next name hname =>
    exact ⟨hin, name, chain, hname, (Bool.and_eq_true_iff.1 hobservable).1, hchain, rfl⟩
  · cases hobservable

/-- The trace of the model of findings is sound.

**Proof sketch.** A traced entry or reset needs usage of its name, and the names with usage are the foreign
names that published calls go through. A traced spy observes a call of the test it stands in, and a test
has the calls of its unit. -/
theorem sound_traceOf (f : Findings) : (traceOf f.toModel).Sound f where
  entry := by
    intro d _ e he
    obtain ⟨b, tree⟩ := e
    obtain ⟨-, hb, hmock⟩ := mem_tracedMocks.1 he
    obtain ⟨imported, localName, hbinding, hsegment, hname⟩ := bindingMock?_eq_some hmock
    obtain ⟨hforeign, hcalls⟩ := Findings.mem_names_usages.1 hname
    exact ⟨imported, localName, hbinding, hsegment, hb, hforeign, hcalls⟩
  reset := by
    intro r hr
    obtain ⟨name, statement⟩ := r
    obtain ⟨u, hu, rfl, -, hst⟩ := mem_tracedResets.1 hr
    have hname : u.name ∈ f.toModel.usages.map (·.name) := List.mem_map.2 ⟨u, hu, rfl⟩
    obtain ⟨hforeign, site, hsite, hthrough⟩ := Findings.mem_names_usages.1 hname
    refine ⟨hforeign, ?_⟩
    unfold resets at hst
    split at hst
    · exact ⟨site, hsite, hthrough, Or.inl (List.mem_singleton.1 hst)⟩
    · obtain ⟨path, hpath, rfl⟩ := List.mem_map.1 hst
      obtain ⟨call, hcall, htarget, rfl⟩ :=
        exists_call_of_mem_paths (List.mem_filter.1 hu).1 hpath
      exact ⟨call, Findings.mem_publishedCalls.1 hcall, htarget, Or.inr rfl⟩
  spy := by
    intro case hcase
    exact ⟨case.calls, Model.tests_of_mem_testCases hcase, fun s hs => of_mem_tracedSpies hs⟩

/-- The trace of the model of findings is complete. -/
theorem complete_traceOf (f : Findings) : (traceOf f.toModel).Complete f where
  entry_iff := by
    intro d hd _ hkind imported localName hb
    have hforeign : isForeign f.imports f.requires localName = true := by
      have hintroduces : d.introduces localName = true :=
        Import.introduces_eq_true.2 (List.mem_map.2 ⟨_, hb, rfl⟩)
      rw [isForeign, Bool.or_eq_true]
      exact Or.inl (List.any_eq_true.2 ⟨d, hd, hintroduces⟩)
    have hmock : (∃ tree, (Binding.member imported localName, tree) ∈
        (traceOf f.toModel).entries d) ↔ localName ∈ f.toModel.usages.map (·.name) := by
      rw [← exists_bindingMock?_member _ imported]
      exact exists_congr fun tree => mem_tracedMocks.trans (by simp [hkind, hb])
    rw [hmock, Findings.mem_names_usages]
    exact and_iff_right hforeign
  reset_iff := by
    intro name
    constructor
    · rintro ⟨statement, hst⟩
      obtain ⟨u, hu, rfl, himported, -⟩ := mem_tracedResets.1 hst
      have hname : u.name ∈ f.toModel.usages.map (·.name) := List.mem_map.2 ⟨u, hu, rfl⟩
      exact ⟨himported, (Findings.mem_names_usages.1 hname).2⟩
    · rintro ⟨himported, hcalls⟩
      have hforeign : isForeign f.imports f.requires name = true := by
        rw [isForeign, himported, Bool.true_or]
      obtain ⟨u, hu, rfl⟩ := List.mem_map.1 (Findings.mem_names_usages.2 ⟨hforeign, hcalls⟩)
      obtain ⟨statement, hst⟩ := List.exists_mem_of_ne_nil _ (resets_ne_nil u)
      exact ⟨statement, mem_tracedResets.2 ⟨u, hu, rfl, himported, hst⟩⟩

end Jest

end TestScaffold
