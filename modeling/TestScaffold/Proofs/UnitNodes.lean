import Mathlib.Data.List.Flatten
import TestScaffold.Generation
import TestScaffold.Proofs.FoundUnits
import TestScaffold.Proofs.Selection

set_option autoImplicit false

/-!
# The nodes that tests come from

A model does not say where in the syntax tree a unit was read. Here the readings of a tree are listed
together with the nodes they were made at, and the list is followed through selection to the tests. So what
a test does can be compared with the node of the very unit that it is for.

## Main definitions

* `TestScaffold.Sourced`, `TestScaffold.Tree.sourced` — readings with their nodes.
* `TestScaffold.Tree.retainedCallables` — the nodes of the methods and functions that a model keeps.
* `TestScaffold.SourcedTest`, `TestScaffold.Tree.sourcedTests` — the tests of a model with their nodes.

## Main results

* `TestScaffold.Locus.readFrom_of_mem_findings` — a unit is what is read off the node it is found at.
* `TestScaffold.Tree.map_case_sourcedTests` — without their nodes, the tests are those of the model.
* `TestScaffold.Tree.readsCallable_of_mem_sourcedTests` — a test has the parameters of its node.
* `TestScaffold.Tree.publishedDiagnostics_eq` — the diagnostics of a model by their nodes.
* `TestScaffold.Tree.preorder_isPrefix` — the nodes of a part of a tree stand together.
-/

namespace TestScaffold

/-! ## What a finding says about its node -/

/-- What a finding says about the node that it is made at: a unit is the reading of that node, and a
diagnostic outside of units is not about a parameter. -/
def Finding.ReadFrom (src : SourceText) (node : Tree) : Finding → Prop
  | .classFound r => ∃ name, r = classReading src node name
  | .functionFound r => ∃ name, r = functionReading src node name
  | .flagged d => d.form ≠ .unpackedParameter
  | .imported _ | .required _ | .slotExported _ | .exported _ => True

/-- What is beside the units says nothing about a node. -/
theorem Finding.IsAside.readFrom {src : SourceText} {node : Tree} {x : Finding} (h : x.IsAside) :
    x.ReadFrom src node := by
  cases x with
  | classFound r => cases h
  | functionFound r => cases h
  | flagged d => exact h
  | _ => trivial

/-- A unit that is found at a place is read off the node there. -/
theorem Locus.readFrom_of_mem_findings {src : SourceText} {p : Locus} {x : Finding}
    (h : x ∈ p.findings src) : x.ReadFrom src p.node := by
  rcases p.findings_cases src with ⟨name, -, hfound⟩ | ⟨n, -, hfound⟩ | haside
  · rw [hfound, List.mem_singleton] at h
    exact h ▸ ⟨name, rfl⟩
  · rw [hfound, List.mem_singleton] at h
    exact h ▸ ⟨n, rfl⟩
  · exact (haside x h).readFrom

/-! ## Readings with their nodes -/

/-- A class or function that was read, with the node it was read from. -/
structure Sourced (α : Type) where
  /-- The node. -/
  node : Tree
  /-- What was read. -/
  reading : Reading α

/-- A test with the node of the method or function that it is for. -/
structure SourcedTest where
  /-- The node. -/
  node : Tree
  /-- The test. -/
  case : TestCase

/-- The members of a class. -/
def classMembers (node : Tree) : List Tree := ((node.childAt? .body).map Tree.namedChildren).getD []

/-- The nodes of the methods of a class. -/
def Sourced.methodNodes (src : SourceText) (s : Sourced ClassUnit) : List Tree :=
  (methodMembers src (classMembers s.node)).map (·.1)

/-- The tests of the methods of a class. -/
def Sourced.methodTests (src : SourceText) (s : Sourced ClassUnit) : List SourcedTest :=
  ((methodMembers src (classMembers s.node)).filter (·.2.role == .method)).map fun (member, method) =>
    ⟨member, methodCase s.reading.unit method⟩

namespace Tree

/-- The findings of one sort in a tree, with the nodes they are made at. -/
def sourced {α : Type} (src : SourceText) (sort : Finding → Option (Reading α)) (root : Tree) :
    List (Sourced α) :=
  (root.loci []).flatMap fun p => (p.findings src).filterMap fun x => (sort x).map fun r => ⟨p.node, r⟩

section Retained

variable (src : SourceText) (specifier : String) (root : Tree)

/-- The classes that the model of a tree keeps, with their nodes. -/
def retainedClasses : List (Sourced ClassUnit) :=
  (root.sourced src Finding.class?).filter fun s =>
    (Findings.ofTree src specifier root).keepsClass s.reading.unit

/-- The functions that the model of a tree keeps, with their nodes. -/
def retainedFunctions : List (Sourced FunctionUnit) :=
  (root.sourced src Finding.function?).filter fun s =>
    (Findings.ofTree src specifier root).surface.publishes s.reading.unit

/-- The nodes of the methods, constructors included, and of the functions that the model of a tree keeps. -/
def retainedCallables : List Tree :=
  (root.retainedClasses src specifier).flatMap (Sourced.methodNodes src) ++
    (root.retainedFunctions src specifier).map (·.node)

/-- The functions of the model of a tree, with their nodes. -/
def publishedFunctions : List (Tree × FunctionUnit) :=
  ((root.retainedFunctions src specifier).map (·.node)).zip
    (Findings.ofTree src specifier root).publishedFunctions

/-- The tests of the functions in the model of a tree. -/
def functionTests : List SourcedTest :=
  ((root.publishedFunctions src specifier).filter (·.2.role == .function)).map fun (func, g) =>
    ⟨func, functionCase g⟩

/-- The tests of the model of a tree, with their nodes. -/
def sourcedTests : List SourcedTest :=
  (root.retainedClasses src specifier).flatMap (Sourced.methodTests src) ++
    root.functionTests src specifier

end Retained

variable {src : SourceText} {specifier : String} {root : Tree}

/-- Without their nodes, the sourced findings of one sort are all findings of that sort. -/
theorem map_reading_sourced {α : Type} (sort : Finding → Option (Reading α)) :
    (root.sourced src sort).map (·.reading) =
      ((root.loci []).flatMap (Locus.findings src)).filterMap sort := by
  rw [sourced, List.map_flatMap, List.filterMap_flatMap]
  refine List.flatMap_congr fun p _ => ?_
  rw [List.map_filterMap]
  refine List.filterMap_congr fun x _ => ?_
  rw [Option.map_map]
  exact congrFun Option.map_id (sort x)

/-- A sourced finding is made at its node. -/
theorem exists_of_mem_sourced {α : Type} {sort : Finding → Option (Reading α)} {s : Sourced α}
    (h : s ∈ root.sourced src sort) :
    ∃ x : Finding, sort x = some s.reading ∧ x.ReadFrom src s.node ∧ s.node ∈ root.preorder := by
  obtain ⟨p, hp, h⟩ := List.mem_flatMap.1 h
  obtain ⟨x, hx, h⟩ := List.mem_filterMap.1 h
  obtain ⟨r, hr, rfl⟩ := Option.map_eq_some_iff.1 h
  refine ⟨x, hr, Locus.readFrom_of_mem_findings hx, ?_⟩
  rw [← map_node_loci []]
  exact List.mem_map_of_mem hp

/-- A sourced class is the reading of its node. -/
theorem exists_classReading {s : Sourced ClassUnit} (h : s ∈ root.sourced src Finding.class?) :
    s.node ∈ root.preorder ∧ ∃ name, s.reading = classReading src s.node name := by
  obtain ⟨x, hx, hread, hin⟩ := exists_of_mem_sourced h
  cases x with
  | classFound r =>
    obtain rfl := Option.some.inj hx
    exact ⟨hin, hread⟩
  | _ => cases hx

/-- A sourced function is the reading of its node. -/
theorem exists_functionReading {s : Sourced FunctionUnit} (h : s ∈ root.sourced src Finding.function?) :
    s.node ∈ root.preorder ∧ ∃ name, s.reading = functionReading src s.node name := by
  obtain ⟨x, hx, hread, hin⟩ := exists_of_mem_sourced h
  cases x with
  | functionFound r =>
    obtain rfl := Option.some.inj hx
    exact ⟨hin, hread⟩
  | _ => cases hx

/-- Keeping sourced readings is keeping the readings. -/
theorem map_reading_filter_sourced {α : Type} (sort : Finding → Option (Reading α)) (keep : α → Bool) :
    ((root.sourced src sort).filter fun s => keep s.reading.unit).map (·.reading) =
      keptReadings keep (((root.loci []).flatMap (Locus.findings src)).filterMap sort) := by
  rw [← map_reading_sourced, keptReadings, List.filter_map]
  rfl

/-- Without their nodes, the retained classes are the published ones. -/
theorem map_unit_retainedClasses :
    (root.retainedClasses src specifier).map (·.reading.unit) =
      (Findings.ofTree src specifier root).publishedClasses := by
  show _ = (keptReadings _ (((root.loci []).flatMap (Locus.findings src)).filterMap
    Finding.class?)).map (·.unit)
  rw [← map_reading_filter_sourced, List.map_map]
  rfl

/-- Without their nodes, the retained functions are the kept ones. -/
theorem map_unit_retainedFunctions :
    (root.retainedFunctions src specifier).map (·.reading.unit) =
      keptUnits (Findings.ofTree src specifier root).surface.publishes
        (Findings.ofTree src specifier root).functions := by
  show _ = (keptReadings _ (((root.loci []).flatMap (Locus.findings src)).filterMap
    Finding.function?)).map (·.unit)
  rw [← map_reading_filter_sourced, List.map_map]
  rfl

/-! ## The tests of a model with their nodes -/

/-- Completing the methods of a class adds none to be tested. -/
theorem filter_withConstructor (methods : List Method) :
    (withConstructor methods).filter (·.role == .method) = methods.filter (·.role == .method) := by
  unfold withConstructor
  split <;> rfl

/-- Without their nodes, the tests of the methods of a sourced class are those of the class. -/
theorem map_case_methodTests {s : Sourced ClassUnit} (h : s ∈ root.sourced src Finding.class?) :
    (s.methodTests src).map (·.case) = s.reading.unit.testCases := by
  obtain ⟨-, name, hread⟩ := exists_classReading h
  have hmethods : s.reading.unit.methods =
      withConstructor ((methodMembers src (classMembers s.node)).map (·.2)) := by
    rw [hread]
    rfl
  rw [ClassUnit.testCases, hmethods, filter_withConstructor, List.filter_map, List.map_map,
    Sourced.methodTests, List.map_map]
  rfl

/-- There is a node for each published function. -/
theorem length_publishedFunctions :
    (Findings.ofTree src specifier root).publishedFunctions.length =
      ((root.retainedFunctions src specifier).map (·.node)).length := by
  have h := congrArg List.length (Findings.map_publishedFunctions (fun _ => ()) (fun _ => rfl)
    (Findings.ofTree src specifier root))
  rw [← map_unit_retainedFunctions] at h
  simpa using h

/-- Without their nodes, the published functions are those of the model. -/
theorem map_snd_publishedFunctions :
    (root.publishedFunctions src specifier).map (·.2) =
      (Findings.ofTree src specifier root).publishedFunctions :=
  List.map_snd_zip length_publishedFunctions.le

/-- **The sourced tests are the tests of the model**, in the same order. -/
theorem map_case_sourcedTests :
    (root.sourcedTests src specifier).map (·.case) =
      (Findings.ofTree src specifier root).toModel.testCases := by
  have hmethods : (root.retainedClasses src specifier).flatMap (fun s => (s.methodTests src).map (·.case)) =
      (Findings.ofTree src specifier root).publishedClasses.flatMap ClassUnit.testCases := by
    rw [← map_unit_retainedClasses, List.flatMap_map]
    exact List.flatMap_congr fun s hs => map_case_methodTests (List.mem_filter.1 hs).1
  have hfunctions : (root.functionTests src specifier).map (·.case) =
      ((Findings.ofTree src specifier root).publishedFunctions.filter (·.role == .function)).map
        functionCase := by
    rw [← map_snd_publishedFunctions, List.filter_map, List.map_map, functionTests, List.map_map]
    rfl
  rw [sourcedTests, List.map_append, List.map_flatMap, hmethods, hfunctions]
  rfl

/-! ## What a test has from its node -/

/-- What a test has from the node that it is for. -/
structure ReadsCallable (src : SourceText) (root : Tree) (s : SourcedTest) : Prop where
  /-- The node is one of the tree. -/
  mem : s.node ∈ root.preorder
  /-- The parameters are those of the node. -/
  parameters : s.case.parameters = parameterNames src s.node
  /-- The result is kept if the node returns. -/
  returns : s.case.returns = (scopeFacts src s.node).returns

/-- The facts about a function-like node begin with the names of its parameters. -/
theorem parameters_scopeFacts (src : SourceText) (func : Tree) :
    (scopeFacts src func).parameters = parameterNames src func := by
  unfold scopeFacts
  split <;> rfl

/-- A method has the facts about its member. -/
theorem scopeFacts_of_method? {member : Tree} {method : Method} (h : method? src member = some method) :
    method.parameters = parameterNames src member ∧
      method.returns = (scopeFacts src member).returns := by
  unfold method? at h
  split at h
  · cases h
  · split at h
    · cases h
    · obtain rfl := Option.some.inj h
      exact ⟨parameters_scopeFacts src member, rfl⟩

/-- A tree is one of its nodes. -/
theorem mem_preorder_self (t : Tree) : t ∈ t.preorder := by
  cases t with
  | node l cs =>
    rw [preorder]
    exact List.mem_cons_self

/-- The nodes of several trees are the nodes of each. -/
theorem preorderAll_eq_flatMap (cs : List Tree) : preorderAll cs = cs.flatMap preorder := by
  induction cs with
  | nil => rw [preorderAll]; rfl
  | cons c cs ih => rw [preorderAll, List.flatMap_cons, ih]

mutual

/-- The nodes of a part of a tree stand together in document order, from the root of the part on. -/
theorem preorder_isPrefix {t : Tree} :
    ∀ (root : Tree) {before rest : List Tree}, root.preorder = before ++ t :: rest → t.preorder <+: t :: rest
  | node l cs, [], rest, h => by
    obtain rfl : node l cs = t := List.head_eq_of_cons_eq h
    exact ⟨[], (List.append_nil _).trans h⟩
  | node l cs, _ :: before, rest, h => preorderAll_isPrefix cs (List.tail_eq_of_cons_eq h)

/-- The nodes of a part of several trees stand together among the nodes of these. -/
theorem preorderAll_isPrefix {t : Tree} :
    ∀ (roots : List Tree) {before rest : List Tree}, preorderAll roots = before ++ t :: rest →
      t.preorder <+: t :: rest
  | [], before, rest, h => by simp [preorderAll] at h
  | r :: rs, before, rest, h => by
    rw [preorderAll, List.append_eq_append_iff] at h
    obtain ⟨before', -, h⟩ | ⟨here, h, hrest⟩ := h
    · exact preorderAll_isPrefix rs h
    cases here with
    | nil =>
      have hhead : preorderAll rs = [] ++ t :: rest := hrest.symm
      exact preorderAll_isPrefix rs hhead
    | cons u here =>
      obtain ⟨rfl, rfl⟩ := List.cons.inj hrest
      exact (preorder_isPrefix r h).trans (List.prefix_append _ _)

end

/-- The nodes of a part of a tree are nodes of the tree. -/
theorem preorder_subset_of_mem {t : Tree} (root : Tree) (h : t ∈ root.preorder) : t.preorder ⊆ root.preorder := by
  obtain ⟨before, rest, hsplit⟩ := List.append_of_mem h
  rw [hsplit]
  exact List.subset_append_of_subset_right before (preorder_isPrefix root hsplit).subset

/-- The children of a node of a tree are nodes of the tree. -/
theorem mem_preorder_of_mem_children {t c : Tree} (hc : c ∈ t.children) (root : Tree) (h : t ∈ root.preorder) :
    c ∈ root.preorder := by
  refine preorder_subset_of_mem root h ?_
  obtain ⟨l, cs⟩ := t
  rw [preorder, preorderAll_eq_flatMap]
  exact List.mem_cons_of_mem _ (List.mem_flatMap.2 ⟨c, hc, mem_preorder_self c⟩)

/-- A child in some role of a node of a tree is a node of the tree. -/
theorem mem_preorder_of_childAt? {t c : Tree} {f : Field} (ht : t ∈ root.preorder)
    (h : t.childAt? f = some c) : c ∈ root.preorder :=
  mem_preorder_of_mem_children (List.mem_of_find?_eq_some h) root ht

/-- A named child of a node of a tree is a node of the tree. -/
theorem mem_preorder_of_mem_namedChildren {t c : Tree} (ht : t ∈ root.preorder)
    (h : c ∈ t.namedChildren) : c ∈ root.preorder :=
  mem_preorder_of_mem_children (List.mem_filter.1 h).1 root ht

/-- The members of a class in a tree are nodes of the tree. -/
theorem mem_preorder_of_mem_classMembers {t member : Tree} (ht : t ∈ root.preorder)
    (h : member ∈ classMembers t) : member ∈ root.preorder := by
  unfold classMembers at h
  cases hbody : t.childAt? .body with
  | none =>
    rw [hbody] at h
    cases h
  | some body =>
    rw [hbody] at h
    exact mem_preorder_of_mem_namedChildren (mem_preorder_of_childAt? ht hbody) h

/-- A method of a class is read off one of its members. -/
theorem of_mem_methodMembers {members : List Tree} {member : Tree} {method : Method}
    (h : (member, method) ∈ methodMembers src members) :
    member ∈ members ∧ method? src member = some method := by
  obtain ⟨t, ht, h⟩ := List.mem_filterMap.1 h
  obtain ⟨m, hm, heq⟩ := Option.map_eq_some_iff.1 h
  obtain ⟨rfl, rfl⟩ := Prod.mk.inj heq
  exact ⟨(List.mem_filter.1 ht).1, hm⟩

/-- A published function has the facts about its node. -/
theorem scopeFacts_of_mem_publishedFunctions {func : Tree} {g : FunctionUnit}
    (h : (func, g) ∈ root.publishedFunctions src specifier) :
    func ∈ root.preorder ∧ g.parameters = parameterNames src func ∧
      g.returns = (scopeFacts src func).returns := by
  obtain ⟨i, hi⟩ := List.mem_iff_getElem?.1 h
  obtain ⟨hfunc, hg⟩ := List.getElem?_zip_eq_some.1 hi
  rw [List.getElem?_map] at hfunc
  obtain ⟨s, hs, rfl⟩ := Option.map_eq_some_iff.1 hfunc
  -- Promotion changes neither parameters nor whether a function returns.
  have hfacts := congrArg (·[i]?) (Findings.map_publishedFunctions
    (fun u => (u.parameters, u.returns)) (fun _ => rfl) (Findings.ofTree src specifier root))
  rw [← map_unit_retainedFunctions] at hfacts
  simp only [List.getElem?_map, hg, hs, Option.map_some, Option.some.injEq, Prod.mk.injEq] at hfacts
  obtain ⟨hin, name, hread⟩ := exists_functionReading (List.mem_filter.1 (List.mem_of_getElem? hs)).1
  rw [hfacts.1, hfacts.2, hread]
  exact ⟨hin, parameters_scopeFacts src s.node, rfl⟩

/-- **A test has the parameters of its node**, and keeps the result if its node returns. -/
theorem readsCallable_of_mem_sourcedTests {s : SourcedTest} (h : s ∈ root.sourcedTests src specifier) :
    ReadsCallable src root s := by
  rcases List.mem_append.1 h with h | h
  · obtain ⟨c, hc, h⟩ := List.mem_flatMap.1 h
    obtain ⟨⟨member, method⟩, hpair, rfl⟩ := List.mem_map.1 h
    obtain ⟨hmember, hmethod⟩ := of_mem_methodMembers (List.mem_filter.1 hpair).1
    obtain ⟨hparameters, hreturns⟩ := scopeFacts_of_method? hmethod
    have hclass := (exists_classReading (List.mem_filter.1 hc).1).1
    exact ⟨mem_preorder_of_mem_classMembers hclass hmember, hparameters, hreturns⟩
  · obtain ⟨⟨func, g⟩, hpair, rfl⟩ := List.mem_map.1 h
    obtain ⟨hin, hparameters, hreturns⟩ :=
      scopeFacts_of_mem_publishedFunctions (List.mem_filter.1 hpair).1
    exact ⟨hin, hparameters, hreturns⟩

/-- The nodes of tests are retained, in the same order. -/
theorem sublist_node_sourcedTests :
    ((root.sourcedTests src specifier).map (·.node)).Sublist (root.retainedCallables src specifier) := by
  have hmethods : ∀ s : Sourced ClassUnit,
      ((s.methodTests src).map (·.node)).Sublist (s.methodNodes src) := by
    intro s
    rw [Sourced.methodTests, List.map_map]
    exact List.filter_sublist.map _
  have hfunctions : ((root.functionTests src specifier).map (·.node)).Sublist
      ((root.retainedFunctions src specifier).map (·.node)) := by
    have hnodes : (root.publishedFunctions src specifier).map (·.1) =
        (root.retainedFunctions src specifier).map (·.node) :=
      List.map_fst_zip length_publishedFunctions.ge
    rw [← hnodes, functionTests, List.map_map]
    exact List.filter_sublist.map _
  rw [sourcedTests, List.map_append, List.map_flatMap]
  exact (List.Sublist.flatMap_right _ fun s _ => hmethods s).append hfunctions

/-- The retained nodes are nodes of the tree. -/
theorem mem_preorder_of_mem_retainedCallables {func : Tree}
    (h : func ∈ root.retainedCallables src specifier) : func ∈ root.preorder := by
  rcases List.mem_append.1 h with h | h
  · obtain ⟨c, hc, h⟩ := List.mem_flatMap.1 h
    obtain ⟨⟨member, method⟩, hpair, rfl⟩ := List.mem_map.1 h
    have hclass := (exists_classReading (List.mem_filter.1 hc).1).1
    exact mem_preorder_of_mem_classMembers hclass (of_mem_methodMembers hpair).1
  · obtain ⟨s, hs, rfl⟩ := List.mem_map.1 h
    exact (exists_functionReading (List.mem_filter.1 hs).1).1

/-! ## The diagnostics of a model by their nodes -/

/-- The diagnostics of a sourced class are about the parameters of its methods. -/
theorem diagnostics_of_mem_sourced_class {s : Sourced ClassUnit}
    (h : s ∈ root.sourced src Finding.class?) :
    s.reading.diagnostics = (s.methodNodes src).flatMap (parameterDiagnostics src) := by
  obtain ⟨-, name, hread⟩ := exists_classReading h
  rw [hread, Sourced.methodNodes, List.flatMap_map]
  rfl

/-- The diagnostics of a sourced function are about its parameters. -/
theorem diagnostics_of_mem_sourced_function {s : Sourced FunctionUnit}
    (h : s ∈ root.sourced src Finding.function?) :
    s.reading.diagnostics = parameterDiagnostics src s.node := by
  obtain ⟨-, name, hread⟩ := exists_functionReading h
  rw [hread]
  rfl

/-- The diagnostics of the published units are those about the parameters of the retained nodes. -/
theorem publishedDiagnostics_eq :
    (Findings.ofTree src specifier root).publishedDiagnostics =
      (Findings.ofTree src specifier root).diagnostics ++
        (root.retainedCallables src specifier).flatMap (parameterDiagnostics src) := by
  have hclasses : keptDiagnostics (Findings.ofTree src specifier root).keepsClass
      (Findings.ofTree src specifier root).classes =
      (root.retainedClasses src specifier).flatMap fun s =>
        (s.methodNodes src).flatMap (parameterDiagnostics src) := by
    show (keptReadings _ (((root.loci []).flatMap (Locus.findings src)).filterMap Finding.class?)).flatMap
      _ = _
    rw [← map_reading_filter_sourced, List.flatMap_map]
    exact List.flatMap_congr fun s hs => diagnostics_of_mem_sourced_class (List.mem_filter.1 hs).1
  have hfunctions : keptDiagnostics (Findings.ofTree src specifier root).surface.publishes
      (Findings.ofTree src specifier root).functions =
      (root.retainedFunctions src specifier).flatMap fun s => parameterDiagnostics src s.node := by
    show (keptReadings _ (((root.loci []).flatMap (Locus.findings src)).filterMap
      Finding.function?)).flatMap _ = _
    rw [← map_reading_filter_sourced, List.flatMap_map]
    exact List.flatMap_congr fun s hs => diagnostics_of_mem_sourced_function (List.mem_filter.1 hs).1
  rw [Findings.publishedDiagnostics, hclasses, hfunctions, retainedCallables, List.flatMap_append,
    List.flatMap_assoc, List.flatMap_map, List.append_assoc]

/-- A diagnostic outside of units is not about a parameter. -/
theorem form_ne_of_mem_diagnostics {d : Diagnostic}
    (h : d ∈ (Findings.ofTree src specifier root).diagnostics) : d.form ≠ .unpackedParameter := by
  obtain ⟨x, hx, hd⟩ := List.mem_filterMap.1 h
  obtain ⟨p, -, hfound⟩ := List.mem_flatMap.1 hx
  have hread := Locus.readFrom_of_mem_findings hfound
  cases x with
  | flagged d' =>
    obtain rfl := Option.some.inj hd
    exact hread
  | _ => cases hd

/-- **The reports on parameters** in a model are those on the parameters of the retained nodes, up to their
order. -/
theorem perm_filter_diagnostics :
    ((Findings.ofTree src specifier root).toModel.diagnostics.filter
      (·.form == .unpackedParameter)).Perm
      ((root.retainedCallables src specifier).flatMap (parameterDiagnostics src)) := by
  have hsort : (Findings.ofTree src specifier root).toModel.diagnostics.Perm
      (Findings.ofTree src specifier root).publishedDiagnostics := perm_sortByLine _
  have hnone : (Findings.ofTree src specifier root).diagnostics.filter
      (·.form == .unpackedParameter) = [] := by
    rw [List.filter_eq_nil_iff]
    intro d hd heq
    exact form_ne_of_mem_diagnostics hd (eq_of_beq heq)
  have hall : ∀ d ∈ (root.retainedCallables src specifier).flatMap (parameterDiagnostics src),
      (d.form == .unpackedParameter) = true := by
    intro d hd
    obtain ⟨func, -, hfunc⟩ := List.mem_flatMap.1 hd
    unfold parameterDiagnostics at hfunc
    split at hfunc
    · cases hfunc
    · obtain ⟨pattern, -, rfl⟩ := List.mem_map.1 hfunc
      rfl
  refine (hsort.filter _).trans ?_
  rw [publishedDiagnostics_eq, List.filter_append, hnone, List.nil_append,
    List.filter_eq_self.2 hall]

end Tree

end TestScaffold
