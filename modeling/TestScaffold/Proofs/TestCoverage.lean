import TestScaffold.Scaffold.Sections
import TestScaffold.Proofs.Selection

set_option autoImplicit false

/-!
# Which units have a test

The tests of a suite come from units that have passed selection, where units are left out and a function
may change its role. Here the tests are compared with the findings as they were read: every unit has a
*place* among them, and there is one test for each place that holds something to be tested.

## Main definitions

* `TestScaffold.UnitPlace`, `TestScaffold.UnitPlace.Before` — the places of units and their order.
* `TestScaffold.Findings.InferredConstructor` — the function that is promoted to a constructor.
* `TestScaffold.Findings.Tests` — the places of the units to be tested, each with its test.

## Main results

* `TestScaffold.Findings.publishedFunctions_eq_map` — selection of functions, place by place.
* `TestScaffold.scaffold_tests_each_unit_once` — the tests of a scaffold are those of the units to be tested.
-/

namespace TestScaffold

/-! ## Places -/

/-- The place of a unit among the findings of a module. -/
inductive UnitPlace where
  /-- The method at position `j` of the class at position `i`. -/
  | method (i j : Nat)
  /-- The function at position `i`. -/
  | function (i : Nat)
deriving DecidableEq, Repr

/-- The order of tests: methods by their classes and within a class by their positions, then functions. -/
inductive UnitPlace.Before : UnitPlace → UnitPlace → Prop where
  /-- The methods of a class stand in order. -/
  | sameClass {i j k : Nat} (h : j < k) : Before (.method i j) (.method i k)
  /-- The methods of a class stand before those of later classes. -/
  | laterClass {i i' j j' : Nat} (h : i < i') : Before (.method i j) (.method i' j')
  /-- Functions stand behind all methods. -/
  | functionLast {i j k : Nat} : Before (.method i j) (.function k)
  /-- Functions stand in order. -/
  | laterFunction {i k : Nat} (h : i < k) : Before (.function i) (.function k)

namespace Findings

variable {f : Findings}

/-- The name of the unit at a place. -/
def unitName? (f : Findings) : UnitPlace → Option String
  | .method i j => do
    let r ← f.classes[i]?
    let m ← r.unit.methods[j]?
    return m.name
  | .function i => f.functions[i]?.map (·.unit.name)

/-! ## The inferred constructor -/

/-- Whether the function at a position is published and another published function is attached to it. -/
def AttachedTo (f : Findings) (i : Nat) : Prop :=
  ∃ r, f.functions[i]? = some r ∧ f.surface.publishes r.unit = true ∧
    ∃ j s, f.functions[j]? = some s ∧ f.surface.publishes s.unit = true ∧ j ≠ i ∧
      r.unit.name ∈ s.unit.qualifier

/-- Whether the function at a position is taken for a constructor: there is no published class, and it is
the last published function that another one is attached to. -/
structure InferredConstructor (f : Findings) (i : Nat) : Prop where
  /-- No class is published. -/
  classless : ∀ r ∈ f.classes, r.unit.name ∉ f.surface.names
  /-- A published function is attached to this one. -/
  attached : f.AttachedTo i
  /-- There is no later function of that kind. -/
  last : ∀ k, f.AttachedTo k → k ≤ i

/-- The published functions with their positions. -/
def placedFunctions (f : Findings) : List (Reading FunctionUnit × Nat) :=
  f.functions.zipIdx.filter fun entry => f.surface.publishes entry.1.unit

/-- A function has a place if it is published. -/
theorem mem_placedFunctions {r : Reading FunctionUnit} {i : Nat} :
    (r, i) ∈ f.placedFunctions ↔
      f.functions[i]? = some r ∧ f.surface.publishes r.unit = true := by
  rw [placedFunctions, List.mem_filter, List.mk_mem_zipIdx_iff_getElem?]

/-- Published functions stand in the order of their positions. -/
theorem pairwise_placedFunctions : f.placedFunctions.Pairwise fun a b => a.2 < b.2 :=
  (pairwise_zipIdx f.functions).filter _

/-- Without their positions, the placed functions are the kept ones. -/
theorem map_unit_placedFunctions :
    f.placedFunctions.map (·.1.unit) = keptUnits f.surface.publishes f.functions := by
  unfold placedFunctions keptUnits keptReadings
  conv_rhs => rw [← List.zipIdx_map_fst 0 f.functions, List.filter_map, List.map_map]
  rfl

/-- Of two published functions, the earlier one has the smaller position. -/
theorem position_le_iff {j k i i' : Nat} {r s : Reading FunctionUnit}
    (hj : f.placedFunctions[j]? = some (r, i)) (hk : f.placedFunctions[k]? = some (s, i')) :
    i ≤ i' ↔ j ≤ k := by
  have hlt : ∀ {j k i i' : Nat} {r s : Reading FunctionUnit}, f.placedFunctions[j]? = some (r, i) →
      f.placedFunctions[k]? = some (s, i') → j < k → i < i' := by
    intro j k i i' r s hj hk h
    obtain ⟨hj', heq⟩ := List.getElem?_eq_some_iff.1 hj
    obtain ⟨hk', heq'⟩ := List.getElem?_eq_some_iff.1 hk
    have hpositions := List.pairwise_iff_getElem.1 pairwise_placedFunctions j k hj' hk' h
    rwa [heq, heq'] at hpositions
  rcases Nat.lt_trichotomy j k with h | rfl | h
  · exact iff_of_true (hlt hj hk h).le h.le
  · rw [hj, Option.some.injEq, Prod.mk.injEq] at hk
    exact iff_of_true hk.2.le le_rfl
  · exact iff_of_false (Nat.not_le.2 (hlt hk hj h)) (Nat.not_le.2 h)

/-- Two published functions are the same entry if they have the same position. -/
theorem position_eq_iff {j k i i' : Nat} {r s : Reading FunctionUnit}
    (hj : f.placedFunctions[j]? = some (r, i)) (hk : f.placedFunctions[k]? = some (s, i')) :
    i = i' ↔ j = k := by
  rw [le_antisymm_iff, position_le_iff hj hk, position_le_iff hk hj, ← le_antisymm_iff]

/-- A published function has an entry. -/
theorem exists_getElem?_placedFunctions {r : Reading FunctionUnit} {i : Nat}
    (hr : f.functions[i]? = some r) (hpublished : f.surface.publishes r.unit = true) :
    ∃ k : Nat, f.placedFunctions[k]? = some (r, i) :=
  List.mem_iff_getElem?.1 (mem_placedFunctions.2 ⟨hr, hpublished⟩)

/-- A kept function is referenced if a published function is attached to it. -/
theorem isReferencedAt_keptUnits {k i : Nat} {r : Reading FunctionUnit}
    (hk : f.placedFunctions[k]? = some (r, i)) :
    isReferencedAt (keptUnits f.surface.publishes f.functions) k = true ↔ f.AttachedTo i := by
  obtain ⟨hr, hpublished⟩ := mem_placedFunctions.1 (List.mem_of_getElem? hk)
  rw [← map_unit_placedFunctions, isReferencedAt_iff]
  simp only [List.getElem?_map, Option.map_eq_some_iff]
  constructor
  · rintro ⟨_, ⟨_, hk', rfl⟩, j, _, ⟨⟨s, i'⟩, hj, rfl⟩, hne, hmentions⟩
    obtain rfl := Option.some.inj (hk.symm.trans hk')
    obtain ⟨hs, hs'⟩ := mem_placedFunctions.1 (List.mem_of_getElem? hj)
    exact ⟨r, hr, hpublished, i', s, hs, hs', (position_eq_iff hj hk).not.2 hne, hmentions⟩
  · rintro ⟨_, hr', -, i', s, hs, hs', hne, hmentions⟩
    obtain rfl := Option.some.inj (hr.symm.trans hr')
    obtain ⟨j, hj⟩ := exists_getElem?_placedFunctions hs hs'
    exact ⟨r.unit, ⟨_, hk, rfl⟩, j, s.unit, ⟨_, hj, rfl⟩, (position_eq_iff hj hk).not.1 hne, hmentions⟩

/-- The promoted function is the last one that another is attached to. -/
theorem promotedIndex?_keptUnits {k i : Nat} {r : Reading FunctionUnit}
    (hk : f.placedFunctions[k]? = some (r, i)) :
    promotedIndex? (keptUnits f.surface.publishes f.functions) = some k ↔
      f.AttachedTo i ∧ ∀ j, f.AttachedTo j → j ≤ i := by
  rw [promotedIndex?_eq_some_iff, isReferencedAt_keptUnits hk]
  refine and_congr_right fun _ => ⟨fun hlast i' hi' => ?_, fun hlast j hj => ?_⟩
  · obtain ⟨s, hs, hs', -⟩ := id hi'
    obtain ⟨j, hj⟩ := exists_getElem?_placedFunctions hs hs'
    exact (position_le_iff hj hk).2 (hlast j ((isReferencedAt_keptUnits hj).2 hi'))
  · obtain ⟨g, hg, -⟩ := isReferencedAt_iff.1 hj
    rw [← map_unit_placedFunctions, List.getElem?_map, Option.map_eq_some_iff] at hg
    obtain ⟨⟨s, i'⟩, hj', -⟩ := hg
    exact (position_le_iff hj' hk).1 (hlast i' ((isReferencedAt_keptUnits hj').1 hj))

/-- No class is published if none of the names of classes is. -/
theorem isEmpty_publishedClasses :
    f.publishedClasses.isEmpty = true ↔ ∀ r ∈ f.classes, r.unit.name ∉ f.surface.names := by
  rw [List.isEmpty_iff, List.eq_nil_iff_forall_not_mem]
  simp only [mem_publishedClasses, not_exists, not_and]
  exact ⟨fun h r hr hname => h r.unit r hr hname rfl, fun h _ r hr hname _ => h r hr hname⟩

open scoped Classical in
/-- A published function with the role that selection gives it. -/
noncomputable def selectedFunction (f : Findings) (entry : Reading FunctionUnit × Nat) : FunctionUnit :=
  if f.InferredConstructor entry.2 then { entry.1.unit with role := .constructor } else entry.1.unit

/-- **Selection of functions, place by place**: every published function is kept in its place, and nothing
changes but the role of the inferred constructor. -/
theorem publishedFunctions_eq_map :
    f.publishedFunctions = f.placedFunctions.map f.selectedFunction := by
  unfold publishedFunctions
  dsimp only
  split
  · next hclassless =>
    refine List.ext_getElem? fun k => ?_
    have hkept : (keptUnits f.surface.publishes f.functions)[k]? =
        f.placedFunctions[k]?.map (·.1.unit) := by
      rw [← map_unit_placedFunctions, List.getElem?_map]
    rw [getElem?_promoteConstructor, hkept, List.getElem?_map, Option.map_map]
    refine Option.map_congr fun entry hentry => ?_
    have hinferred : f.InferredConstructor entry.2 ↔
        promotedIndex? (keptUnits f.surface.publishes f.functions) = some k := by
      rw [promotedIndex?_keptUnits hentry]
      exact ⟨fun h => ⟨h.attached, h.last⟩, fun h => ⟨isEmpty_publishedClasses.1 hclassless, h.1, h.2⟩⟩
    simp only [Function.comp_apply, selectedFunction, hinferred]
  · next hclass =>
    rw [← map_unit_placedFunctions]
    refine List.map_congr_left fun entry _ => ?_
    have hinferred : ¬f.InferredConstructor entry.2 := fun h =>
      hclass (isEmpty_publishedClasses.2 h.classless)
    rw [selectedFunction, if_neg hinferred]

/-! ## The units to be tested -/

/-- The units to be tested, by their places, each with its test: the methods of published classes, apart from
constructors, and the published functions that are functions and not the inferred constructor. -/
inductive Tests (f : Findings) : UnitPlace → TestCase → Prop where
  /-- A method of a published class. -/
  | method {i j : Nat} {r : Reading ClassUnit} {m : Method} (hclass : f.classes[i]? = some r)
      (hname : r.unit.name ∈ f.surface.names) (hmethod : r.unit.methods[j]? = some m)
      (hrole : m.role = .method) : Tests f (.method i j) (methodCase r.unit m)
  /-- A published function. -/
  | function {i : Nat} {r : Reading FunctionUnit} (hfunction : f.functions[i]? = some r)
      (hpublished : f.surface.publishes r.unit = true) (hrole : r.unit.role = .function)
      (hplain : ¬f.InferredConstructor i) : Tests f (.function i) (functionCase r.unit)

/-- A test is described by the name of its unit. -/
theorem unitName?_of_tests {place : UnitPlace} {t : TestCase} (h : f.Tests place t) :
    f.unitName? place = some t.description := by
  cases h with
  | method hclass _ hmethod _ => simp [unitName?, hclass, hmethod, methodCase]
  | function hfunction _ _ _ => simp [unitName?, hfunction, functionCase]

/-- The tests of the methods of a class at a position. -/
def placedMethodTests (i : Nat) (c : ClassUnit) : List (UnitPlace × TestCase) :=
  (c.methods.zipIdx.filter (·.1.role == .method)).map fun (m, j) => (.method i j, methodCase c m)

/-- The tests of the methods of all published classes. -/
def methodTests (f : Findings) : List (UnitPlace × TestCase) :=
  (f.classes.zipIdx.filter fun (r, _) => f.keepsClass r.unit).flatMap fun (r, i) =>
    placedMethodTests i r.unit

/-- The tests of the published functions. -/
noncomputable def functionTests (f : Findings) : List (UnitPlace × TestCase) :=
  (f.placedFunctions.filter fun entry => (f.selectedFunction entry).role == .function).map
    fun entry => (.function entry.2, functionCase entry.1.unit)

/-- Without their places, the tests of the methods of a class are those of the class. -/
theorem map_snd_placedMethodTests (i : Nat) (c : ClassUnit) :
    (placedMethodTests i c).map (·.2) = c.testCases := by
  unfold placedMethodTests ClassUnit.testCases
  conv_rhs => rw [← List.zipIdx_map_fst 0 c.methods, List.filter_map, List.map_map]
  rw [List.map_map]
  rfl

/-- Without their places, the tests of methods are those of the published classes. -/
theorem map_snd_methodTests :
    f.methodTests.map (·.2) = f.publishedClasses.flatMap ClassUnit.testCases := by
  unfold methodTests publishedClasses keptUnits keptReadings
  conv_rhs => rw [← List.zipIdx_map_fst 0 f.classes, List.filter_map, List.map_map, List.flatMap_map]
  rw [List.map_flatMap]
  simp only [map_snd_placedMethodTests]
  rfl

/-- A function that keeps its role is tested as it was read. -/
theorem selectedFunction_of_role {entry : Reading FunctionUnit × Nat} :
    (f.selectedFunction entry).role = .function ↔
      entry.1.unit.role = .function ∧ ¬f.InferredConstructor entry.2 := by
  unfold selectedFunction
  split
  · next h => simp [h]
  · next h => simp [h]

/-- Without their places, the tests of functions are those of the published functions. -/
theorem map_snd_functionTests :
    f.functionTests.map (·.2) = (f.publishedFunctions.filter (·.role == .function)).map functionCase := by
  rw [publishedFunctions_eq_map, List.filter_map, List.map_map, functionTests, List.map_map]
  refine List.map_congr_left fun entry hentry => ?_
  have hrole := (List.mem_filter.1 hentry).2
  rw [beq_iff_eq, selectedFunction_of_role] at hrole
  rw [Function.comp_apply, Function.comp_apply, selectedFunction, if_neg hrole.2]

/-- Without their places, the tests are those of the model. -/
theorem map_snd_tests :
    (f.methodTests ++ f.functionTests).map (·.2) = f.toModel.testCases := by
  rw [List.map_append, map_snd_methodTests, map_snd_functionTests]
  rfl

/-- The tests of methods are those of the methods to be tested. -/
theorem mem_methodTests {place : UnitPlace} {t : TestCase} :
    (place, t) ∈ f.methodTests ↔ f.Tests place t ∧ ∃ i j, place = .method i j := by
  simp only [methodTests, placedMethodTests, List.mem_flatMap, List.mem_map, List.mem_filter]
  constructor
  · rintro ⟨⟨r, i⟩, ⟨hclass, hkeep⟩, ⟨m, j⟩, ⟨hmethod, hrole⟩, heq⟩
    obtain ⟨rfl, rfl⟩ := Prod.mk.inj heq
    exact ⟨.method (List.mk_mem_zipIdx_iff_getElem?.1 hclass) (Surface.contains_eq_true.1 hkeep)
      (List.mk_mem_zipIdx_iff_getElem?.1 hmethod) (eq_of_beq hrole), i, j, rfl⟩
  · rintro ⟨h, i, j, rfl⟩
    cases h with
    | @method _ _ r m hclass hname hmethod hrole =>
      exact ⟨(r, i), ⟨List.mk_mem_zipIdx_iff_getElem?.2 hclass, Surface.contains_eq_true.2 hname⟩,
        (m, j), ⟨List.mk_mem_zipIdx_iff_getElem?.2 hmethod, beq_iff_eq.2 hrole⟩, rfl⟩

/-- The tests of functions are those of the functions to be tested. -/
theorem mem_functionTests {place : UnitPlace} {t : TestCase} :
    (place, t) ∈ f.functionTests ↔ f.Tests place t ∧ ∃ i, place = .function i := by
  simp only [functionTests, List.mem_map, List.mem_filter, beq_iff_eq, selectedFunction_of_role]
  constructor
  · rintro ⟨⟨r, i⟩, ⟨hplaced, hrole, hplain⟩, heq⟩
    obtain ⟨rfl, rfl⟩ := Prod.mk.inj heq
    obtain ⟨hfunction, hpublished⟩ := mem_placedFunctions.1 hplaced
    exact ⟨.function hfunction hpublished hrole hplain, i, rfl⟩
  · rintro ⟨h, i, rfl⟩
    cases h with
    | @function _ r hfunction hpublished hrole hplain =>
      exact ⟨(r, i), ⟨mem_placedFunctions.2 ⟨hfunction, hpublished⟩, hrole, hplain⟩, rfl⟩

/-- The tests are those of the units to be tested. -/
theorem mem_tests {place : UnitPlace} {t : TestCase} :
    (place, t) ∈ f.methodTests ++ f.functionTests ↔ f.Tests place t := by
  rw [List.mem_append, mem_methodTests, mem_functionTests, ← and_or_left, and_iff_left_iff_imp]
  intro h
  cases h with
  | method => exact Or.inl ⟨_, _, rfl⟩
  | function => exact Or.inr ⟨_, rfl⟩

/-- The tests of methods stand in order. -/
theorem pairwise_methodTests : f.methodTests.Pairwise fun a b => a.1.Before b.1 := by
  refine List.pairwise_flatMap.2 ⟨fun entry _ => ?_, ?_⟩
  · refine List.pairwise_map.2 (((pairwise_zipIdx _).filter _).imp fun h => ?_)
    exact .sameClass h
  · refine ((pairwise_zipIdx _).filter _).imp fun h a ha b hb => ?_
    obtain ⟨_, -, rfl⟩ := List.mem_map.1 ha
    obtain ⟨_, -, rfl⟩ := List.mem_map.1 hb
    exact .laterClass h

/-- The tests stand in order. -/
theorem pairwise_tests :
    (f.methodTests ++ f.functionTests).Pairwise fun a b => a.1.Before b.1 := by
  refine List.pairwise_append.2 ⟨pairwise_methodTests, ?_, fun a ha b hb => ?_⟩
  · exact List.pairwise_map.2 ((pairwise_placedFunctions.filter _).imp fun h => .laterFunction h)
  · obtain ⟨-, i, j, hplace⟩ := mem_methodTests.1 ha
    obtain ⟨-, k, hplace'⟩ := mem_functionTests.1 hb
    rw [hplace, hplace']
    exact .functionLast

end Findings

/-- **A scaffold tests each unit once.** Whatever the framework, there is a list of tests, in the order of
the places of their units, that has a test for a place exactly if the unit there is to be tested. A test is
described by the name of its unit. The scaffold ends with a suite that holds, behind what surrounds the
tests, these tests and no others: whatever is taken to wrap a test, it is used for them alone.

**Proof sketch.** Selection leaves the published functions in their places and changes the role of the
inferred constructor only, so the tests of the model can be listed with the places of their units. -/
theorem scaffold_tests_each_unit_once (framework : Framework) (f : Findings) :
    ∃ tests : List (UnitPlace × TestCase),
      tests.Pairwise (fun a b => a.1.Before b.1) ∧
      (∀ place t, (place, t) ∈ tests ↔ f.Tests place t) ∧
      (∀ entry ∈ tests, f.unitName? entry.1 = some entry.2.description) ∧
      ∀ wrap : String → List Statement → Statement,
        scaffold? { framework with test := wrap } f.toModel =
          (subjectSection? f.toModel).map fun subject =>
            ⟨Statement.spaced (reportSection f.toModel) ++
              Statement.spaced (dependencySection framework f.toModel) ++ Statement.spaced subject ++
              [framework.suite (baseName f.specifier)
                (suiteFrame framework f.toModel ++ tests.map fun entry =>
                  wrap entry.2.description (caseBody framework f.toModel entry.2))]⟩ := by
  refine ⟨f.methodTests ++ f.functionTests, Findings.pairwise_tests, fun _ _ => Findings.mem_tests,
    fun entry hentry => Findings.unitName?_of_tests (Findings.mem_tests.1 hentry), fun wrap => ?_⟩
  have hblocks : f.toModel.testCases.map (caseBlock { framework with test := wrap } f.toModel) =
      (f.methodTests ++ f.functionTests).map fun entry =>
        wrap entry.2.description (caseBody framework f.toModel entry.2) := by
    rw [← Findings.map_snd_tests, List.map_map]
    rfl
  rw [← hblocks]
  rfl

end TestScaffold
