import Mathlib.Data.List.Sort
import TestScaffold.Selection.Model
import TestScaffold.Proofs.Aggregation

set_option autoImplicit false

/-!
# What selection keeps

The model of a list of findings is made by passes that leave units out, mark one of them, sort and gather.
Here is what each pass keeps, in terms of the findings alone.

## Main definitions

* `TestScaffold.Findings.PublishedCall` — the calls of the units that a module publishes.
* `TestScaffold.Findings.CallsThrough` — the names that such calls go through.

## Main results

* `TestScaffold.mem_keptUnits` — which units are kept.
* `TestScaffold.map_promoteConstructor`, `TestScaffold.countP_promoteConstructor_le` — promotion changes
  nothing but one role.
* `TestScaffold.eq_of_mentions_of_mem_promoteConstructor` — promotion takes place if a function is attached
  to another.
* `TestScaffold.sortByLine_eq` — sorting by line is insertion sort.
* `TestScaffold.Findings.mem_names_usages` — the names that the model has usage of.
-/

namespace TestScaffold

/-! ## Kept units -/

section Kept

variable {α : Type} {keep : α → Bool} {readings : List (Reading α)}

/-- A unit is kept if it is that of a reading and is to be kept. -/
@[simp] theorem mem_keptUnits {unit : α} :
    unit ∈ keptUnits keep readings ↔ ∃ r ∈ readings, keep r.unit = true ∧ r.unit = unit := by
  simp only [keptUnits, keptReadings, List.mem_map, List.mem_filter, and_assoc]

end Kept

/-! ## Promotion -/

/-- What does not look at the role of a function is the same for all functions after promotion. -/
theorem map_promoteConstructor {β : Type} (g : FunctionUnit → β)
    (hg : ∀ f : FunctionUnit, g { f with role := .constructor } = g f) (functions : List FunctionUnit) :
    (promoteConstructor functions).map g = functions.map g := by
  unfold promoteConstructor
  split
  · next i _ =>
    refine List.ext_getElem? fun j => ?_
    rw [List.getElem?_map, List.getElem?_map, List.getElem?_modify]
    cases functions[j]? with
    | none => rfl
    | some f =>
      by_cases h : i = j
      · simp [h, hg]
      · simp [h]
  · rfl

/-- A function after promotion is one from before, if need be with its role changed. -/
theorem mem_promoteConstructor {functions : List FunctionUnit} {f : FunctionUnit}
    (h : f ∈ promoteConstructor functions) :
    ∃ g ∈ functions, f = g ∨ f = { g with role := .constructor } := by
  unfold promoteConstructor at h
  split at h
  · next i _ =>
    obtain ⟨j, hj⟩ := List.mem_iff_getElem?.1 h
    rw [List.getElem?_modify] at hj
    cases hg : functions[j]? with
    | none => rw [hg] at hj; cases hj
    | some g =>
      refine ⟨g, List.mem_of_getElem? hg, ?_⟩
      rw [hg, Option.map_eq_map, Option.map_some, Option.some.injEq] at hj
      by_cases hi : i = j
      · rw [if_pos hi] at hj
        exact Or.inr hj.symm
      · rw [if_neg hi] at hj
        exact Or.inl hj.symm
  · exact ⟨f, h, Or.inl rfl⟩

/-- Promotion changes the role of the function at the promoted position and nothing else. -/
theorem getElem?_promoteConstructor (functions : List FunctionUnit) (k : Nat) :
    (promoteConstructor functions)[k]? = functions[k]?.map fun g =>
      if promotedIndex? functions = some k then { g with role := .constructor } else g := by
  unfold promoteConstructor
  cases promotedIndex? functions with
  | none => simp
  | some i =>
    dsimp only
    rw [List.getElem?_modify, Option.map_eq_map]
    simp only [Option.some.injEq]

/-- Of functions none of which is a constructor, promotion makes at most one a constructor. -/
theorem countP_promoteConstructor_le {functions : List FunctionUnit}
    (h : ∀ f ∈ functions, f.role = .function) :
    (promoteConstructor functions).countP (·.role == .constructor) ≤ 1 := by
  have hnone : ∀ fs : List FunctionUnit, (∀ f ∈ fs, f ∈ functions) →
      fs.countP (·.role == .constructor) = 0 := by
    intro fs hfs
    rw [List.countP_eq_zero]
    intro f hf
    simp [h f (hfs f hf)]
  unfold promoteConstructor
  split
  · next i _ =>
    by_cases hi : i < functions.length
    · rw [List.modify_eq_take_cons_drop hi, List.countP_append, List.countP_cons,
        hnone _ fun f hf => List.mem_of_mem_take hf, hnone _ fun f hf => List.mem_of_mem_drop hf]
      simp
    · rw [List.modify_eq_self (Nat.le_of_not_lt hi), hnone _ fun f hf => hf]
      exact Nat.zero_le 1
  · rw [hnone _ fun f hf => hf]
    exact Nat.zero_le 1

/-- A function is referenced if one at another position mentions its name. -/
theorem isReferencedAt_iff {functions : List FunctionUnit} {i : Nat} :
    isReferencedAt functions i = true ↔
      ∃ h, functions[i]? = some h ∧
        ∃ j f, functions[j]? = some f ∧ j ≠ i ∧ h.name ∈ f.qualifier := by
  unfold isReferencedAt
  cases functions[i]? with
  | none => simp
  | some h =>
    simp only [List.any_eq_true, Bool.and_eq_true, bne_iff_ne, Option.some.injEq, exists_eq_left',
      FunctionUnit.mentions, List.contains_iff_mem]
    constructor
    · rintro ⟨⟨f, j⟩, hj, hne, hmentions⟩
      exact ⟨j, f, List.mk_mem_zipIdx_iff_getElem?.1 hj, hne, hmentions⟩
    · rintro ⟨j, f, hj, hne, hmentions⟩
      exact ⟨(f, j), List.mk_mem_zipIdx_iff_getElem?.2 hj, hne, hmentions⟩

/-- A function at another position than one that mentions its name is referenced. -/
theorem isReferencedAt_of_mentions {functions : List FunctionUnit} {i j : Nat} {f h : FunctionUnit}
    (hi : functions[i]? = some h) (hj : functions[j]? = some f) (hne : j ≠ i)
    (hmentions : f.mentions h.name = true) : isReferencedAt functions i = true :=
  isReferencedAt_iff.2 ⟨h, hi, j, f, hj, hne, List.contains_iff_mem.1 hmentions⟩

/-- The last of increasing numbers is the one that none exceeds. -/
theorem getLast?_eq_some_iff_of_pairwise_lt {l : List Nat} (h : l.Pairwise (· < ·)) {k : Nat} :
    l.getLast? = some k ↔ k ∈ l ∧ ∀ j ∈ l, j ≤ k := by
  have hmax : ∀ {m}, l.getLast? = some m → m ∈ l ∧ ∀ j ∈ l, j ≤ m := fun hm => by
    obtain ⟨before, rfl⟩ := List.getLast?_eq_some_iff.1 hm
    refine ⟨List.mem_concat_self, fun j hj => ?_⟩
    rcases List.mem_append.1 hj with hj | hj
    · exact ((List.pairwise_append.1 h).2.2 j hj _ List.mem_cons_self).le
    · exact (List.mem_singleton.1 hj).le
  refine ⟨hmax, fun ⟨hk, hlast⟩ => ?_⟩
  obtain ⟨m, hm⟩ := Option.ne_none_iff_exists'.1 fun hnone =>
    List.ne_nil_of_mem hk (List.getLast?_eq_none_iff.1 hnone)
  obtain ⟨hmem, hle⟩ := hmax hm
  rw [hm, Nat.le_antisymm (hlast m hmem) (hle k hk)]

/-- The promoted function is the last one that is referenced. -/
theorem promotedIndex?_eq_some_iff {functions : List FunctionUnit} {k : Nat} :
    promotedIndex? functions = some k ↔
      isReferencedAt functions k = true ∧ ∀ j, isReferencedAt functions j = true → j ≤ k := by
  have hmem : ∀ j, j ∈ (List.range functions.length).filter (isReferencedAt functions) ↔
      isReferencedAt functions j = true := fun j => by
    rw [List.mem_filter, List.mem_range, and_iff_right_iff_imp]
    intro h
    obtain ⟨g, hg, -⟩ := isReferencedAt_iff.1 h
    exact (List.getElem?_eq_some_iff.1 hg).1
  rw [promotedIndex?, getLast?_eq_some_iff_of_pairwise_lt (List.pairwise_lt_range.filter _), hmem]
  simp only [hmem]

/-- Some function is promoted if one is referenced. -/
theorem exists_promotedIndex? {functions : List FunctionUnit} {i : Nat}
    (h : isReferencedAt functions i = true) : ∃ k, promotedIndex? functions = some k := by
  have hi : i < functions.length := by
    by_contra hout
    rw [isReferencedAt, List.getElem?_eq_none (Nat.le_of_not_lt hout)] at h
    cases h
  have hmem : i ∈ (List.range functions.length).filter (isReferencedAt functions) :=
    List.mem_filter.2 ⟨List.mem_range.2 hi, h⟩
  exact Option.ne_none_iff_exists'.1 fun hnone => List.ne_nil_of_mem hmem (List.getLast?_eq_none_iff.1 hnone)

/-- The promoted function is a constructor. -/
theorem exists_constructor_of_promotedIndex? {functions : List FunctionUnit} {k : Nat}
    (h : promotedIndex? functions = some k) :
    ∃ g ∈ promoteConstructor functions, g.role = .constructor := by
  have hk : k < functions.length :=
    List.mem_range.1 (List.mem_filter.1 (List.mem_of_getLast? h)).1
  refine ⟨{ functions[k] with role := .constructor }, ?_, rfl⟩
  rw [promoteConstructor, h]
  refine List.mem_of_getElem? (i := k) ?_
  rw [List.getElem?_modify, List.getElem?_eq_getElem hk, Option.map_eq_map, Option.map_some, if_pos rfl]

/-- If promotion leaves no constructor, then a function mentions no other by its name. -/
theorem eq_of_mentions_of_mem_promoteConstructor {functions : List FunctionUnit} {f h : FunctionUnit}
    (hnone : ∀ g ∈ promoteConstructor functions, g.role ≠ .constructor)
    (hf : f ∈ promoteConstructor functions) (hh : h ∈ promoteConstructor functions)
    (hmentions : f.mentions h.name = true) : h = f := by
  have hpromoted : promotedIndex? functions = none := by
    cases hindex : promotedIndex? functions with
    | none => rfl
    | some k =>
      obtain ⟨g, hg, hrole⟩ := exists_constructor_of_promotedIndex? hindex
      exact absurd hrole (hnone g hg)
  have hself : promoteConstructor functions = functions := by rw [promoteConstructor, hpromoted]
  rw [hself] at hf hh
  obtain ⟨i, hi⟩ := List.mem_iff_getElem?.1 hh
  obtain ⟨j, hj⟩ := List.mem_iff_getElem?.1 hf
  by_cases hne : j = i
  · rw [hne, hi] at hj
    exact Option.some.inj hj
  · obtain ⟨k, hk⟩ := exists_promotedIndex? (isReferencedAt_of_mentions hi hj hne hmentions)
    rw [hpromoted] at hk
    cases hk

/-! ## Order of diagnostics -/

/-- Whether one diagnostic stands on no later line than another. -/
def Diagnostic.NotAfter (a b : Diagnostic) : Prop := a.line ≤ b.line

instance : DecidableRel Diagnostic.NotAfter := fun a b =>
  inferInstanceAs (Decidable (a.line ≤ b.line))

instance : Std.Total Diagnostic.NotAfter where
  total a b := Nat.le_total a.line b.line

instance : IsTrans Diagnostic Diagnostic.NotAfter where
  trans _ _ _ hab hbc := Nat.le_trans hab hbc

/-- Putting a diagnostic before the first one that is not on an earlier line is an ordered insertion. -/
theorem insertByLine_eq (d : Diagnostic) (ds : List Diagnostic) :
    insertByLine d ds = ds.orderedInsert Diagnostic.NotAfter d := by
  induction ds with
  | nil => rfl
  | cons e es ih =>
    rw [insertByLine, ih, List.orderedInsert_cons]
    rfl

/-- Sorting by line is insertion sort. -/
theorem sortByLine_eq (ds : List Diagnostic) :
    sortByLine ds = ds.insertionSort Diagnostic.NotAfter := by
  induction ds with
  | nil => rfl
  | cons d ds ih =>
    rw [List.insertionSort_cons, ← ih, ← insertByLine_eq]
    rfl

/-- Sorting loses no diagnostic and repeats none. -/
theorem perm_sortByLine (ds : List Diagnostic) : (sortByLine ds).Perm ds := by
  rw [sortByLine_eq]
  exact List.perm_insertionSort Diagnostic.NotAfter ds

/-- Sorted diagnostics never go back to an earlier line. -/
theorem pairwise_sortByLine (ds : List Diagnostic) :
    (sortByLine ds).Pairwise Diagnostic.NotAfter := by
  rw [sortByLine_eq]
  exact List.pairwise_insertionSort Diagnostic.NotAfter ds

/-! ## Published units and their calls -/

namespace Findings

/-- A call of a unit that a module publishes: of a method of a class on the surface, whether the method
is a constructor or not, or of a function that the surface publishes. -/
inductive PublishedCall (f : Findings) (site : CallChain) : Prop where
  /-- A call in a method of a published class. -/
  | ofMethod (c : Reading ClassUnit) (m : Method) (hc : c ∈ f.classes)
      (hname : c.unit.name ∈ f.surface.names) (hm : m ∈ c.unit.methods) (hsite : site ∈ m.calls)
  /-- A call in a published function. -/
  | ofFunction (g : Reading FunctionUnit) (hg : g ∈ f.functions)
      (hname : f.surface.publishes g.unit = true) (hsite : site ∈ g.unit.calls)

/-- Whether a published unit calls through a name. -/
def CallsThrough (f : Findings) (name : String) : Prop :=
  ∃ site, f.PublishedCall site ∧ site.through? = some name

/-- A class is in the model if it was read and its name is published. -/
theorem mem_publishedClasses {f : Findings} {c : ClassUnit} :
    c ∈ f.publishedClasses ↔ ∃ r ∈ f.classes, r.unit.name ∈ f.surface.names ∧ r.unit = c := by
  rw [publishedClasses, mem_keptUnits]
  simp only [keepsClass, Surface.contains_eq_true]

/-- A function of the model is one that was read and is published, if need be with its role changed. -/
theorem exists_of_mem_publishedFunctions {f : Findings} {g : FunctionUnit}
    (h : g ∈ f.publishedFunctions) :
    ∃ r ∈ f.functions, f.surface.publishes r.unit = true ∧
      (g = r.unit ∨ g = { r.unit with role := .constructor }) := by
  have hkept : ∃ u ∈ keptUnits f.surface.publishes f.functions,
      g = u ∨ g = { u with role := .constructor } := by
    unfold publishedFunctions at h
    dsimp only at h
    split at h
    · exact mem_promoteConstructor h
    · exact ⟨g, h, Or.inl rfl⟩
  obtain ⟨u, hu, hg⟩ := hkept
  obtain ⟨r, hr, hpublished, rfl⟩ := mem_keptUnits.1 hu
  exact ⟨r, hr, hpublished, hg⟩

/-- What does not look at roles is the same for the functions of the model and the kept functions. -/
theorem map_publishedFunctions {β : Type} (g : FunctionUnit → β)
    (hg : ∀ u : FunctionUnit, g { u with role := .constructor } = g u) (f : Findings) :
    f.publishedFunctions.map g = (keptUnits f.surface.publishes f.functions).map g := by
  unfold publishedFunctions
  dsimp only
  split
  · exact map_promoteConstructor g hg _
  · rfl

/-- The calls gathered for the model are those of the published units. -/
theorem mem_publishedCalls {f : Findings} {site : CallChain} :
    site ∈ f.publishedCalls ↔ f.PublishedCall site := by
  have hfunctions : f.publishedFunctions.flatMap (·.calls) =
      (keptUnits f.surface.publishes f.functions).flatMap (·.calls) := by
    rw [List.flatMap_def, List.flatMap_def, map_publishedFunctions (·.calls) fun _ => rfl]
  rw [publishedCalls, hfunctions, List.mem_append, List.mem_flatMap, List.mem_flatMap]
  constructor
  · rintro (⟨c, hc, hsite⟩ | ⟨g, hg, hsite⟩)
    · obtain ⟨r, hr, hname, rfl⟩ := mem_publishedClasses.1 hc
      obtain ⟨m, hm, hcall⟩ := List.mem_flatMap.1 hsite
      exact .ofMethod r m hr hname hm hcall
    · obtain ⟨r, hr, hname, rfl⟩ := mem_keptUnits.1 hg
      exact .ofFunction r hr hname hsite
  · rintro (⟨c, m, hc, hname, hm, hsite⟩ | ⟨g, hg, hname, hsite⟩)
    · exact Or.inl ⟨c.unit, mem_publishedClasses.2 ⟨c, hc, hname, rfl⟩,
        List.mem_flatMap.2 ⟨m, hm, hsite⟩⟩
    · exact Or.inr ⟨g.unit, mem_keptUnits.2 ⟨g, hg, hname, rfl⟩, hsite⟩

/-- The model has usage of a name if the name comes from another module and a published unit calls
through it. -/
theorem mem_names_usages {f : Findings} {name : String} :
    name ∈ f.toModel.usages.map (·.name) ↔
      isForeign f.imports f.requires name = true ∧ f.CallsThrough name := by
  have hcalls : f.CallsThrough name ↔
      name ∈ (usageOfCalls f.publishedCalls).map (·.name) := by
    rw [mem_names_usageOfCalls]
    simp only [CallsThrough, mem_publishedCalls]
  rw [hcalls]
  simp only [toModel, foreignUsage, List.mem_map, List.mem_filter]
  constructor
  · rintro ⟨u, ⟨hu, hforeign⟩, rfl⟩
    exact ⟨hforeign, u, hu, rfl⟩
  · rintro ⟨hforeign, u, hu, rfl⟩
    exact ⟨u, ⟨hu, hforeign⟩, rfl⟩

end Findings

end TestScaffold
