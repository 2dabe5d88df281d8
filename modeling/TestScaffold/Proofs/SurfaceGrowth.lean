import Mathlib.Data.List.Flatten
import TestScaffold.Proofs.Insertion
import TestScaffold.Proofs.Selection

set_option autoImplicit false

/-!
# Publishing more keeps what is published

A module that publishes more names has a model with more in it: nothing that was published is lost, and what is
kept stays in its order. The one thing that may change is which function is a constructor, for this depends on
all functions that are published.

## Main definitions

* `TestScaffold.Findings.PublishesMore` — findings with more names published.
* `TestScaffold.FunctionUnit.unmarked` — a function without regard to its role.
* `TestScaffold.Model.ContainedIn` — a model has all that another has.

## Main results

* `TestScaffold.sortByLine_sublist` — sorting by line keeps sublists.
* `TestScaffold.usageOfCalls_subset` — more calls through a name have more paths.
* `TestScaffold.containedIn_of_publishesMore` — the model grows with the names that are published.
-/

namespace TestScaffold

/-! ## Lists with more in them -/

/-- A list is a sublist of itself with entries put in. -/
theorem Inserted.sublist {α : Type} {P : α → Prop} {xs ys : List α} (h : Inserted P xs ys) :
    xs.Sublist ys := by
  induction h with
  | nil => exact .slnil
  | keep _ ih => exact .cons_cons _ ih
  | insert _ _ ih => exact .cons _ ih

/-- Sorting by line keeps sublists: a diagnostic is put in at the same place among more of them. -/
theorem sortByLine_sublist {ds ds' : List Diagnostic} (h : ds.Sublist ds') :
    (sortByLine ds).Sublist (sortByLine ds') := by
  simp only [sortByLine_eq]
  induction h with
  | slnil => exact .slnil
  | cons d _ ih => exact ih.trans (List.sublist_orderedInsert d _)
  | cons_cons d _ ih => exact ih.orderedInsert_sublist d (List.pairwise_insertionSort _ _)

section Kept

variable {α : Type} {keep keep' : α → Bool} (h : ∀ unit, keep unit = true → keep' unit = true)
  (readings : List (Reading α))
include h

/-- More readings are kept by a weaker test. -/
theorem keptReadings_sublist : (keptReadings keep readings).Sublist (keptReadings keep' readings) :=
  List.monotone_filter_right readings fun r => h r.unit

/-- More units are kept by a weaker test. -/
theorem keptUnits_sublist : (keptUnits keep readings).Sublist (keptUnits keep' readings) :=
  (keptReadings_sublist h readings).map _

/-- More diagnostics are kept by a weaker test. -/
theorem keptDiagnostics_sublist :
    (keptDiagnostics keep readings).Sublist (keptDiagnostics keep' readings) :=
  (keptReadings_sublist h readings).flatMap _

end Kept

/-! ## More calls -/

/-- Of more paths more are left when each is kept once. -/
theorem distinctPaths_subset {paths paths' : List (List String)} (h : paths ⊆ paths') :
    distinctPaths paths ⊆ distinctPaths paths' := by
  intro path hpath
  obtain ⟨hin, hne⟩ := List.mem_filter.1 (List.mem_eraseDups.1 hpath)
  exact List.mem_eraseDups.2 (List.mem_filter.2 ⟨h hin, hne⟩)

/-- **More calls through a name have more paths**: every name that has usage keeps it, with all paths. -/
theorem usageOfCalls_subset {sites sites' : List CallChain} (h : sites ⊆ sites') {u : Usage}
    (hu : u ∈ usageOfCalls sites) : ∃ u' ∈ usageOfCalls sites', u'.name = u.name ∧ u.paths ⊆ u'.paths := by
  rw [usageOfCalls_eq, List.mem_map] at hu
  obtain ⟨name, hname, rfl⟩ := hu
  obtain ⟨site, hsite, hthrough⟩ := mem_callTargets.1 hname
  refine ⟨usageThrough sites' name, ?_, rfl, distinctPaths_subset (List.map_subset _ ?_)⟩
  · rw [usageOfCalls_eq]
    exact List.mem_map_of_mem (mem_callTargets.2 ⟨site, h hsite, hthrough⟩)
  · exact List.filter_subset _ h

/-! ## The model of a larger surface -/

/-- The function, whether it is a constructor or not. -/
def FunctionUnit.unmarked (f : FunctionUnit) : FunctionUnit := { f with role := .function }

/-- `m.ContainedIn m'`: nothing of the model `m` is lost in `m'`, and what is kept stays in its order. Whether
a function is a constructor may change. -/
structure Model.ContainedIn (m m' : Model) : Prop where
  /-- No class is lost. -/
  classes : m.classes.Sublist m'.classes
  /-- No function is lost. -/
  functions : (m.functions.map FunctionUnit.unmarked).Sublist (m'.functions.map FunctionUnit.unmarked)
  /-- No diagnostic is lost. -/
  diagnostics : m.diagnostics.Sublist m'.diagnostics
  /-- No name loses its usage, and no path called through a name is lost. -/
  usages : ∀ u ∈ m.usages, ∃ u' ∈ m'.usages, u'.name = u.name ∧ u.paths ⊆ u'.paths

namespace Findings

/-- The findings `g` are the findings `f` with more names published: through the slot, or by `export` statements
that pass nothing on. -/
structure PublishesMore (f g : Findings) : Prop where
  /-- The module keeps its name. -/
  specifier : g.specifier = f.specifier
  /-- The imports are the same. -/
  imports : g.imports = f.imports
  /-- The requires are the same. -/
  requires : g.requires = f.requires
  /-- The classes are the same. -/
  classes : g.classes = f.classes
  /-- The functions are the same. -/
  functions : g.functions = f.functions
  /-- The diagnostics outside of units are the same. -/
  diagnostics : g.diagnostics = f.diagnostics
  /-- More names are published through the slot. -/
  slotExports : Inserted (fun _ => True) f.slotExports g.slotExports
  /-- More names are published by `export` statements. -/
  exports : Inserted (fun e => e.isPassedOn = false) f.exports g.exports

namespace PublishesMore

variable {f g : Findings}

/-- All published names stay published. -/
theorem surface_subset (h : f.PublishesMore g) : f.surface.names ⊆ g.surface.names := by
  have hslot := h.slotExports.sublist.map (·.localName)
  have hown := (h.exports.sublist.filter fun e => !e.isPassedOn).map (·.localName)
  exact (hslot.append hown).subset

/-- All published classes stay published. -/
theorem keepsClass_of (h : f.PublishesMore g) {c : ClassUnit} (hc : f.keepsClass c = true) :
    g.keepsClass c = true :=
  Surface.contains_eq_true.2 (h.surface_subset (Surface.contains_eq_true.1 hc))

/-- All published functions stay published. -/
theorem publishes_of (h : f.PublishesMore g) {u : FunctionUnit} (hu : f.surface.publishes u = true) :
    g.surface.publishes u = true := by
  rw [Surface.publishes_eq_true] at hu ⊢
  exact hu.imp (h.surface_subset ·) fun ⟨segment, hin, hname⟩ => ⟨segment, hin, h.surface_subset hname⟩

/-- No published class is lost. -/
theorem publishedClasses_sublist (h : f.PublishesMore g) :
    f.publishedClasses.Sublist g.publishedClasses := by
  rw [publishedClasses, publishedClasses, h.classes]
  exact keptUnits_sublist (fun _ => h.keepsClass_of) f.classes

/-- What does not look at roles is lost of no published function. -/
theorem map_publishedFunctions_sublist {β : Type} (h : f.PublishesMore g) (value : FunctionUnit → β)
    (hvalue : ∀ u : FunctionUnit, value { u with role := .constructor } = value u) :
    (f.publishedFunctions.map value).Sublist (g.publishedFunctions.map value) := by
  rw [map_publishedFunctions value hvalue, map_publishedFunctions value hvalue, h.functions]
  exact (keptUnits_sublist (fun _ => h.publishes_of) f.functions).map value

/-- No call of a published unit is lost. -/
theorem publishedCalls_sublist (h : f.PublishesMore g) : f.publishedCalls.Sublist g.publishedCalls := by
  have hcalls := (h.map_publishedFunctions_sublist (·.calls) fun _ => rfl).flatten
  rw [← List.flatMap_def, ← List.flatMap_def] at hcalls
  exact (h.publishedClasses_sublist.flatMap _).append hcalls

/-- No diagnostic is lost. -/
theorem publishedDiagnostics_sublist (h : f.PublishesMore g) :
    f.publishedDiagnostics.Sublist g.publishedDiagnostics := by
  rw [publishedDiagnostics, publishedDiagnostics, h.classes, h.functions, h.diagnostics]
  exact ((List.Sublist.refl _).append (keptDiagnostics_sublist (fun _ => h.keepsClass_of) f.classes)).append
    (keptDiagnostics_sublist (fun _ => h.publishes_of) f.functions)

/-- No usage of a name from another module is lost. -/
theorem usages_subset (h : f.PublishesMore g) {u : Usage} (hu : u ∈ f.toModel.usages) :
    ∃ u' ∈ g.toModel.usages, u'.name = u.name ∧ u.paths ⊆ u'.paths := by
  obtain ⟨hin, hforeign⟩ := List.mem_filter.1 hu
  obtain ⟨u', hin', hname, hpaths⟩ := usageOfCalls_subset h.publishedCalls_sublist.subset hin
  refine ⟨u', List.mem_filter.2 ⟨hin', ?_⟩, hname, hpaths⟩
  rw [h.imports, h.requires, hname]
  exact hforeign

end PublishesMore

end Findings

/-- **Publishing more loses nothing.** When a module publishes more names, wherever they are put in among the
others, its model has all classes, functions and diagnostics that it had, in the same order, and every name from
another module that had usage has it still, with at least the same paths. Only the role of a function may be
another one.

**Proof sketch.** The surface grows, so each filter lets more through. Sorting by line keeps sublists, since each
diagnostic is put into a sorted list that has the other as a sublist. The usage of a name is computed from the
calls through this name, of which none is lost. -/
theorem containedIn_of_publishesMore {f g : Findings} (h : f.PublishesMore g) :
    f.toModel.ContainedIn g.toModel where
  classes := h.publishedClasses_sublist
  functions := h.map_publishedFunctions_sublist FunctionUnit.unmarked fun _ => rfl
  diagnostics := sortByLine_sublist h.publishedDiagnostics_sublist
  usages := fun _ => h.usages_subset

/-- The findings of a module with two functions that others are attached to; it publishes the first. -/
def twoOwnersFindings : Findings where
  specifier := "my-module.js"
  imports := [⟨.member, [.member "lib" "lib"], "lib", false⟩]
  requires := []
  slotExports := []
  exports := [⟨.named, "A", "A", none⟩]
  classes := []
  functions := [attachedFunction "A" [], attachedFunction "run" ["A"], attachedFunction "B" [],
    attachedFunction "stop" ["B"]]
  diagnostics := [⟨.unpackedParameter, 2⟩]

/-- The same findings with the second of these functions published through the slot. -/
def bothOwnersFindings : Findings :=
  { twoOwnersFindings with slotExports := [⟨"B", "B", .property⟩] }

/-- When the second function is published too, nothing is lost; but it is now the constructor, and the first
one no longer is. -/
theorem containedIn_of_publishesMore_owners :
    twoOwnersFindings.PublishesMore bothOwnersFindings ∧
      twoOwnersFindings.toModel.ContainedIn bothOwnersFindings.toModel ∧
      twoOwnersFindings.toModel.functions.map (·.role) = [.constructor, .function] ∧
      bothOwnersFindings.toModel.functions.map (·.role) =
        [.function, .function, .constructor, .function] := by
  have h : twoOwnersFindings.PublishesMore bothOwnersFindings :=
    ⟨rfl, rfl, rfl, rfl, rfl, rfl, .insert trivial .nil, .refl _⟩
  exact ⟨h, containedIn_of_publishesMore h, by decide, by decide⟩

end TestScaffold
