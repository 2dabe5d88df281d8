import TestScaffold.Selection.Model

set_option autoImplicit false

/-!
# Private units leave no trace

Two modules that differ in their private units only have the same model, wherever these units stand and
whatever they call; and what a module passes on from elsewhere shows nowhere but among its exports.

## Main definitions

* `TestScaffold.Inserted` — a list with some entries put in at any places.
* `TestScaffold.Findings.ExtendedPrivately` — findings with private units and passed on names put in.

## Main results

* `TestScaffold.Inserted.filter_eq` — entries that a filter leaves out may be put in before filtering.
* `TestScaffold.Findings.ExtendedPrivately.toModel_eq` — the model of privately extended findings.
* `TestScaffold.toModel_insert_private` — the same for private units and for passed on names alone.

## Implementation notes

That the surface is the same for both modules is what everything rests on: private units do not belong to
it, and a name that is passed on is no name inside the module. The passes after the surface see nothing but
the kept readings.
-/

namespace TestScaffold

/-! ## Lists with entries put in -/

/-- `Inserted P xs ys`: the list `ys` is `xs` with entries that satisfy `P` put in at any places. -/
inductive Inserted {α : Type} (P : α → Prop) : List α → List α → Prop
  | /-- Nothing is left, and nothing is put in. -/
    nil : Inserted P [] []
  | /-- The next entry is one of the list. -/
    keep {x : α} {xs ys : List α} (h : Inserted P xs ys) : Inserted P (x :: xs) (x :: ys)
  | /-- The next entry is put in. -/
    insert {x : α} {xs ys : List α} (hx : P x) (h : Inserted P xs ys) : Inserted P xs (x :: ys)

namespace Inserted

variable {α : Type} {P : α → Prop} {xs ys : List α}

/-- A list is itself with nothing put in. -/
theorem refl (xs : List α) : Inserted P xs xs := by
  induction xs with
  | nil => exact .nil
  | cons x xs ih => exact .keep ih

/-- Entries that a filter leaves out may be put in before filtering. -/
theorem filter_eq {p : α → Bool} (h : Inserted P xs ys) (hP : ∀ x, P x → p x = false) :
    ys.filter p = xs.filter p := by
  induction h with
  | nil => rfl
  | keep _ ih => rw [List.filter_cons, List.filter_cons, ih]
  | insert hx _ ih => rw [List.filter_cons_of_neg (by simp [hP _ hx]), ih]

end Inserted

/-! ## Extended findings -/

namespace Findings

/-- The findings `f'` are the findings `f` with more in them that is private: classes that are not on the
surface, functions that the surface does not publish, and names that are passed on. -/
structure ExtendedPrivately (f f' : Findings) : Prop where
  /-- The module keeps its name. -/
  specifier : f'.specifier = f.specifier
  /-- The imports are the same. -/
  imports : f'.imports = f.imports
  /-- The requires are the same. -/
  requires : f'.requires = f.requires
  /-- The exports through the slot are the same. -/
  slotExports : f'.slotExports = f.slotExports
  /-- The diagnostics outside of units are the same. -/
  diagnostics : f'.diagnostics = f.diagnostics
  /-- More classes are private. -/
  classes : Inserted (fun c => c.unit.name ∉ f.surface.names) f.classes f'.classes
  /-- More functions are private. -/
  functions : Inserted (fun g => f.surface.publishes g.unit = false) f.functions f'.functions
  /-- More exports are passed on. -/
  exports : Inserted (fun e => e.isPassedOn = true) f.exports f'.exports

namespace ExtendedPrivately

variable {f f' : Findings}

/-- Nothing private shows on the surface. -/
theorem surface_eq (h : f.ExtendedPrivately f') : f'.surface = f.surface := by
  have hown : f'.exports.filter (fun e => !e.isPassedOn) = f.exports.filter fun e => !e.isPassedOn :=
    h.exports.filter_eq fun e he => by rw [he]; rfl
  rw [surface, surface, Surface.ofExports, Surface.ofExports, h.slotExports, hown]

/-- The same classes are kept. -/
theorem keptReadings_classes_eq (h : f.ExtendedPrivately f') :
    keptReadings f'.keepsClass f'.classes = keptReadings f.keepsClass f.classes := by
  have hkeeps : f'.keepsClass = f.keepsClass := by
    funext c
    rw [keepsClass, keepsClass, h.surface_eq]
  rw [hkeeps]
  apply h.classes.filter_eq
  intro c hc
  rw [← Bool.not_eq_true, keepsClass, Surface.contains_eq_true]
  exact hc

/-- The same functions are kept. -/
theorem keptReadings_functions_eq (h : f.ExtendedPrivately f') :
    keptReadings f'.surface.publishes f'.functions = keptReadings f.surface.publishes f.functions := by
  rw [h.surface_eq]
  exact h.functions.filter_eq fun g hg => hg

/-- The same classes are published. -/
theorem publishedClasses_eq (h : f.ExtendedPrivately f') : f'.publishedClasses = f.publishedClasses := by
  rw [publishedClasses, publishedClasses, keptUnits, keptUnits, h.keptReadings_classes_eq]

/-- The same functions are published, and the same one is promoted. -/
theorem publishedFunctions_eq (h : f.ExtendedPrivately f') :
    f'.publishedFunctions = f.publishedFunctions := by
  rw [publishedFunctions, publishedFunctions, keptUnits, keptUnits, h.publishedClasses_eq,
    h.keptReadings_functions_eq]

/-- The same calls are gathered. -/
theorem publishedCalls_eq (h : f.ExtendedPrivately f') : f'.publishedCalls = f.publishedCalls := by
  rw [publishedCalls, publishedCalls, h.publishedClasses_eq, h.publishedFunctions_eq]

/-- The same diagnostics are of interest. -/
theorem publishedDiagnostics_eq (h : f.ExtendedPrivately f') :
    f'.publishedDiagnostics = f.publishedDiagnostics := by
  rw [publishedDiagnostics, publishedDiagnostics, keptDiagnostics, keptDiagnostics, keptDiagnostics,
    keptDiagnostics, h.diagnostics, h.keptReadings_classes_eq, h.keptReadings_functions_eq]

/-- **What is private leaves no trace**: the model of privately extended findings is that of the findings,
but for the passed on names among its exports. -/
theorem toModel_eq (h : f.ExtendedPrivately f') :
    f'.toModel = { f.toModel with exports := f'.exports } := by
  unfold toModel
  rw [h.specifier, h.imports, h.requires, h.slotExports, h.publishedClasses_eq, h.publishedFunctions_eq,
    h.publishedCalls_eq, h.publishedDiagnostics_eq]

end ExtendedPrivately

end Findings

/-! ## Units and names alone -/

/-- **Private code never leaks**: the model stays as it is when private classes and private functions are
put in anywhere, and when names are passed on nothing of it changes but the list of exports. -/
theorem toModel_insert_private (f : Findings) :
    (∀ classes functions, Inserted (fun c => c.unit.name ∉ f.surface.names) f.classes classes →
      Inserted (fun g => f.surface.publishes g.unit = false) f.functions functions →
      Findings.toModel { f with classes, functions } = f.toModel) ∧
    (∀ exports, Inserted (fun e => e.isPassedOn = true) f.exports exports →
      Findings.toModel { f with exports } = { f.toModel with exports }) := by
  refine ⟨fun classes functions hclasses hfunctions => ?_, fun exports hexports => ?_⟩
  · have h : f.ExtendedPrivately { f with classes, functions } :=
      ⟨rfl, rfl, rfl, rfl, rfl, hclasses, hfunctions, .refl _⟩
    exact h.toModel_eq
  · have h : f.ExtendedPrivately { f with exports } :=
      ⟨rfl, rfl, rfl, rfl, rfl, .refl _, .refl _, hexports⟩
    exact h.toModel_eq

/-- A function named `name` that is attached to `qualifier` and calls through the import `lib`. -/
def attachedFunction (name : String) (qualifier : List String) : Reading FunctionUnit where
  unit :=
    { name, qualifier
      role := .function
      parameters := []
      locals := []
      calls := [⟨["lib", name]⟩]
      returns := false
      ownerIndex := none }
  diagnostics := [⟨.unpackedParameter, 1⟩]

/-- The findings of a module that publishes `run`, which is attached to `Owner`. -/
def attachedFindings : Findings where
  specifier := "my-module.js"
  imports := [⟨.member, [.member "lib" "lib"], "lib", false⟩]
  requires := []
  slotExports := []
  exports := [⟨.named, "run", "run", none⟩]
  classes := []
  functions := [attachedFunction "run" ["Owner"]]
  diagnostics := []

/-- A private `Owner`, be it a class in front or a function to be promoted, does not change the model of a
module that publishes what is attached to it; nor does passing on an `Owner` of another module. -/
theorem toModel_insert_private_owner :
    Findings.toModel
        { attachedFindings with
          classes := [⟨⟨"Owner", [], [.emptyConstructor]⟩, [⟨.unpackedParameter, 1⟩]⟩]
          functions := [attachedFunction "Owner" [], attachedFunction "run" ["Owner"]] } =
      attachedFindings.toModel ∧
    Findings.toModel
        { attachedFindings with
          exports := [⟨.named, "Owner", "Owner", some "lib"⟩, ⟨.named, "run", "run", none⟩] } =
      { attachedFindings.toModel with
        exports := [⟨.named, "Owner", "Owner", some "lib"⟩, ⟨.named, "run", "run", none⟩] } := by
  refine ⟨(toModel_insert_private attachedFindings).1 _ _ ?_ ?_,
    (toModel_insert_private attachedFindings).2 _ ?_⟩
  · exact .insert (by decide) .nil
  · exact .insert (by decide) (.keep .nil)
  · exact .insert (by decide) (.keep .nil)

end TestScaffold
