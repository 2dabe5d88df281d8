import TestScaffold.Proofs.FileExtensions
import TestScaffold.Proofs.SurfaceGrowth
import TestScaffold.Scaffold.Sections

set_option autoImplicit false

/-!
# What is reported

The diagnostics raised while a unit is read stay with it until it is known whether the unit is published. Then
those of all retained units are put behind those of the module and sorted by line, and a scaffold begins with a
comment on each of them. Sorting is stable, so the report is determined by what is retained alone.

## Main definitions

* `TestScaffold.Findings.retainedClasses`, `TestScaffold.Findings.retainedFunctions` — the readings whose units
  the model has.
* `TestScaffold.Findings.Reports` — a list of diagnostics reports on what is retained.
* `TestScaffold.reportComment` — the comment on a diagnostic.

## Main results

* `TestScaffold.filter_sortByLine` — sorting by line keeps the order of the diagnostics of one line.
* `TestScaffold.eq_of_filter_line_eq` — sorted diagnostics are determined by those of each line.
* `TestScaffold.scaffold?_eq_report` — diagnostics change nothing of a scaffold but the comments in front.
* `TestScaffold.exists_report_of_readModel` — the scaffold of a module that is read begins with its report.
* `TestScaffold.diagnostics_reported` — the diagnostics of a model are the one report on what is retained, and
  its scaffold begins with one comment on each of them.
-/

namespace TestScaffold

/-! ## Stable sorting -/

/-- **Sorting by line is stable**: the diagnostics of one line stay in their order.

**Proof sketch.** The diagnostics of one line are sorted as they stand, so they are still a sublist after
sorting. There are no others of this line, because sorting adds none. -/
theorem filter_sortByLine (ds : List Diagnostic) (line : Nat) :
    (sortByLine ds).filter (·.line == line) = ds.filter (·.line == line) := by
  have hline : ∀ d ∈ ds.filter (·.line == line), d.line = line := fun d hd =>
    eq_of_beq (List.mem_filter.1 hd).2
  have hsorted : (ds.filter (·.line == line)).Pairwise Diagnostic.NotAfter :=
    List.pairwise_of_forall_mem_list fun d hd e he => (hline d hd).le.trans (hline e he).ge
  have hsublist : (ds.filter (·.line == line)).Sublist (sortByLine ds) := by
    rw [sortByLine_eq]
    exact List.sublist_insertionSort hsorted List.filter_sublist
  have hstays : (ds.filter (·.line == line)).Sublist ((sortByLine ds).filter (·.line == line)) := by
    have h := hsublist.filter (·.line == line)
    rwa [List.filter_eq_self.2 fun d hd => (List.mem_filter.1 hd).2] at h
  have hlength := ((perm_sortByLine ds).filter (·.line == line)).length_eq
  exact (hstays.eq_of_length hlength.symm).symm

/-- Of diagnostics that agree on each line, each one stands in both lists. -/
theorem mem_of_filter_line_eq {ds es : List Diagnostic}
    (h : ∀ line, ds.filter (·.line == line) = es.filter (·.line == line)) {d : Diagnostic} (hd : d ∈ ds) :
    d ∈ es := by
  have hown : d ∈ ds.filter (·.line == d.line) := List.mem_filter.2 ⟨hd, beq_self_eq_true d.line⟩
  rw [h] at hown
  exact (List.mem_filter.1 hown).1

/-- The first one of sorted diagnostics is on no later line than any of them. -/
theorem line_le_of_mem {d e : Diagnostic} {ds : List Diagnostic}
    (h : (d :: ds).Pairwise Diagnostic.NotAfter) (he : e ∈ d :: ds) : d.line ≤ e.line := by
  rcases List.mem_cons.1 he with rfl | he
  · exact le_rfl
  · exact (List.pairwise_cons.1 h).1 e he

/-- **Sorted diagnostics are determined by those of each line.**

**Proof sketch.** Induction on one of the lists. Each of the two first diagnostics stands in the other list as
well, so neither is on a later line than the other. Then both come first among those of their line, so they are
the same. -/
theorem eq_of_filter_line_eq {ds es : List Diagnostic} (hds : ds.Pairwise Diagnostic.NotAfter)
    (hes : es.Pairwise Diagnostic.NotAfter)
    (h : ∀ line, ds.filter (·.line == line) = es.filter (·.line == line)) : ds = es := by
  induction ds generalizing es with
  | nil =>
    refine (List.eq_nil_iff_forall_not_mem.2 fun e he => ?_).symm
    exact List.not_mem_nil (mem_of_filter_line_eq (fun line => (h line).symm) he)
  | cons d ds ih =>
    cases es with
    | nil => exact absurd (mem_of_filter_line_eq h List.mem_cons_self) List.not_mem_nil
    | cons e es =>
      have hd : d ∈ e :: es := mem_of_filter_line_eq h List.mem_cons_self
      have he : e ∈ d :: ds := mem_of_filter_line_eq (fun line => (h line).symm) List.mem_cons_self
      have hline : e.line = d.line := Nat.le_antisymm (line_le_of_mem hes hd) (line_le_of_mem hds he)
      simp only [List.filter_cons, hline] at h
      have hfirst : d = e := by
        have hown := h d.line
        rw [if_pos (beq_self_eq_true d.line), if_pos (beq_self_eq_true d.line)] at hown
        exact List.head_eq_of_cons_eq hown
      have hrest : ds = es := by
        refine ih (List.pairwise_cons.1 hds).2 (List.pairwise_cons.1 hes).2 fun line => ?_
        -- the first diagnostic is left out of both lists, whether it stands on this line or not
        have hboth := h line
        split at hboth
        · exact List.tail_eq_of_cons_eq hboth
        · exact hboth
      rw [hfirst, hrest]

/-! ## What is retained -/

namespace Findings

/-- The classes whose name is on the surface, as they were read. -/
def retainedClasses (f : Findings) : List (Reading ClassUnit) :=
  f.classes.filter fun r => r.unit.name ∈ f.surface.names

/-- The functions whose name, or a segment of whose qualifier, is on the surface, as they were read. -/
def retainedFunctions (f : Findings) : List (Reading FunctionUnit) :=
  f.functions.filter fun r =>
    r.unit.name ∈ f.surface.names ∨ ∃ segment ∈ r.unit.qualifier, segment ∈ f.surface.names

/-- The diagnostics `ds` report on what is retained of the findings `f`. -/
structure Reports (f : Findings) (ds : List Diagnostic) : Prop where
  /-- Every diagnostic of the module, of a retained class or of a retained function is reported, as often as it
  was raised, and no other one is. -/
  perm : ds.Perm (f.diagnostics ++ f.retainedClasses.flatMap (·.diagnostics) ++
    f.retainedFunctions.flatMap (·.diagnostics))
  /-- No diagnostic is reported after one of a later line. -/
  sorted : ds.Pairwise fun d e => d.line ≤ e.line
  /-- Of each line, the diagnostics of the module come first, then those of the classes and those of the
  functions, in the order in which they were raised. -/
  stable : ∀ line, ds.filter (·.line == line) =
    f.diagnostics.filter (·.line == line) ++
      f.retainedClasses.flatMap (fun r => r.diagnostics.filter (·.line == line)) ++
      f.retainedFunctions.flatMap (fun r => r.diagnostics.filter (·.line == line))

variable {f : Findings}

/-- The retained classes are the kept ones. -/
theorem keptReadings_classes : keptReadings f.keepsClass f.classes = f.retainedClasses := by
  refine List.filter_congr fun r _ => ?_
  rw [Bool.eq_iff_iff, keepsClass, Surface.contains_eq_true, decide_eq_true_iff]

/-- The retained functions are the kept ones. -/
theorem keptReadings_functions : keptReadings f.surface.publishes f.functions = f.retainedFunctions := by
  refine List.filter_congr fun r _ => ?_
  rw [Bool.eq_iff_iff, Surface.publishes_eq_true, decide_eq_true_iff]

/-- The model has the retained classes. -/
theorem map_unit_retainedClasses : f.retainedClasses.map (·.unit) = f.toModel.classes := by
  rw [← keptReadings_classes]
  rfl

/-- The model has the retained functions, of which one may have become a constructor. -/
theorem map_unmarked_retainedFunctions :
    f.retainedFunctions.map (·.unit.unmarked) = f.toModel.functions.map (·.unmarked) := by
  have hkept := map_publishedFunctions FunctionUnit.unmarked (fun _ => rfl) f
  rw [keptUnits, keptReadings_functions, List.map_map] at hkept
  exact hkept.symm

/-- The diagnostics that are to be reported, before they are sorted. -/
theorem publishedDiagnostics_eq_retained : f.publishedDiagnostics =
    f.diagnostics ++ f.retainedClasses.flatMap (·.diagnostics) ++
      f.retainedFunctions.flatMap (·.diagnostics) := by
  rw [publishedDiagnostics, keptDiagnostics, keptDiagnostics, keptReadings_classes, keptReadings_functions]

/-- The diagnostics of a model report on what is retained. -/
theorem reports_toModel (f : Findings) : f.Reports f.toModel.diagnostics where
  perm := publishedDiagnostics_eq_retained ▸ perm_sortByLine f.publishedDiagnostics
  sorted := pairwise_sortByLine f.publishedDiagnostics
  stable line := by
    have h := filter_sortByLine f.publishedDiagnostics line
    rwa [publishedDiagnostics_eq_retained, List.filter_append, List.filter_append, List.filter_flatMap,
      List.filter_flatMap, ← publishedDiagnostics_eq_retained] at h

/-- **There is one report** on what is retained, and the model has it. -/
theorem reports_iff {ds : List Diagnostic} : f.Reports ds ↔ ds = f.toModel.diagnostics := by
  constructor
  · intro h
    refine eq_of_filter_line_eq h.sorted (reports_toModel f).sorted fun line => ?_
    rw [h.stable, (reports_toModel f).stable]
  · rintro rfl
    exact reports_toModel f

end Findings

/-! ## The comments of a scaffold -/

/-- The comment on a diagnostic. -/
def reportComment (d : Diagnostic) : Statement := .line ("// unsupported: " ++ d.text)

/-- **Diagnostics change nothing of a scaffold but the comments in front**, one for each, which a blank line
follows if there are any.

**Proof sketch.** Only the first section is written from the diagnostics, and without diagnostics it is empty. -/
theorem scaffold?_eq_report (framework : Framework) (m : Model) :
    scaffold? framework m = (scaffold? framework { m with diagnostics := [] }).map fun rest =>
      ⟨m.diagnostics.map reportComment ++ (if m.diagnostics = [] then [] else [.blank]) ++
        rest.statements⟩ := by
  have hreport : Statement.spaced (reportSection m) =
      m.diagnostics.map reportComment ++ if m.diagnostics = [] then [] else [.blank] := by
    unfold Statement.spaced reportSection
    cases m.diagnostics with
    | nil => rfl
    | cons d ds => rfl
  have hnone : Statement.spaced (reportSection { m with diagnostics := [] }) = [] := rfl
  have hdependencies : dependencySection framework { m with diagnostics := [] } =
      dependencySection framework m := rfl
  have hsubject : subjectSection? { m with diagnostics := [] } = subjectSection? m := rfl
  have hsuite : suite framework { m with diagnostics := [] } = suite framework m := rfl
  rw [scaffold?, scaffold?, hsubject, Option.map_map, hreport]
  refine Option.map_congr fun moduleSection _ => ?_
  simp only [Function.comp_apply, hnone, hdependencies, hsuite, List.nil_append, List.append_assoc]

/-- **A module that is read has a scaffold that begins with its report**: one comment on each diagnostic and a blank
line, if there are any. -/
theorem exists_report_of_readModel (framework : Framework) {parser : Parser} {src : SourceText}
    {filename : String} {m : Model} (h : readModel parser src filename = .ok m) :
    ∃ rest, scaffold? framework m = some
      ⟨m.diagnostics.map (fun d => .line ("// unsupported: " ++ d.text)) ++
        (if m.diagnostics = [] then [] else [.blank]) ++ rest⟩ := by
  obtain ⟨d, hd⟩ := exists_scaffold?_of_readModel framework h
  rw [scaffold?_eq_report] at hd ⊢
  obtain ⟨rest, hrest, -⟩ := Option.map_eq_some_iff.1 hd
  exact ⟨rest.statements, by rw [hrest]; rfl⟩

/-- **Diagnostics are reported for what is retained.** The classes and functions whose names are on the surface
are those of the model, up to promotion. The diagnostics of the model are the one list that holds those of the
module and those of the retained classes and functions, each as often as it was raised, sorted by line and with
those of one line in the order of module, classes and functions. A scaffold in any framework begins with one
comment on each of them in this order, and a blank line if there are any; the rest is the scaffold of the same
model without diagnostics.

**Proof sketch.** The two passes that keep units keep the diagnostics of the same readings. Sorting is stable, and
sorted diagnostics are determined by those of each line. -/
theorem diagnostics_reported (f : Findings) (framework : Framework) :
    (f.retainedClasses.map (·.unit) = f.toModel.classes ∧
        f.retainedFunctions.map (·.unit.unmarked) = f.toModel.functions.map (·.unmarked)) ∧
      (∀ ds, f.Reports ds ↔ ds = f.toModel.diagnostics) ∧
      scaffold? framework f.toModel =
        (scaffold? framework { f.toModel with diagnostics := [] }).map fun rest =>
          ⟨f.toModel.diagnostics.map (fun d => .line ("// unsupported: " ++ d.text)) ++
            (if f.toModel.diagnostics = [] then [] else [.blank]) ++ rest.statements⟩ := by
  refine ⟨⟨Findings.map_unit_retainedClasses, Findings.map_unmarked_retainedFunctions⟩, ?_, ?_⟩
  · exact fun _ => Findings.reports_iff
  · exact scaffold?_eq_report framework f.toModel

end TestScaffold
