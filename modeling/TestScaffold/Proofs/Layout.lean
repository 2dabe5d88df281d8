import Mathlib.Data.List.Chain
import TestScaffold.Proofs.GrownTrees
import TestScaffold.Proofs.SuiteScope

set_option autoImplicit false

/-!
# The layout of a scaffold

A scaffold is laid out in sections, and blank lines stand between these and nowhere else. Here this is said of a
finished list of statements: what each section holds, that no statement of a section has a blank line in it at
any depth, and where the blank lines of the scaffold are. So a scaffold never begins with a blank line, and
there are never two in a row, whichever sections are empty.

## Main definitions

* `TestScaffold.Statement.Unbroken` — a statement without a blank line, at any depth.
* `TestScaffold.WellSpaced` — blank lines are neither first nor next to each other.
* `TestScaffold.Jest.SubstituteFor` — the substitute of an import.
* `TestScaffold.Sections`, `TestScaffold.Sections.statements` — sections and the statements they make up.
* `TestScaffold.Sections.OfModel` — what the sections of a module hold.

## Main results

* `TestScaffold.MockTree.unbroken_render` — there are no blank lines in a written mock tree.
* `TestScaffold.unbroken_suite` — nor are there any in a suite.
* `TestScaffold.Sections.wellSpaced_statements` — sections without blank lines make up a well-spaced list.
* `TestScaffold.scaffold_laid_out` — the layout of a scaffold.
-/

namespace TestScaffold

/-! ## Blank lines -/

/-- `s.Unbroken`: the statement is no blank line, and none stands inside it. -/
inductive Statement.Unbroken : Statement → Prop where
  /-- A line is not broken. -/
  | line (text : String) : Unbroken (.line text)
  /-- A block is not broken if no statement in it is. -/
  | block {opening : String} {body : List Statement} {closing : String} (h : ∀ s ∈ body, Unbroken s) :
    Unbroken (.block opening body closing)

/-- A blank line is broken. -/
theorem Statement.Unbroken.ne_blank {s : Statement} (h : s.Unbroken) : s ≠ .blank := by
  rintro rfl
  cases h

/-- Lines are not broken. -/
theorem unbroken_of_mem_map_line {α : Type} {text : α → String} {xs : List α} {s : Statement}
    (h : s ∈ xs.map fun x => Statement.line (text x)) : s.Unbroken := by
  obtain ⟨x, -, rfl⟩ := List.mem_map.1 h
  exact .line (text x)

/-- `WellSpaced ss`: the statements do not begin with a blank line, and no two blank lines follow each other. -/
structure WellSpaced (ss : List Statement) : Prop where
  /-- The first statement is no blank line. -/
  head : ss.head? ≠ some .blank
  /-- Of two statements that follow each other one is no blank line. -/
  apart : ss.IsChain fun s t => s ≠ .blank ∨ t ≠ .blank

/-- Statements that are not broken may be put before others, with a blank line between. -/
theorem WellSpaced.spaced_append {xs ss : List Statement} (hxs : ∀ s ∈ xs, s.Unbroken) (hss : WellSpaced ss) :
    WellSpaced (Statement.spaced xs ++ ss) := by
  cases xs with
  | nil => exact hss
  | cons x xs =>
    rw [Statement.spaced, if_neg (by simp), List.append_assoc]
    refine ⟨fun hhead => (hxs x List.mem_cons_self).ne_blank (Option.some.inj hhead), ?_⟩
    have hfront : (x :: xs).IsChain fun s t => s ≠ .blank ∨ t ≠ .blank :=
      (List.pairwise_of_forall_mem_list fun s hs t _ => Or.inl (hxs s hs).ne_blank).isChain
    have hback : (Statement.blank :: ss).IsChain fun s t => s ≠ .blank ∨ t ≠ .blank :=
      List.isChain_cons.2 ⟨fun t ht => Or.inr fun hblank => hss.head (hblank ▸ ht), hss.apart⟩
    exact List.isChain_append.2
      ⟨hfront, hback, fun s hs t _ => Or.inl (hxs s (List.mem_of_getLast? hs)).ne_blank⟩

/-! ## Substitutes -/

namespace MockTree

/-- What is written for several trees is written for one of them. -/
theorem exists_of_mem_renderAll {ts : List MockTree} {s : Statement} (h : s ∈ renderAll ts) :
    ∃ t ∈ ts, ∃ comma, s = t.render comma := by
  obtain ⟨i, hi⟩ := List.mem_iff_getElem?.1 h
  rw [getElem?_renderAll, Option.map_eq_some_iff] at hi
  obtain ⟨t, ht, rfl⟩ := hi
  exact ⟨t, List.mem_of_getElem? ht, _, rfl⟩

/-- **There are no blank lines in a written mock tree.** -/
theorem unbroken_render (t : MockTree) : ∀ comma, (t.render comma).Unbroken := by
  induction t using inductionOn_members with
  | h t ih =>
    intro comma
    obtain ⟨name, called, ts⟩ := t
    have hmembers : ∀ s ∈ renderAll ts, s.Unbroken := fun s hs => by
      obtain ⟨m, hm, comma', rfl⟩ := exists_of_mem_renderAll hs
      exact ih m hm comma'
    cases ts with
    | nil => exact .line _
    | cons m ms =>
      rw [render]
      split
      · exact .block hmembers
      · exact .block hmembers

end MockTree

namespace Jest

/-- The call that substitutes the module of an import begins so. -/
def substituteOpening (d : Import) : String := "jest.mock(" ++ quoted d.modulePath ++ ", () => (\x7b"

/-- `SubstituteFor usages d ss`: the statements `ss` substitute what `d` imports. -/
structure SubstituteFor (usages : List Usage) (d : Import) (ss : List Statement) : Prop where
  /-- Nothing is substituted if only types are imported or nothing is bound. -/
  absent : d.typeOnly = true ∨ d.kind = .sideEffect → ss = []
  /-- A module of which no named export is used is substituted on one line. -/
  empty : d.typeOnly = false → d.kind ≠ .sideEffect → mocks d usages = [] →
    ss = [.line (substituteOpening d ++ "\x7d));")]
  /-- Any other module is substituted by a block with the used exports. -/
  entries : d.typeOnly = false → d.kind ≠ .sideEffect → mocks d usages ≠ [] →
    ss = [.block (substituteOpening d) (MockTree.renderAll (mocks d usages)) "\x7d));"]

/-- Nothing is written only for no trees. -/
theorem renderAll_eq_nil {ts : List MockTree} : MockTree.renderAll ts = [] ↔ ts = [] := by
  rcases ts with - | ⟨t, - | ⟨u, ts⟩⟩ <;> simp [MockTree.renderAll]

/-- Jest substitutes an import in this way. -/
theorem substituteFor_substitute (usages : List Usage) (d : Import) :
    SubstituteFor usages d (substitute d usages) := by
  have hskip : (d.typeOnly || d.kind == .sideEffect) = true ↔ d.typeOnly = true ∨ d.kind = .sideEffect := by
    rw [Bool.or_eq_true, beq_iff_eq]
  have hkept (htypes : d.typeOnly = false) (hkind : d.kind ≠ .sideEffect) :
      ¬(d.typeOnly || d.kind == .sideEffect) = true := fun h =>
    (hskip.1 h).elim (fun htrue => Bool.false_ne_true (htypes.symm.trans htrue)) hkind
  refine ⟨fun h => if_pos (hskip.2 h), fun htypes hkind hnone => ?_, fun htypes hkind hsome => ?_⟩
  · rw [substitute, substituteBy, if_neg (hkept htypes hkind), hnone]
    rfl
  · rw [substitute, substituteBy, if_neg (hkept htypes hkind)]
    split
    · next h => exact absurd (renderAll_eq_nil.1 h) hsome
    · rfl

/-- There are no blank lines in a substitute. -/
theorem SubstituteFor.unbroken {usages : List Usage} {d : Import} {ss : List Statement}
    (h : SubstituteFor usages d ss) : ∀ s ∈ ss, s.Unbroken := by
  intro s hs
  by_cases hskip : d.typeOnly = true ∨ d.kind = .sideEffect
  · rw [h.absent hskip] at hs
    cases hs
  · rw [not_or, Bool.not_eq_true] at hskip
    by_cases hnone : mocks d usages = []
    · rw [h.empty hskip.1 hskip.2 hnone, List.mem_singleton] at hs
      exact hs ▸ .line _
    · rw [h.entries hskip.1 hskip.2 hnone, List.mem_singleton] at hs
      subst hs
      refine .block fun e he => ?_
      obtain ⟨t, -, comma, rfl⟩ := MockTree.exists_of_mem_renderAll he
      exact t.unbroken_render comma

end Jest

/-! ## The suite -/

/-- The resets after each test hold no blank line. -/
theorem unbroken_afterEach {usages : List Usage} {imports : List Import} :
    ∀ s ∈ Jest.afterEach usages imports, s.Unbroken := by
  intro s hs
  rw [Jest.afterEach, Jest.afterEachBlock] at hs
  split at hs
  · cases hs
  · rw [List.mem_singleton] at hs
    subst hs
    refine .block fun reset hreset => ?_
    obtain ⟨u, -, hu⟩ := List.mem_flatMap.1 hreset
    rw [Jest.resets] at hu
    split at hu
    · rw [List.mem_singleton] at hu
      exact hu ▸ .line _
    · exact unbroken_of_mem_map_line hu

/-- There are no blank lines around the tests of a suite. -/
theorem unbroken_suiteFrame (m : Model) : ∀ s ∈ suiteFrame jest m, s.Unbroken := by
  intro s hs
  rw [suiteFrame_jest, List.mem_append, List.mem_append] at hs
  rcases hs with (hs | hs) | hs
  · exact unbroken_of_mem_map_line hs
  · split at hs
    · cases hs
    · rw [List.mem_singleton] at hs
      exact hs ▸ .block fun _ => unbroken_of_mem_map_line
  · exact unbroken_afterEach s hs

/-- There are no blank lines in a test. -/
theorem unbroken_caseBlock (m : Model) (t : TestCase) : (caseBlock jest m t).Unbroken := by
  refine .block fun s hs => ?_
  rw [caseBody_jest, List.mem_append] at hs
  exact hs.elim unbroken_of_mem_map_line unbroken_of_mem_map_line

/-- **There are no blank lines in a suite.** -/
theorem unbroken_suite (m : Model) : (suite jest m).Unbroken := by
  refine .block fun s hs => ?_
  rcases List.mem_append.1 hs with hs | hs
  · exact unbroken_suiteFrame m s hs
  · obtain ⟨t, -, rfl⟩ := List.mem_map.1 hs
    exact unbroken_caseBlock m t

/-! ## Sections -/

/-- The statements of a scaffold by sections. -/
structure Sections where
  /-- The report on what is not described. -/
  report : List Statement
  /-- What is taken from elsewhere, with its substitutes. -/
  dependencies : List Statement
  /-- The lines that import the module under test. -/
  subject : List Statement
  /-- The suite. -/
  suite : Statement

namespace Sections

/-- All statements in order: a blank line follows each of the first three sections that is not empty, and the
suite is last. -/
def statements (x : Sections) : List Statement :=
  Statement.spaced x.report ++ Statement.spaced x.dependencies ++ Statement.spaced x.subject ++ [x.suite]

/-- There are no blank lines in the sections themselves. -/
structure Unbroken (x : Sections) : Prop where
  /-- There are none in the report. -/
  report : ∀ s ∈ x.report, s.Unbroken
  /-- There are none among the dependencies. -/
  dependencies : ∀ s ∈ x.dependencies, s.Unbroken
  /-- There are none among the lines that import the module. -/
  subject : ∀ s ∈ x.subject, s.Unbroken
  /-- There are none in the suite. -/
  suite : x.suite.Unbroken

/-- **Sections without blank lines make up a well-spaced list of statements**, whichever of them are empty. -/
theorem wellSpaced_statements {x : Sections} (h : x.Unbroken) : WellSpaced x.statements := by
  have hsuite : WellSpaced [x.suite] :=
    ⟨fun hhead => h.suite.ne_blank (Option.some.inj hhead), List.isChain_singleton _⟩
  rw [statements, List.append_assoc, List.append_assoc]
  exact .spaced_append h.report (.spaced_append h.dependencies (.spaced_append h.subject hsuite))

/-- `x.OfModel m path`: what the sections hold for a module that is imported as `path`. -/
structure OfModel (m : Model) (path : String) (x : Sections) : Prop where
  /-- There is one comment for each diagnostic, in order. -/
  report : x.report = m.diagnostics.map fun d => .line ("// unsupported: " ++ d.text)
  /-- Each import is followed by its own substitute; each statement that requires stands once, after the
  imports. -/
  dependencies : ∃ (parts : List (List Statement)) (requires : List String),
    List.Forall₂ (fun d part => ∃ ss, Jest.SubstituteFor m.usages d ss ∧ part = .line (importLine d) :: ss)
      m.imports parts ∧
    FirstOccurrences (m.requires.map (·.statement)) requires ∧
    x.dependencies = parts.flatten ++ requires.map .line
  /-- The module is imported by distinct lines. There is one if there are `export` statements, otherwise one
  for each way of taking a name from the export slot. -/
  subject : ∃ lines : List String,
    x.subject = lines.map .line ∧
    lines.Nodup ∧
    (lines ≠ [] ↔ m.exports ≠ [] ∨ m.slotExports ≠ []) ∧
    (m.exports ≠ [] → lines = ["import " ++ exportImportClause m.exports ++ " from " ++ quoted path ++ ";"]) ∧
    (m.exports = [] → FirstOccurrences (m.slotExports.map (slotLine (quoted path))) lines)
  /-- There is one suite, called like the file. -/
  suite : ∃ body,
    x.suite = .block ("describe(" ++ quoted (baseName m.specifier) ++ ", () => \x7b") body "\x7d);"

/-- The sections that a scaffold is put together from. -/
def ofModel (m : Model) (path : String) : Sections where
  report := reportSection m
  dependencies := dependencySection jest m
  subject := (subjectLines (quoted path) m.exports m.slotExports).map .line
  suite := TestScaffold.suite jest m

/-- A scaffold is made up of its sections, if the file name of the module can be cut. -/
theorem scaffold?_eq (m : Model) :
    scaffold? jest m = (withoutExtension? m.specifier).map fun path => ⟨(ofModel m path).statements⟩ := by
  rw [scaffold?, subjectSection?, Option.map_map]
  rfl

/-- There are no blank lines in the sections of a scaffold. -/
theorem unbroken_ofModel (m : Model) (path : String) : (ofModel m path).Unbroken where
  report _ hs := unbroken_of_mem_map_line hs
  dependencies s hs := by
    rw [ofModel, dependencySection, List.mem_append, List.mem_append] at hs
    rcases hs with (hs | hs) | hs
    · cases hs
    · obtain ⟨d, -, hd⟩ := List.mem_flatMap.1 hs
      rcases List.mem_cons.1 hd with rfl | hd
      · exact .line _
      · exact (Jest.substituteFor_substitute m.usages d).unbroken s hd
    · exact unbroken_of_mem_map_line hs
  subject _ hs := unbroken_of_mem_map_line hs
  suite := unbroken_suite m

/-- The module is imported by distinct lines, and by none exactly if it publishes nothing. -/
theorem subjectLines_spec (literal : String) (exports : List Export) (slotExports : List SlotExport) :
    (subjectLines literal exports slotExports).Nodup ∧
      (subjectLines literal exports slotExports ≠ [] ↔ exports ≠ [] ∨ slotExports ≠ []) ∧
      (exports ≠ [] → subjectLines literal exports slotExports =
        ["import " ++ exportImportClause exports ++ " from " ++ literal ++ ";"]) ∧
      (exports = [] →
        FirstOccurrences (slotExports.map (slotLine literal)) (subjectLines literal exports slotExports)) := by
  cases exports with
  | nil =>
    have hlines : subjectLines literal [] slotExports = (slotExports.map (slotLine literal)).eraseDups := rfl
    have hnil : (slotExports.map (slotLine literal)).eraseDups = [] ↔ slotExports = [] := by
      rw [List.eraseDups, eraseDupsBy_eq_nil_iff, List.map_eq_nil_iff]
    rw [hlines]
    refine ⟨nodup_eraseDups _, ?_, fun h => absurd rfl h, fun _ => firstOccurrences_iff.2 rfl⟩
    rw [ne_eq, hnil]
    simp
  | cons e exports =>
    refine ⟨List.nodup_singleton _, ?_, fun _ => rfl, fun h => nomatch h⟩
    simp [subjectLines]

/-- The sections of a scaffold hold what they should. -/
theorem ofModel_spec (m : Model) (path : String) : (ofModel m path).OfModel m path where
  report := rfl
  dependencies := by
    refine ⟨m.imports.map (importSection jest m), requireStatements m.requires, ?_,
      firstOccurrences_iff.2 rfl, ?_⟩
    · rw [List.forall₂_map_right_iff]
      exact List.forall₂_same.2 fun d _ => ⟨_, Jest.substituteFor_substitute m.usages d, rfl⟩
    · rw [← List.flatMap_def]
      rfl
  subject := ⟨_, rfl, subjectLines_spec (quoted path) m.exports m.slotExports⟩
  suite := by
    have hopening : ", () => \x7b" = ", " ++ "() => \x7b" := by decide
    refine ⟨suiteFrame jest m ++ m.testCases.map (caseBlock jest m), ?_⟩
    rw [hopening, ← String.append_assoc]
    rfl

end Sections

/-- **The layout of a scaffold.** A module has a scaffold unless its file name cannot be cut. The scaffold
begins with the comments on what is not described. Then come the imports in order, each with its own substitute
right behind it, and after them every distinct statement that requires a module, once. Then come the lines for
the import of the module itself, which are distinct, and of which there are some exactly if the module publishes
something. The suite is last. Blank lines stand behind each of the first three sections that is not empty, one
behind each, and nowhere else. So the scaffold does not begin with a blank line, and no two follow each other.

**Proof sketch.** The sections are those that the scaffold is put together from. Everything in them is written
as lines and as blocks of lines, mock trees included, which goes by induction on the tree. Such sections may
be put before a well-spaced list of statements one after the other, beginning with the last. -/
theorem scaffold_laid_out (m : Model) :
    (scaffold? jest m = none ↔ withoutExtension? m.specifier = none) ∧
      ∀ path, withoutExtension? m.specifier = some path →
        ∃ (d : Scaffold) (x : Sections), scaffold? jest m = some d ∧ x.OfModel m path ∧ x.Unbroken ∧
          d.statements = x.statements ∧ WellSpaced d.statements := by
  rw [Sections.scaffold?_eq]
  refine ⟨Option.map_eq_none_iff, fun path hpath => ?_⟩
  have hunbroken := Sections.unbroken_ofModel m path
  refine ⟨⟨(Sections.ofModel m path).statements⟩, Sections.ofModel m path, ?_, Sections.ofModel_spec m path,
    hunbroken, rfl, Sections.wellSpaced_statements hunbroken⟩
  rw [hpath, Option.map_some]

/-- A module with a substituted import, one that is not, and a require that binds two names. -/
def requiringModel : Model where
  specifier := "lib/client.js"
  imports := [⟨.default, [.default "axios"], "axios", false⟩, ⟨.sideEffect, [], "./setup", false⟩]
  requires := ["a", "b"].map fun name => ⟨name, "x", "const \x7b a, b \x7d = require(\"x\");"⟩
  classes := []
  functions := []
  usages := []
  slotExports := [⟨"get", "get", .property⟩]
  exports := []
  diagnostics := []

/-- The scaffold of this module has no report, so no blank line stands before its imports. -/
theorem scaffold_laid_out_requiring :
    withoutExtension? requiringModel.specifier = some "lib/client" ∧
      ∃ (d : Scaffold) (x : Sections), scaffold? jest requiringModel = some d ∧
        x.OfModel requiringModel "lib/client" ∧ x.report = [] ∧ d.statements = x.statements ∧
        WellSpaced d.statements := by
  have hpath : withoutExtension? requiringModel.specifier = some "lib/client" := by decide +kernel
  obtain ⟨d, x, hd, hx, -, hstatements, hspaced⟩ := (scaffold_laid_out requiringModel).2 "lib/client" hpath
  exact ⟨hpath, d, x, hd, hx, hx.report, hstatements, hspaced⟩

example :
    (scaffold? jest requiringModel).map Scaffold.render =
      some ("import axios from \"axios\";\njest.mock(\"axios\", () => (\x7b\x7d));\nimport \"./setup\";\n" ++
        "const \x7b a, b \x7d = require(\"x\");\n\nconst get = require(\"lib/client\").get;\n\n" ++
        "describe(\"client.js\", () => \x7b\n\x7d);\n") := by
  decide +kernel

end TestScaffold
