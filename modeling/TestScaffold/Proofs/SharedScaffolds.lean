import TestScaffold.Proofs.ScaffoldRuns

set_option autoImplicit false

/-!
# Shared scaffolds

Two source files of a run may share a scaffold, since the name of a scaffold tells only the directories, the
beginning and the extension of the name of its source file. Then the one that is taken later replaces the
scaffold of the other. Nothing else replaces a scaffold while a run goes on.

## Main results

* `TestScaffold.content?_scaffoldFiles_of_ne` — a run leaves all files alone but for its scaffolds.
* `TestScaffold.run_keeps_scaffold` — a scaffold stays unless another source file shares it.
* `TestScaffold.run_replaces_scaffold` — a scaffold that is lost.
-/

namespace TestScaffold

open FileSystem

section Frame

variable {w : Workspace} {options : Options} {fs fs' : FileSystem} {s : Path} {l : Location}

/-- Writing the scaffold of a source file changes no other file, whether it succeeds or not. -/
theorem content?_writeScaffold_of_ne (h : l ≠ scaffoldLocation w options s) :
    (writeScaffold w options fs s).1.content? l = fs.content? l := by
  unfold writeScaffold
  split
  · exact content?_writeText_of_ne h
  · rfl

/-- A scaffold that is written has the text that is made for its source file. -/
theorem exists_of_writeScaffold (h : (writeScaffold w options fs s).2 = none) :
    ∃ text, scaffoldText w options fs s = .ok text ∧
      (writeScaffold w options fs s).1.content? (scaffoldLocation w options s) = some text.toUTF8 := by
  cases htext : scaffoldText w options fs s with
  | error e =>
    rw [writeScaffold, htext] at h
    cases h
  | ok text =>
    rw [writeScaffold, htext] at h ⊢
    exact ⟨text, rfl, content?_of_writeText (Prod.ext rfl h)⟩

/-- What is done for a source file is to write its scaffold. -/
theorem fst_scaffoldFile (w : Workspace) (options : Options) (fs : FileSystem) (s : Path) :
    (scaffoldFile w options fs s).1 = (writeScaffold w options fs s).1 := by
  unfold scaffoldFile
  split
  · next heq => rw [heq]
  · next heq => rw [heq]

/-- A source file is taken before those that follow. -/
theorem fst_scaffoldFiles_cons (rest : List Path) :
    (scaffoldFiles w options fs (s :: rest)).1 =
      (scaffoldFiles w options (writeScaffold w options fs s).1 rest).1 := by
  rw [← fst_scaffoldFile]
  rfl

/-- **A run leaves all files alone** but for the scaffolds of its source files. -/
theorem content?_scaffoldFiles_of_ne {sources : List Path}
    (h : ∀ s ∈ sources, l ≠ scaffoldLocation w options s) :
    (scaffoldFiles w options fs sources).1.content? l = fs.content? l := by
  induction sources generalizing fs with
  | nil => rfl
  | cons s sources ih =>
    obtain ⟨hs, hsources⟩ := List.forall_mem_cons.1 h
    rw [fst_scaffoldFiles_cons, ih hsources, content?_writeScaffold_of_ne hs]

/-- The source files of a run are taken one after the other. -/
theorem fst_scaffoldFiles_append (before after : List Path) :
    (scaffoldFiles w options fs (before ++ after)).1 =
      (scaffoldFiles w options (scaffoldFiles w options fs before).1 after).1 := by
  induction before generalizing fs with
  | nil => rfl
  | cons s before ih => rw [List.cons_append, scaffoldFiles, ih, scaffoldFiles]

end Frame

/-- **A scaffold stays unless another source file shares it.** Two source files of a run have one scaffold
exactly if the names of their directories, the beginnings of their names and their extensions agree. If the
scaffold of a source file is written, then it has its text at the end of the run, unless it is shared by a
source file that is taken later.

**Proof sketch.** What is done for a source file changes no file but its scaffold, so the scaffold stays while
the source files are taken that have other ones. -/
theorem run_keeps_scaffold {w : Workspace} {options : Options} {fs : FileSystem} {sources : List Path}
    (hsources : sourceFiles w options fs = .ok sources) :
    (∀ s ∈ sources, ∀ t ∈ sources,
      scaffoldLocation w options s = scaffoldLocation w options t ↔ SharesScaffold s t) ∧
    ∀ before s after, sources = before ++ s :: after →
      (writeScaffold w options (scaffoldFiles w options fs before).1 s).2 = none →
      (∀ t ∈ after, ¬SharesScaffold s t) →
      ∃ text, scaffoldText w options (scaffoldFiles w options fs before).1 s = .ok text ∧
        (run w options fs).fs.content? (scaffoldLocation w options s) = some text.toUTF8 := by
  refine ⟨fun s _ t _ => destination_targetPath_eq_iff, ?_⟩
  rintro before s after rfl hwrite hafter
  obtain ⟨text, htext, hcontent⟩ := exists_of_writeScaffold hwrite
  refine ⟨text, htext, ?_⟩
  have hrun : (run w options fs).fs = (scaffoldFiles w options fs (before ++ s :: after)).1 := by
    rw [run, hsources]
  rw [hrun, fst_scaffoldFiles_append, fst_scaffoldFiles_cons, content?_scaffoldFiles_of_ne, hcontent]
  intro t ht heq
  exact hafter t ht (destination_targetPath_eq_iff.1 heq)

/-- Two empty scripts whose names begin alike. -/
def twinFiles : FileSystem := ⟨[(["u.ts"], .file .empty), (["u.test.ts"], .file .empty)]⟩

/-- The options of a run over these files. -/
def twinOptions : Options := ⟨["u.ts", "u.test.ts"], .jest, ⟨false, ["out"]⟩⟩

/-- The scaffold of the script that is taken last stays. -/
theorem run_keeps_scaffold_last :
    ∃ text, scaffoldText emptyWorkspace twinOptions
        (scaffoldFiles emptyWorkspace twinOptions twinFiles [⟨false, ["u.ts"]⟩]).1
        ⟨false, ["u.test.ts"]⟩ = .ok text ∧
      (run emptyWorkspace twinOptions twinFiles).fs.content?
        (scaffoldLocation emptyWorkspace twinOptions ⟨false, ["u.test.ts"]⟩) = some text.toUTF8 := by
  have hsources : sourceFiles emptyWorkspace twinOptions twinFiles =
      .ok [⟨false, ["u.ts"]⟩, ⟨false, ["u.test.ts"]⟩] := by decide +kernel
  exact (run_keeps_scaffold hsources).2 [⟨false, ["u.ts"]⟩] ⟨false, ["u.test.ts"]⟩ [] rfl
    (by decide +kernel) nofun

/-- **A scaffold is lost**: two scripts have one scaffold, and although nothing fails, the text for the
first one is not to be found afterwards. -/
theorem run_replaces_scaffold :
    ∃ s t text, sourceFiles emptyWorkspace twinOptions twinFiles = .ok [s, t] ∧ s ≠ t ∧
      targetPath twinOptions.outDir s = targetPath twinOptions.outDir t ∧
      scaffoldText emptyWorkspace twinOptions twinFiles s = .ok text ∧
      (run emptyWorkspace twinOptions twinFiles).exitCode = 0 ∧
      (run emptyWorkspace twinOptions twinFiles).fs.content? (scaffoldLocation emptyWorkspace twinOptions s) ≠
        some text.toUTF8 := by
  refine ⟨⟨false, ["u.ts"]⟩, ⟨false, ["u.test.ts"]⟩, _, by decide +kernel, by decide, by decide, rfl,
    by decide +kernel, ?_⟩
  decide +kernel

end TestScaffold
