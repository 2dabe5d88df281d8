import TestScaffold.Proofs.WellFormed
import TestScaffold.Proofs.TargetPaths

set_option autoImplicit false

/-!
# Runs over several files

A run reads a source file after it has written the scaffolds of others. So it depends on the order of the
source files, unless no scaffold stands where something is read or where another one is written. Then a run
does for every file what it would do for this file alone.

## Main definitions

* `TestScaffold.FileSystem.Admits`, `TestScaffold.FileSystem.AddsFile` — that a file can be written, and what
  has changed if it is.
* `TestScaffold.scaffoldLocation`, `TestScaffold.scaffoldWay` — where a scaffold stands, and what leads there.
* `TestScaffold.Yields` — the text of the scaffold of a source file, told from the initial files.
* `TestScaffold.Apart` — source files whose scaffolds can be written and are not in each other's way.
* `TestScaffold.Overlaid` — files that are the initial ones but for the scaffolds of some source files.
* `TestScaffold.scaffoldReport` — the outcome of a run for given source files.

## Main results

* `TestScaffold.exists_writeText` — what writing a file changes.
* `TestScaffold.Overlaid.scaffoldFile` — one more source file adds its scaffold.
* `TestScaffold.overlaid_scaffoldFiles` — a run adds the scaffolds of its source files.
* `TestScaffold.scaffoldReport_of_apart` — the outcome of a run, in whatever order.
-/

namespace TestScaffold

open FileSystem

/-! ## Writing a file -/

/-- A file can be written to a path: the directory that the path begins at is there, nothing but directories
stands on its way, no directory stands at its destination, and no name is too long. -/
structure FileSystem.Admits (fs : FileSystem) (cwd : Location) (p : Path) : Prop where
  /-- The directory that the path begins at is there. -/
  origin : fs.entryAt? (origin cwd p) = some .directory
  /-- The directories on the way are there or can be made. -/
  way : ∀ l ∈ way cwd p, fs.AdmitsDirectory l
  /-- What stands at the destination is no directory. -/
  file : fs.entryAt? (destination cwd p) ≠ some .directory
  /-- No name is too long. -/
  short : Short p

/-- A file stands at the destination of a path and directories on its way; nothing else has changed. -/
structure FileSystem.AddsFile (cwd : Location) (p : Path) (content : ByteArray) (fs fs' : FileSystem) :
    Prop where
  /-- The file stands at the destination. -/
  written : fs'.entryAt? (destination cwd p) = some (.file content)
  /-- Directories stand on the way. -/
  made : ∀ l ∈ way cwd p, fs'.entryAt? l = some .directory
  /-- Elsewhere everything is as before. -/
  kept : ∀ l, l ≠ destination cwd p → l ∉ way cwd p → fs'.entryAt? l = fs.entryAt? l

section Write

variable {w : Workspace} {fs fs' : FileSystem} {target : Path} {text : String}

/-- **What writing a file changes**, if it can be written and its directories do not lead through it. -/
theorem exists_writeText (text : String) (htrim : target.trim = target) {parent : Path}
    (hparent : target.parent? = some parent) (hnotEmpty : target.parts ≠ [])
    (h : fs.Admits w.cwd target) (hclear : destination w.cwd target ∉ way w.cwd target) :
    ∃ fs', writeText w fs target text = (fs', none) ∧
      AddsFile w.cwd target text.toUTF8 fs fs' := by
  obtain ⟨hrooted, hparentTrim, skipped, last, hparts, -⟩ := Path.of_parent?_eq_some hparent
  have hway : ∀ l, l ∈ way w.cwd target ↔ l ∈ destination w.cwd parent :: way w.cwd parent := fun _ =>
    mem_way_iff_of_parent? htrim hparent
  have hparentShort : Short parent := by
    intro part hpart
    refine h.short part ?_
    rw [← htrim, hparts]
    exact List.mem_append_left _ (List.mem_append_left _ hpart)
  have hparentOrigin : origin w.cwd parent = origin w.cwd target := by rw [origin, origin, hrooted]
  obtain ⟨fs₁, hmade, hadds⟩ := exists_createDirectories hparentTrim (hparentOrigin ▸ h.origin)
    (fun l hl => h.way l ((hway l).2 hl)) hparentShort
  have hmadeWay : ∀ l ∈ way w.cwd target, fs₁.entryAt? l = some .directory := fun l hl =>
    hadds.made l ((hway l).1 hl)
  have hfile : fs₁.entryAt? (destination w.cwd target) ≠ some .directory := by
    rw [hadds.kept _ (mt (hway _).2 hclear)]
    exact h.file
  have hlocate := locate_eq_ok_iff.2 ⟨fun _ => hnotEmpty, hmadeWay, h.short, rfl⟩
  have hroot : destination w.cwd target ≠ [] := by
    intro heq
    rw [heq] at hfile
    exact hfile rfl
  refine ⟨fs₁.put (destination w.cwd target) (.file text.toUTF8), ?_, ?_, ?_, ?_⟩
  · simp only [writeText, createParent, hparent, hmade, Option.map_none, write_eq_ok hlocate hfile]
  · exact entryAt?_put_self fs₁ hroot _
  · intro l hl
    rw [entryAt?_put_of_ne fs₁ (ne_of_mem_of_not_mem hl hclear), hmadeWay l hl]
  · intro l hne hnotOn
    rw [entryAt?_put_of_ne fs₁ hne, hadds.kept l (mt (hway l).2 hnotOn)]

/-- Making the directories of a file changes no file. -/
theorem content?_createParent (w : Workspace) (fs : FileSystem) (target : Path) (l : Location) :
    (createParent w fs target).1.content? l = fs.content? l := by
  unfold createParent
  split
  · rfl
  · exact content?_createDirectories fs w.cwd _ l

/-- Writing a file changes no other file, whether it succeeds or not. -/
theorem content?_writeText_of_ne {l : Location} (h : l ≠ destination w.cwd target) :
    (writeText w fs target text).1.content? l = fs.content? l := by
  have hparent := content?_createParent w fs target l
  unfold writeText
  split
  · next heq =>
    rw [heq] at hparent
    exact hparent
  · next fs₁ heq =>
    rw [heq] at hparent
    split
    · next fs₂ hwrite =>
      obtain ⟨-, rfl⟩ := of_write_eq_ok hwrite
      rw [← hparent]
      unfold content?
      rw [entryAt?_put_of_ne fs₁ h]
    · exact hparent

/-- A file that is written has the content that was written. -/
theorem content?_of_writeText (h : writeText w fs target text = (fs', none)) :
    fs'.content? (destination w.cwd target) = some text.toUTF8 := by
  unfold writeText at h
  split at h
  · cases h
  · split at h
    · next hwrite =>
      obtain ⟨hroot, rfl⟩ := of_write_eq_ok hwrite
      obtain ⟨rfl, -⟩ := Prod.mk.inj h
      unfold content?
      rw [entryAt?_put_self _ hroot]
    · cases h

end Write

/-! ## Reading source files -/

section Read

variable {w : Workspace} {options : Options} {fs fs' : FileSystem} {source : Path} {text : String}

/-- The text of the scaffold of a source file: the file holds a text, and this is the text of a module that a
scaffold is made for. -/
def Yields (w : Workspace) (options : Options) (fs : FileSystem) (source : Path) (text : String) : Prop :=
  ∃ content, fs.content? (destination w.cwd source) = some content ∧
    (String.fromUTF8? content).isSome = true ∧
    scaffoldModule w.tools.parser options.framework.framework ⟨content⟩
      (sourceSpecifier w.tools.legible w.cwdPath (targetPath options.outDir source) source) = .ok text

/-- A source file has one scaffold. -/
theorem Yields.unique {text' : String} (h : Yields w options fs source text)
    (h' : Yields w options fs source text') : text = text' := by
  obtain ⟨content, hcontent, -, htext⟩ := h
  obtain ⟨content', hcontent', -, htext'⟩ := h'
  obtain rfl := Option.some.inj (hcontent.symm.trans hcontent')
  exact Except.ok.inj (htext.symm.trans htext')

/-- The text that is made for a source file is that of its scaffold. -/
theorem scaffoldText_eq_ok_iff (hfile : fs.isFile w.cwd source = true) :
    scaffoldText w options fs source = .ok text ↔ Yields w options fs source text := by
  obtain ⟨hlocate, content, hentry⟩ := isFile_eq_true_iff.1 hfile
  have hcontent : fs.content? (destination w.cwd source) = some content := by
    rw [content?, hentry]
  have hread : readSource w fs source =
      (SourceText.ofContent content).mapError (.file source.text) := by
    rw [readSource, read_eq_ok hlocate hentry]
    rfl
  unfold scaffoldText Yields
  rw [hread, hcontent]
  by_cases hvalid : (String.fromUTF8? content).isSome = true
  · simp [SourceText.ofContent, hvalid, Except.mapError, bind, Except.bind]
  · simp [SourceText.ofContent, hvalid, Except.mapError, bind, Except.bind]

/-- A source file is read alike if it is the same file in directories that are still there. -/
theorem scaffoldText_congr (hfile : fs.isFile w.cwd source = true)
    (hdirectories : ∀ l, fs.entryAt? l = some .directory → fs'.entryAt? l = some .directory)
    (hsame : fs'.entryAt? (destination w.cwd source) = fs.entryAt? (destination w.cwd source)) :
    scaffoldText w options fs' source = scaffoldText w options fs source := by
  obtain ⟨hlocate, content, hentry⟩ := isFile_eq_true_iff.1 hfile
  obtain ⟨hnotEmpty, hway, hshort, -⟩ := locate_eq_ok_iff.1 hlocate
  have hlocate' : fs'.locate w.cwd source = .ok (destination w.cwd source) :=
    locate_eq_ok_iff.2 ⟨hnotEmpty, fun l hl => hdirectories l (hway l hl), hshort, rfl⟩
  rw [scaffoldText, scaffoldText, readSource, readSource, read_eq_ok hlocate hentry,
    read_eq_ok hlocate' (hsame.trans hentry)]

end Read

/-! ## Source files that keep apart -/

section Runs

variable (w : Workspace) (options : Options)

/-- Where the scaffold of a source file stands. -/
def scaffoldLocation (source : Path) : Location := destination w.cwd (targetPath options.outDir source)

/-- The directories that lead to the scaffold of a source file. -/
def scaffoldWay (source : Path) : List Location := way w.cwd (targetPath options.outDir source)

/-- Source files that keep apart: they are files, their scaffolds are different files and none of them, and
the file system has room for all scaffolds. -/
structure Apart (fs : FileSystem) (sources : List Path) : Prop where
  /-- The source files are files. -/
  files : ∀ s ∈ sources, fs.isFile w.cwd s = true
  /-- The scaffolds are different files. -/
  distinct : sources.Pairwise fun s t => scaffoldLocation w options s ≠ scaffoldLocation w options t
  /-- No scaffold is one of the source files. -/
  foreign : ∀ s ∈ sources, ∀ t ∈ sources, scaffoldLocation w options s ≠ destination w.cwd t
  /-- Every scaffold can be written. -/
  admits : ∀ s ∈ sources, fs.Admits w.cwd (targetPath options.outDir s)
  /-- No scaffold stands where a directory has to lead to another one. -/
  clear : ∀ s ∈ sources, ∀ t ∈ sources, scaffoldLocation w options s ∉ scaffoldWay w options t

/-- Files that are the initial ones but for the scaffolds of some source files and the directories that lead
to these. -/
structure Overlaid (fs : FileSystem) (sources : List Path) (fs' : FileSystem) : Prop where
  /-- The scaffold of a source file stands where it should. -/
  written : ∀ s ∈ sources, ∀ text, Yields w options fs s text →
    fs'.entryAt? (scaffoldLocation w options s) = some (.file text.toUTF8)
  /-- The directories that lead to it are there. -/
  made : ∀ s ∈ sources, ∀ text, Yields w options fs s text →
    ∀ l ∈ scaffoldWay w options s, fs'.entryAt? l = some .directory
  /-- Elsewhere everything is as it was. -/
  kept : ∀ l, (∀ s ∈ sources, ∀ text, Yields w options fs s text →
    l ≠ scaffoldLocation w options s ∧ l ∉ scaffoldWay w options s) → fs'.entryAt? l = fs.entryAt? l

/-- What a run reports on a source file, told from the initial files. -/
def outcome (fs : FileSystem) (source : Path) : Event :=
  match scaffoldText w options fs source with
  | .ok _ => .wrote (targetPath options.outDir source)
  | .error e => .failed source e

/-- The outcome of a run for given source files. -/
def scaffoldReport (fs : FileSystem) (sources : List Path) : Report :=
  ⟨(scaffoldFiles w options fs sources).1, (scaffoldFiles w options fs sources).2⟩

variable {w options} {fs fs' : FileSystem} {sources done : List Path} {source : Path}

/-- Source files keep apart in whatever order. -/
theorem Apart.perm {sources' : List Path} (h : Apart w options fs sources) (hperm : sources'.Perm sources) :
    Apart w options fs sources' where
  files s hs := h.files s (hperm.mem_iff.1 hs)
  distinct := (hperm.pairwise_iff fun hne => hne.symm).2 h.distinct
  foreign s hs t ht := h.foreign s (hperm.mem_iff.1 hs) t (hperm.mem_iff.1 ht)
  admits s hs := h.admits s (hperm.mem_iff.1 hs)
  clear s hs t ht := h.clear s (hperm.mem_iff.1 hs) t (hperm.mem_iff.1 ht)

/-- What is overlaid with the same scaffolds is the same. -/
theorem Overlaid.entryAt?_eq {sources' : List Path} {fs'' : FileSystem} (h : Overlaid w options fs sources fs')
    (h' : Overlaid w options fs sources' fs'') (hsame : ∀ s, s ∈ sources' ↔ s ∈ sources) (l : Location) :
    fs''.entryAt? l = fs'.entryAt? l := by
  by_cases hwritten : ∃ s ∈ sources, ∃ text, Yields w options fs s text ∧ l = scaffoldLocation w options s
  · obtain ⟨s, hs, text, htext, rfl⟩ := hwritten
    rw [h.written s hs text htext, h'.written s ((hsame s).2 hs) text htext]
  by_cases hmade : ∃ s ∈ sources, ∃ text, Yields w options fs s text ∧ l ∈ scaffoldWay w options s
  · obtain ⟨s, hs, text, htext, hl⟩ := hmade
    rw [h.made s hs text htext l hl, h'.made s ((hsame s).2 hs) text htext l hl]
  · have hfree : ∀ s ∈ sources, ∀ text, Yields w options fs s text →
        l ≠ scaffoldLocation w options s ∧ l ∉ scaffoldWay w options s := fun s hs text htext =>
      ⟨fun heq => hwritten ⟨s, hs, text, htext, heq⟩, fun hl => hmade ⟨s, hs, text, htext, hl⟩⟩
    rw [h.kept l hfree, h'.kept l fun s hs => hfree s ((hsame s).1 hs)]

/-- Before anything is done, nothing is overlaid. -/
theorem overlaid_nil (fs : FileSystem) : Overlaid w options fs [] fs where
  written := fun _ hs => nomatch hs
  made := fun _ hs => nomatch hs
  kept := fun _ _ => rfl

/-- A source file without a scaffold adds nothing. -/
theorem Overlaid.append_of_not_yields (h : Overlaid w options fs done fs')
    (hnone : ¬∃ text, Yields w options fs source text) :
    Overlaid w options fs (done ++ [source]) fs' := by
  have hcases : ∀ s ∈ done ++ [source], ∀ text, Yields w options fs s text → s ∈ done := by
    intro s hs text hyield
    refine (List.mem_append.1 hs).resolve_right fun hlast => ?_
    rw [List.mem_singleton.1 hlast] at hyield
    exact hnone ⟨text, hyield⟩
  exact
    { written := fun s hs text hyield => h.written s (hcases s hs text hyield) text hyield
      made := fun s hs text hyield => h.made s (hcases s hs text hyield) text hyield
      kept := fun l hl => h.kept l fun s hs => hl s (List.mem_append_left _ hs) }

section Step

variable (hall : Apart w options fs sources) (hdone : ∀ s ∈ done, s ∈ sources)
  (hsource : source ∈ sources) (h : Overlaid w options fs done fs')

include hall hdone h

/-- What is overlaid with scaffolds keeps the directories. -/
theorem Overlaid.entryAt?_of_directory {l : Location} (hl : fs.entryAt? l = some .directory) :
    fs'.entryAt? l = some .directory := by
  by_cases hmade : ∃ s ∈ done, ∃ text, Yields w options fs s text ∧ l ∈ scaffoldWay w options s
  · obtain ⟨s, hs, text, htext, hin⟩ := hmade
    exact h.made s hs text htext l hin
  · rw [h.kept l, hl]
    intro s hs text htext
    refine ⟨?_, fun hin => hmade ⟨s, hs, text, htext, hin⟩⟩
    rintro rfl
    exact (hall.admits s (hdone s hs)).file hl

include hsource

/-- The scaffold of another source file can still be written. -/
theorem Overlaid.admits (hnew : ∀ s ∈ done, scaffoldLocation w options s ≠ scaffoldLocation w options source) :
    fs'.Admits w.cwd (targetPath options.outDir source) := by
  have hadmits := hall.admits source hsource
  refine ⟨h.entryAt?_of_directory hall hdone hadmits.origin, fun l hl => ?_, ?_, hadmits.short⟩
  · by_cases hmade : ∃ s ∈ done, ∃ text, Yields w options fs s text ∧ l ∈ scaffoldWay w options s
    · obtain ⟨s, hs, text, htext, hin⟩ := hmade
      exact Or.inr (h.made s hs text htext l hin)
    · rw [AdmitsDirectory, h.kept l]
      · exact hadmits.way l hl
      · intro s hs text htext
        refine ⟨?_, fun hin => hmade ⟨s, hs, text, htext, hin⟩⟩
        rintro rfl
        exact hall.clear s (hdone s hs) source hsource hl
  · show fs'.entryAt? (scaffoldLocation w options source) ≠ _
    rw [h.kept]
    · exact hadmits.file
    · intro s hs _ _
      exact ⟨fun heq => hnew s hs heq.symm, hall.clear source hsource s (hdone s hs)⟩

/-- Another source file is read as at the beginning. -/
theorem Overlaid.scaffoldText_eq :
    scaffoldText w options fs' source = scaffoldText w options fs source := by
  have hfile := hall.files source hsource
  refine scaffoldText_congr hfile (fun l hl => h.entryAt?_of_directory hall hdone hl) (h.kept _ ?_)
  intro s hs text _
  refine ⟨(hall.foreign s (hdone s hs) source hsource).symm, fun hin => ?_⟩
  -- Where a directory stands or can be made, there is no source file.
  obtain ⟨-, content, hentry⟩ := isFile_eq_true_iff.1 hfile
  rcases (hall.admits s (hdone s hs)).way _ hin with hnone | hdirectory
  · cases hentry.symm.trans hnone
  · cases hentry.symm.trans hdirectory

/-- A source file adds its scaffold if this is written. -/
theorem Overlaid.append_of_addsFile {text : String} {fs'' : FileSystem}
    (hnew : ∀ s ∈ done, scaffoldLocation w options s ≠ scaffoldLocation w options source)
    (hyield : Yields w options fs source text)
    (hadds : AddsFile w.cwd (targetPath options.outDir source) text.toUTF8 fs' fs'') :
    Overlaid w options fs (done ++ [source]) fs'' := by
  constructor
  · intro s hs text' hyield'
    rcases List.mem_append.1 hs with hs | hs
    · rw [hadds.kept _ (hnew s hs) (hall.clear s (hdone s hs) source hsource)]
      exact h.written s hs text' hyield'
    · obtain rfl := List.mem_singleton.1 hs
      rw [hyield'.unique hyield]
      exact hadds.written
  · intro s hs text' hyield' l hl
    by_cases hin : l ∈ scaffoldWay w options source
    · exact hadds.made l hin
    · rcases List.mem_append.1 hs with hs | hs
      · rw [hadds.kept l _ hin]
        · exact h.made s hs text' hyield' l hl
        · rintro rfl
          exact hall.clear source hsource s (hdone s hs) hl
      · obtain rfl := List.mem_singleton.1 hs
        exact absurd hl hin
  · intro l hl
    obtain ⟨hne, hnotOn⟩ := hl source (List.mem_append_right _ (List.mem_singleton_self _)) text hyield
    rw [hadds.kept l hne hnotOn]
    exact h.kept l fun s hs => hl s (List.mem_append_left _ hs)

/-- **One more source file adds its scaffold**, or nothing if it has none. -/
theorem Overlaid.scaffoldFile
    (hnew : ∀ s ∈ done, scaffoldLocation w options s ≠ scaffoldLocation w options source) :
    ∃ fs'', scaffoldFile w options fs' source = (fs'', [.processing source, outcome w options fs source]) ∧
      Overlaid w options fs (done ++ [source]) fs'' := by
  have hread := h.scaffoldText_eq hall hdone hsource
  have hyields : ∀ text, scaffoldText w options fs source = .ok text ↔ Yields w options fs source text :=
    fun text => scaffoldText_eq_ok_iff (hall.files source hsource)
  cases htext : scaffoldText w options fs source with
  | error e =>
    refine ⟨fs', by simp only [TestScaffold.scaffoldFile, writeScaffold, hread, htext, outcome], ?_⟩
    refine h.append_of_not_yields ?_
    rintro ⟨text, hyield⟩
    cases htext.symm.trans ((hyields text).2 hyield)
  | ok text =>
    obtain ⟨parent, hparent, htrim, -⟩ := exists_parent?_targetPath options.outDir source
    have hnotEmpty : (targetPath options.outDir source).parts ≠ [] := by
      rw [targetPath, Path.child_eq]
      simp
    obtain ⟨fs'', hwrite, hadds⟩ := exists_writeText text htrim hparent hnotEmpty
      (h.admits hall hdone hsource hnew) (hall.clear source hsource source hsource)
    refine ⟨fs'', by simp only [TestScaffold.scaffoldFile, writeScaffold, hread, htext, outcome, hwrite], ?_⟩
    exact h.append_of_addsFile hall hdone hsource hnew ((hyields text).1 htext) hadds

end Step

/-- **A run adds the scaffolds of its source files**, and reports on each of them.

**Proof sketch.** By induction on the source files that are left, where the files so far are overlaid with
the scaffolds of those that are done. -/
theorem overlaid_scaffoldFiles {rest : List Path} (hall : Apart w options fs (done ++ rest))
    (h : Overlaid w options fs done fs') :
    ∃ fs'', scaffoldFiles w options fs' rest =
        (fs'', rest.flatMap fun s => [.processing s, outcome w options fs s]) ∧
      Overlaid w options fs (done ++ rest) fs'' := by
  induction rest generalizing done fs' with
  | nil =>
    rw [List.append_nil]
    exact ⟨fs', rfl, h⟩
  | cons source rest ih =>
    have hnew : ∀ s ∈ done, scaffoldLocation w options s ≠ scaffoldLocation w options source := fun s hs =>
      (List.pairwise_append.1 hall.distinct).2.2 s hs source List.mem_cons_self
    obtain ⟨fs₁, hstep, h₁⟩ := h.scaffoldFile hall (fun s hs => List.mem_append_left _ hs)
      (List.mem_append_right _ List.mem_cons_self) hnew
    rw [List.append_cons] at hall ⊢
    obtain ⟨fs₂, hrest, h₂⟩ := ih hall h₁
    refine ⟨fs₂, ?_, h₂⟩
    rw [scaffoldFiles, hstep]
    dsimp only
    rw [hrest]
    rfl

/-- What is reported on a source file: that its scaffold is written, or that there is none. -/
theorem outcome_cases (options : Options) (hfile : fs.isFile w.cwd source = true) :
    ((∃ text, Yields w options fs source text) ∧
        outcome w options fs source = .wrote (targetPath options.outDir source)) ∨
      ((¬∃ text, Yields w options fs source text) ∧ ∃ e, outcome w options fs source = .failed source e) := by
  have hyields : ∀ text, scaffoldText w options fs source = .ok text ↔ Yields w options fs source text :=
    fun text => scaffoldText_eq_ok_iff hfile
  unfold outcome
  cases htext : scaffoldText w options fs source with
  | ok text => exact Or.inl ⟨⟨text, (hyields text).1 htext⟩, rfl⟩
  | error e =>
    refine Or.inr ⟨?_, e, rfl⟩
    rintro ⟨text, hyield⟩
    cases htext.symm.trans ((hyields text).2 hyield)

/-- A failure is reported on the source files that have no scaffold. -/
theorem isFailure_outcome_iff (hfile : fs.isFile w.cwd source = true) :
    (outcome w options fs source).isFailure = true ↔ ¬∃ text, Yields w options fs source text := by
  rcases outcome_cases options hfile with ⟨hyields, htold⟩ | ⟨hnone, e, htold⟩
  · simp [htold, Event.isFailure, hyields]
  · simp [htold, Event.isFailure, hnone]

/-- A run for source files that keep apart adds their scaffolds, and reports on each source file what is told
from the initial files. -/
theorem overlaid_scaffoldReport (h : Apart w options fs sources) :
    Overlaid w options fs sources (scaffoldReport w options fs sources).fs ∧
      (scaffoldReport w options fs sources).events =
        sources.flatMap fun s => [.processing s, outcome w options fs s] := by
  obtain ⟨final, hfiles, hfinal⟩ := overlaid_scaffoldFiles (List.nil_append sources ▸ h) (overlaid_nil fs)
  rw [scaffoldReport, hfiles]
  exact ⟨hfinal, rfl⟩

/-- A failure is reported if a source file has no scaffold. -/
theorem exists_isFailure_iff (h : Apart w options fs sources) :
    (∃ e ∈ (scaffoldReport w options fs sources).events, e.isFailure = true) ↔
      ∃ s ∈ sources, ¬∃ text, Yields w options fs s text := by
  rw [(overlaid_scaffoldReport h).2]
  constructor
  · rintro ⟨e, he, hfails⟩
    obtain ⟨s, hs, he⟩ := List.mem_flatMap.1 he
    rcases List.mem_pair.1 he with rfl | rfl
    · cases hfails
    · exact ⟨s, hs, (isFailure_outcome_iff (h.files s hs)).1 hfails⟩
  · rintro ⟨s, hs, hnone⟩
    exact ⟨_, List.mem_flatMap.2 ⟨s, hs, List.mem_pair.2 (Or.inr rfl)⟩,
      (isFailure_outcome_iff (h.files s hs)).2 hnone⟩

/-- A run fails if it has reported a failure. -/
theorem exitCode_eq (r : Report) : r.exitCode = if ∃ e ∈ r.events, e.isFailure = true then 2 else 0 := by
  rw [Report.exitCode, failureCode]
  simp only [List.any_eq_true]

end Runs

/-- **The outcome of a run** for source files that keep apart, told from the initial files. Afterwards the
files are the initial ones but for the scaffold of every source file that has one, and for the directories
that lead there. For each source file in turn, the run reports that it is processed, and then either that its
scaffold is written, if it has one, or that it fails. The exit code is two if a source file has no scaffold,
else zero. In whatever order the source files are taken, the files and the exit code are the same. A run that
has chosen these source files is such a run.

**Proof sketch.** While a run goes on, the files are overlaid with the scaffolds of those source files that
are done. A source file that is left is read as at the beginning, for no scaffold and no new directory stands
where it is or on the way to it; and its scaffold can still be written, for no other scaffold is in its
way. -/
theorem scaffoldReport_of_apart {w : Workspace} {options : Options} {fs : FileSystem} {sources : List Path}
    (h : Apart w options fs sources) :
    Overlaid w options fs sources (scaffoldReport w options fs sources).fs ∧
      (∃ told : Path → Event,
        (scaffoldReport w options fs sources).events = sources.flatMap (fun s => [.processing s, told s]) ∧
        ∀ s ∈ sources,
          ((∃ text, Yields w options fs s text) ∧ told s = .wrote (targetPath options.outDir s)) ∨
            ((¬∃ text, Yields w options fs s text) ∧ ∃ e, told s = .failed s e)) ∧
      ((∃ s ∈ sources, ¬∃ text, Yields w options fs s text) →
        (scaffoldReport w options fs sources).exitCode = 2) ∧
      ((∀ s ∈ sources, ∃ text, Yields w options fs s text) →
        (scaffoldReport w options fs sources).exitCode = 0) ∧
      (∀ sources' : List Path, sources'.Perm sources →
        (∀ l, (scaffoldReport w options fs sources').fs.entryAt? l =
            (scaffoldReport w options fs sources).fs.entryAt? l) ∧
          (scaffoldReport w options fs sources').exitCode =
            (scaffoldReport w options fs sources).exitCode) ∧
      (sourceFiles w options fs = .ok sources →
        run w options fs = scaffoldReport w options fs sources) := by
  obtain ⟨hoverlaid, hevents⟩ := overlaid_scaffoldReport h
  refine ⟨hoverlaid, ⟨_, hevents, fun s hs => outcome_cases options (h.files s hs)⟩, ?_, ?_, ?_, ?_⟩
  · intro hfailed
    rw [exitCode_eq, if_pos ((exists_isFailure_iff h).2 hfailed)]
  · intro hwritten
    rw [exitCode_eq, if_neg fun hfailed => ?_]
    obtain ⟨s, hs, hnone⟩ := (exists_isFailure_iff h).1 hfailed
    exact hnone (hwritten s hs)
  · intro sources' hperm
    have h' := h.perm hperm
    refine ⟨hoverlaid.entryAt?_eq (overlaid_scaffoldReport h').1 fun s => hperm.mem_iff, ?_⟩
    rw [exitCode_eq, exitCode_eq]
    congr 1
    rw [exists_isFailure_iff h', exists_isFailure_iff h]
    simp only [hperm.mem_iff]
  · intro hsources
    rw [run, hsources]
    rfl

/-- Two empty files, of which one is a style sheet. -/
def sheetFiles : FileSystem := ⟨[(["a.js"], .file .empty), (["b.css"], .file .empty)]⟩

/-- A workspace in which every module is taken for an empty one. -/
def emptyWorkspace : Workspace := ⟨[], { parser := .ofListing [.make 0 1 "program" 0 0 none] }⟩

/-- The options of a run over these files. -/
def sheetOptions : Options := ⟨["*"], .jest, ⟨false, ["out"]⟩⟩

/-- A style sheet has no scaffold and makes a run fail, but the script beside it has one. -/
theorem scaffoldReport_of_apart_sheet :
    Apart emptyWorkspace sheetOptions sheetFiles [⟨false, ["a.js"]⟩, ⟨false, ["b.css"]⟩] ∧
      (∃ text, (scaffoldReport emptyWorkspace sheetOptions sheetFiles
        [⟨false, ["a.js"]⟩, ⟨false, ["b.css"]⟩]).fs.entryAt? ["out", "a.spec.js"] =
          some (.file (String.toUTF8 text))) ∧
      (scaffoldReport emptyWorkspace sheetOptions sheetFiles
        [⟨false, ["b.css"]⟩, ⟨false, ["a.js"]⟩]).exitCode = 2 := by
  have hplace : scaffoldLocation emptyWorkspace sheetOptions ⟨false, ["a.js"]⟩ = ["out", "a.spec.js"] := by
    decide
  have hplace' : scaffoldLocation emptyWorkspace sheetOptions ⟨false, ["b.css"]⟩ = ["out", "b.spec.css"] := by
    decide
  have hway : scaffoldWay emptyWorkspace sheetOptions ⟨false, ["a.js"]⟩ = [[], ["out"]] := by decide
  have hway' : scaffoldWay emptyWorkspace sheetOptions ⟨false, ["b.css"]⟩ = [[], ["out"]] := by decide
  have hadmits : ∀ s, scaffoldWay emptyWorkspace sheetOptions s = [[], ["out"]] →
      sheetFiles.entryAt? (scaffoldLocation emptyWorkspace sheetOptions s) = none →
      Short (targetPath sheetOptions.outDir s) →
      sheetFiles.Admits emptyWorkspace.cwd (targetPath sheetOptions.outDir s) := by
    intro s hs hfree hshort
    refine ⟨?_, ?_, ?_, hshort⟩
    · rw [origin]
      split <;> rfl
    · rw [← scaffoldWay, hs, List.forall_mem_cons, List.forall_mem_singleton]
      exact ⟨Or.inr rfl, Or.inl rfl⟩
    · rw [← scaffoldLocation, hfree]
      exact (Option.some_ne_none _).symm
  have hyields : Yields emptyWorkspace sheetOptions sheetFiles ⟨false, ["a.js"]⟩ _ :=
    ⟨.empty, rfl, by decide, rfl⟩
  have hnone : ¬∃ text, Yields emptyWorkspace sheetOptions sheetFiles ⟨false, ["b.css"]⟩ text := by
    rintro ⟨text, content, hcontent, -, htext⟩
    cases htext
  have hapart : Apart emptyWorkspace sheetOptions sheetFiles [⟨false, ["a.js"]⟩, ⟨false, ["b.css"]⟩] := by
    refine ⟨?_, ?_, ?_, ?_, ?_⟩
    · simp only [List.forall_mem_cons]
      exact ⟨rfl, rfl, by simp⟩
    · simp [hplace, hplace']
    · simp only [List.forall_mem_cons, hplace, hplace']
      decide
    · simp only [List.forall_mem_cons]
      exact ⟨hadmits _ hway rfl (by decide), hadmits _ hway' rfl (by decide), by simp⟩
    · simp only [List.forall_mem_cons, hplace, hplace', hway, hway']
      decide
  obtain ⟨hoverlaid, -, hfails, -, hperm, -⟩ := scaffoldReport_of_apart hapart
  refine ⟨hapart, ⟨_, hplace ▸ hoverlaid.written _ List.mem_cons_self _ hyields⟩, ?_⟩
  rw [(hperm _ (List.Perm.swap _ _ _)).2]
  exact hfails ⟨_, List.mem_cons_of_mem _ List.mem_cons_self, hnone⟩

end TestScaffold
