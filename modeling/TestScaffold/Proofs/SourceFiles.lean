import Mathlib.Data.List.Forall2
import TestScaffold.Proofs.Distinct
import TestScaffold.Run.Batch

set_option autoImplicit false

/-!
# The source files of a run

The patterns of a run are expanded one after the other. Among the paths that they match, those that lead to files
and not through installed packages are source files. Each is taken where it is matched first: by the first pattern
that matches it, at the first position in the expansion of this pattern. If a pattern is not well formed, or if no
source file is matched, then the run does nothing.

## Main definitions

* `TestScaffold.MatchPlace`, `TestScaffold.MatchedAt`, `TestScaffold.FirstMatchedAt` — where paths are matched.
* `TestScaffold.IsSource` — the paths that are taken for source files.
* `TestScaffold.SelectsFiles` — the source files among what patterns match, in order.
* `TestScaffold.Gathers` — what the search for source files gives.

## Main results

* `TestScaffold.selectsFiles_iff` — there is one list of the source files, and it is the one that is selected.
* `TestScaffold.gatherFiles_eq_iff` — what the search gives.
* `TestScaffold.source_files_gathered_or_refused` — the same, and that a run without source files does nothing.
-/

namespace TestScaffold

/-! ## Where paths are matched -/

/-- A place among what patterns match: the number of the pattern and the position in its expansion, both counted
from zero. -/
structure MatchPlace where
  /-- The number of the pattern. -/
  pattern : Nat
  /-- The position in the expansion of the pattern. -/
  position : Nat
deriving DecidableEq, Repr

/-- One place comes before another: its pattern does, or the pattern is the same and its position does. -/
def MatchPlace.Precedes (a b : MatchPlace) : Prop :=
  a.pattern < b.pattern ∨ a.pattern = b.pattern ∧ a.position < b.position

/-- Of two places one comes before the other, unless they are the same. -/
theorem MatchPlace.precedes_trichotomy (a b : MatchPlace) : a.Precedes b ∨ a = b ∨ b.Precedes a := by
  obtain ⟨i, j⟩ := a
  obtain ⟨k, l⟩ := b
  simp only [Precedes, MatchPlace.mk.injEq]
  omega

/-- Of two places only one comes before the other. -/
theorem MatchPlace.Precedes.asymm {a b : MatchPlace} (h : a.Precedes b) : ¬b.Precedes a := by
  unfold Precedes at h ⊢
  omega

/-- A path stands at a place among what patterns match. -/
def MatchedAt (expansions : List (List Path)) (place : MatchPlace) (p : Path) : Prop :=
  ∃ paths, expansions[place.pattern]? = some paths ∧ paths[place.position]? = some p

/-- A path is taken for a source file if it leads to a file and through no directory of installed packages. -/
def IsSource (isFile : Path → Bool) (p : Path) : Prop :=
  isFile p = true ∧ Component.normal "node_modules" ∉ p.components

/-- A path stands at a place, and no path to the same source file stands before it. -/
structure FirstMatchedAt (isFile : Path → Bool) (expansions : List (List Path)) (place : MatchPlace) (p : Path) :
    Prop where
  /-- The path stands there. -/
  matched : MatchedAt expansions place p
  /-- No source file with the same components stands before. -/
  first : ∀ place' q, place'.Precedes place → MatchedAt expansions place' q → IsSource isFile q →
    q.components ≠ p.components

/-- `SelectsFiles isFile expansions files`: the paths are those of the source files that the expansions match, each
once, in the order in which they are matched first. -/
structure SelectsFiles (isFile : Path → Bool) (expansions : List (List Path)) (files : List Path) : Prop where
  /-- Only source files are taken. -/
  sources : ∀ p ∈ files, IsSource isFile p
  /-- No source file that is matched is left out. -/
  complete : ∀ paths ∈ expansions, ∀ p ∈ paths, IsSource isFile p → ∃ q ∈ files, q.components = p.components
  /-- No source file is taken twice. -/
  distinct : files.Pairwise fun p q => p.components ≠ q.components
  /-- Each is taken where it is matched first. -/
  matched : ∀ p ∈ files, ∃ place, FirstMatchedAt isFile expansions place p
  /-- They stand in the order of these places. -/
  ordered : files.Pairwise fun p q => ∃ a b, FirstMatchedAt isFile expansions a p ∧
    FirstMatchedAt isFile expansions b q ∧ a.Precedes b

section Selected

variable {isFile : Path → Bool} {expansions : List (List Path)} {files files' : List Path} {p q : Path}
  {a b : MatchPlace}

/-- Paths to one source file that are matched first stand at the same place. -/
theorem FirstMatchedAt.unique (hp : FirstMatchedAt isFile expansions a p)
    (hq : FirstMatchedAt isFile expansions b q) (hsame : p.components = q.components) (hps : IsSource isFile p)
    (hqs : IsSource isFile q) : a = b ∧ p = q := by
  rcases a.precedes_trichotomy b with hab | rfl | hba
  · exact absurd hsame (hq.first a p hab hp.matched hps)
  · obtain ⟨paths, hpaths, hin⟩ := hp.matched
    obtain ⟨paths', hpaths', hin'⟩ := hq.matched
    obtain rfl := Option.some.inj (hpaths.symm.trans hpaths')
    exact ⟨rfl, Option.some.inj (hin.symm.trans hin')⟩
  · exact absurd hsame.symm (hp.first b q hba hq.matched hqs)

/-- What is selected stands in every list of the source files. -/
theorem SelectsFiles.subset (h : SelectsFiles isFile expansions files) (h' : SelectsFiles isFile expansions files') :
    files ⊆ files' := by
  intro p hp
  obtain ⟨a, ha⟩ := h.matched p hp
  obtain ⟨paths, hpaths, hin⟩ := ha.matched
  obtain ⟨q, hq, hsame⟩ :=
    h'.complete paths (List.mem_of_getElem? hpaths) p (List.mem_of_getElem? hin) (h.sources p hp)
  obtain ⟨b, hb⟩ := h'.matched q hq
  obtain ⟨-, rfl⟩ := ha.unique hb hsame.symm (h.sources p hp) (h'.sources q hq)
  exact hq

/-- **There is one list of the source files.** -/
theorem SelectsFiles.eq (h : SelectsFiles isFile expansions files) (h' : SelectsFiles isFile expansions files') :
    files = files' := by
  have hnodup : ∀ {paths : List Path}, SelectsFiles isFile expansions paths → paths.Nodup := fun hs =>
    hs.distinct.imp fun hne heq => hne (by rw [heq])
  have hperm : files.Perm files' :=
    (List.perm_ext_iff_of_nodup (hnodup h) (hnodup h')).2 fun _ => ⟨(h.subset h' ·), (h'.subset h ·)⟩
  refine hperm.eq_of_pairwise ?_ h.ordered h'.ordered
  rintro p q hp hq ⟨a, b, ha, hb, hab⟩ ⟨b', a', hb', ha', hba⟩
  obtain ⟨rfl, -⟩ := ha.unique ha' rfl (h.sources p hp) (h.sources p hp)
  obtain ⟨rfl, -⟩ := hb.unique hb' rfl (h'.sources q hq) (h'.sources q hq)
  exact absurd hba hab.asymm

/-! ## What is selected -/

/-- What patterns match, each path with its place. -/
def placedMatches (expansions : List (List Path)) : List (MatchPlace × Path) :=
  expansions.zipIdx.flatMap fun (paths, i) => paths.zipIdx.map fun (p, j) => (⟨i, j⟩, p)

/-- A path is placed where it stands. -/
theorem mem_placedMatches : (a, p) ∈ placedMatches expansions ↔ MatchedAt expansions a p := by
  simp only [placedMatches, List.mem_flatMap, List.mem_map, Prod.exists, Prod.mk.injEq, MatchedAt,
    List.mk_mem_zipIdx_iff_getElem?]
  constructor
  · rintro ⟨paths, i, hpaths, q, j, hq, rfl, rfl⟩
    exact ⟨paths, hpaths, hq⟩
  · rintro ⟨paths, hpaths, hp⟩
    exact ⟨paths, a.pattern, hpaths, p, a.position, hp, rfl, rfl⟩

/-- Without their places, the paths are those of all expansions. -/
theorem map_snd_placedMatches (expansions : List (List Path)) :
    (placedMatches expansions).map (·.2) = expansions.flatten := by
  have hpaths : ∀ e : List Path × Nat,
      (e.1.zipIdx.map fun (p, j) => ((⟨e.2, j⟩ : MatchPlace), p)).map (·.2) = e.1 := by
    intro e
    rw [List.map_map]
    exact List.zipIdx_map_fst 0 e.1
  rw [placedMatches, List.map_flatMap, List.flatMap_congr fun e _ => hpaths e, List.flatMap_def,
    List.zipIdx_map_fst]

/-- The places come one before the other. -/
theorem pairwise_placedMatches (expansions : List (List Path)) :
    (placedMatches expansions).Pairwise fun x y => x.1.Precedes y.1 := by
  rw [placedMatches, List.pairwise_flatMap]
  constructor
  · intro e _
    rw [List.pairwise_map]
    exact (pairwise_zipIdx e.1).imp fun hlt => Or.inr ⟨rfl, hlt⟩
  · refine (pairwise_zipIdx expansions).imp fun hlt x hx y hy => ?_
    obtain ⟨-, -, rfl⟩ := List.mem_map.1 hx
    obtain ⟨-, -, rfl⟩ := List.mem_map.1 hy
    exact Or.inl hlt

/-- What is kept of a list in order is the first entry with its key. -/
theorem key_ne_of_mem_eraseDupsBy {α β : Type} [BEq β] [LawfulBEq β] (key : α → β) {r : α → α → Prop}
    (hasymm : ∀ x y, r x y → ¬r y x) :
    ∀ {xs : List α}, xs.Pairwise r → ∀ {x y : α}, x ∈ xs.eraseDupsBy (fun a b => key a == key b) → y ∈ xs → r y x →
      key y ≠ key x
  | [], _, x, _, hx, _, _ => nomatch hx
  | z :: xs, hordered, x, y, hx, hy, hyx => by
    have hlen := List.length_filter_le (fun b => !key b == key z) xs
    obtain ⟨hz, htail⟩ := List.pairwise_cons.1 hordered
    rw [List.eraseDupsBy_cons, List.mem_cons] at hx
    rcases hx with rfl | hx
    · -- Nothing stands before the first entry.
      rcases List.mem_cons.1 hy with rfl | hy
      · exact absurd hyx (hasymm _ _ hyx)
      · exact absurd (hz y hy) (hasymm _ _ hyx)
    · have hkept := List.mem_filter.1 ((eraseDupsBy_sublist _ _).subset hx)
      have hnew : key x ≠ key z := by simpa using hkept.2
      by_cases hkey : key y = key z
      · exact fun heq => hnew (heq ▸ hkey)
      · rcases List.mem_cons.1 hy with rfl | hy
        · exact absurd rfl hkey
        · exact key_ne_of_mem_eraseDupsBy key hasymm (htail.filter _) hx
            (List.mem_filter.2 ⟨hy, by simpa using hkey⟩) hyx
termination_by xs => xs.length

/-- The placed paths of source files. -/
def placedSources (isFile : Path → Bool) (expansions : List (List Path)) : List (MatchPlace × Path) :=
  (placedMatches expansions).filter fun e => !isInstalled e.2 && isFile e.2

/-- A path of a source file is placed where it stands. -/
theorem mem_placedSources :
    (a, p) ∈ placedSources isFile expansions ↔ MatchedAt expansions a p ∧ IsSource isFile p := by
  rw [placedSources, List.mem_filter, mem_placedMatches]
  simp [IsSource, isInstalled, and_comm]

/-- What is selected, each path with its place. -/
def placedFiles (isFile : Path → Bool) (expansions : List (List Path)) : List (MatchPlace × Path) :=
  (placedSources isFile expansions).eraseDupsBy fun x y => x.2.components == y.2.components

/-- Without their places, the paths are those that are selected. -/
theorem map_snd_placedFiles (isFile : Path → Bool) (expansions : List (List Path)) :
    (placedFiles isFile expansions).map (·.2) = selectFiles isFile expansions.flatten := by
  rw [selectFiles, ← map_snd_placedMatches, List.filter_map, eraseDupsBy_map]
  rfl

/-- The places of what is selected come one before the other. -/
theorem pairwise_placedFiles (isFile : Path → Bool) (expansions : List (List Path)) :
    (placedFiles isFile expansions).Pairwise fun x y => x.1.Precedes y.1 :=
  (pairwise_placedMatches expansions).sublist ((eraseDupsBy_sublist _ _).trans List.filter_sublist)

/-- What is selected is the path of a source file at the place where it is matched first. -/
theorem of_mem_placedFiles (h : (a, p) ∈ placedFiles isFile expansions) :
    IsSource isFile p ∧ FirstMatchedAt isFile expansions a p := by
  obtain ⟨hmatched, hsource⟩ := mem_placedSources.1 ((eraseDupsBy_sublist _ _).subset h)
  refine ⟨hsource, hmatched, fun b q hba hq hqs => ?_⟩
  exact key_ne_of_mem_eraseDupsBy (fun e : MatchPlace × Path => e.2.components)
    (fun _ _ hxy => hxy.asymm) ((pairwise_placedMatches expansions).filter _) h (mem_placedSources.2 ⟨hq, hqs⟩) hba

/-- What is selected are the source files. -/
theorem selectsFiles_selectFiles (isFile : Path → Bool) (expansions : List (List Path)) :
    SelectsFiles isFile expansions (selectFiles isFile expansions.flatten) := by
  rw [← map_snd_placedFiles]
  constructor
  · intro p hp
    obtain ⟨⟨a, q⟩, he, rfl⟩ := List.mem_map.1 hp
    exact (of_mem_placedFiles he).1
  · intro paths hpaths p hp hsource
    obtain ⟨i, hi⟩ := List.getElem?_of_mem hpaths
    obtain ⟨j, hj⟩ := List.getElem?_of_mem hp
    have hplaced := mem_placedSources.2 ⟨(⟨paths, hi, hj⟩ : MatchedAt expansions ⟨i, j⟩ p), hsource⟩
    have hkey := List.mem_eraseDups.2 (List.mem_map_of_mem (f := fun e => e.2.components) hplaced)
    rw [eraseDups_map] at hkey
    obtain ⟨⟨b, q⟩, he, hsame⟩ := List.mem_map.1 hkey
    exact ⟨q, List.mem_map_of_mem he, hsame⟩
  · have hdistinct := nodup_map_eraseDupsBy (fun e : MatchPlace × Path => e.2.components)
      (placedSources isFile expansions)
    rw [List.pairwise_map]
    exact List.pairwise_map.1 hdistinct
  · intro p hp
    obtain ⟨⟨a, q⟩, he, rfl⟩ := List.mem_map.1 hp
    exact ⟨a, (of_mem_placedFiles he).2⟩
  · rw [List.pairwise_map]
    refine (pairwise_placedFiles isFile expansions).imp_of_mem fun hx hy hxy => ?_
    exact ⟨_, _, (of_mem_placedFiles hx).2, (of_mem_placedFiles hy).2, hxy⟩

/-- **The source files are what is selected.** -/
theorem selectsFiles_iff : SelectsFiles isFile expansions files ↔ files = selectFiles isFile expansions.flatten :=
  have hselected := selectsFiles_selectFiles isFile expansions
  ⟨fun h => h.eq hselected, fun h => h ▸ hselected⟩

end Selected

/-! ## The search -/

section Search

variable {α β ε : Type} {f : α → Except ε β}

/-- All entries are mapped if each is. -/
theorem mapM_eq_ok_iff {xs : List α} {ys : List β} :
    xs.mapM f = .ok ys ↔ List.Forall₂ (fun x y => f x = .ok y) xs ys := by
  induction xs generalizing ys with
  | nil => simp [pure, Except.pure, eq_comm]
  | cons x xs ih =>
    rw [List.mapM_cons, List.forall₂_cons_left_iff]
    cases hx : f x with
    | error e => simp [bind, Except.bind]
    | ok y =>
      have hrest : (do let ys ← xs.mapM f; pure (y :: ys)) = Except.ok ys ↔
          ∃ zs, xs.mapM f = .ok zs ∧ ys = y :: zs := by
        cases xs.mapM f <;> simp [bind, Except.bind, pure, Except.pure, eq_comm]
      simp only [bind, Except.bind] at hrest ⊢
      simp only [hrest, ih, Except.ok.injEq, exists_and_left, exists_eq_left']

/-- If an entry is not mapped, the first one tells why. -/
theorem mapM_eq_error_iff {xs : List α} {e : ε} :
    xs.mapM f = .error e ↔ ∃ before x after, xs = before ++ x :: after ∧ (∀ y ∈ before, ∃ z, f y = .ok z) ∧
      f x = .error e := by
  induction xs with
  | nil => simp [pure, Except.pure]
  | cons x xs ih =>
    rw [List.mapM_cons]
    cases hx : f x with
    | error e' =>
      simp only [bind, Except.bind, Except.error.injEq]
      constructor
      · rintro rfl
        exact ⟨[], x, xs, rfl, nofun, hx⟩
      · rintro ⟨before, y, after, hsplit, hbefore, hy⟩
        cases before with
        | nil =>
          obtain ⟨rfl, -⟩ := List.cons.inj hsplit
          exact Except.error.inj (hx.symm.trans hy)
        | cons z before =>
          obtain ⟨rfl, -⟩ := List.cons.inj hsplit
          obtain ⟨w, hw⟩ := hbefore x List.mem_cons_self
          cases hx.symm.trans hw
    | ok y =>
      have hrest : (do let ys ← xs.mapM f; pure (y :: ys)) = .error e ↔ xs.mapM f = .error e := by
        cases xs.mapM f <;> simp [bind, Except.bind, pure, Except.pure]
      simp only [bind, Except.bind] at hrest ⊢
      rw [hrest, ih]
      constructor
      · rintro ⟨before, z, after, rfl, hbefore, hz⟩
        exact ⟨x :: before, z, after, rfl, List.forall_mem_cons.2 ⟨⟨y, hx⟩, hbefore⟩, hz⟩
      · rintro ⟨before, z, after, hsplit, hbefore, hz⟩
        cases before with
        | nil =>
          obtain ⟨rfl, -⟩ := List.cons.inj hsplit
          cases hx.symm.trans hz
        | cons w before =>
          obtain ⟨-, rfl⟩ := List.cons.inj hsplit
          exact ⟨before, z, after, rfl, (List.forall_mem_cons.1 hbefore).2, hz⟩

end Search

/-- `Gathers expand isFile patterns result`: the search for the source files that patterns match gives `result`,
where `expand` gives what one pattern matches. -/
inductive Gathers (expand : String → Except PatternError (List Path)) (isFile : Path → Bool)
    (patterns : List String) : Except ScaffoldError (List Path) → Prop
  /-- A pattern is not well formed, and it is the first one. -/
  | malformed {before after : List String} {pattern : String} {e : PatternError}
      (hsplit : patterns = before ++ pattern :: after) (hbefore : ∀ p ∈ before, ∃ paths, expand p = .ok paths)
      (hpattern : expand pattern = .error e) :
      Gathers expand isFile patterns (.error (.invalidPattern pattern e.text))
  /-- All patterns are well formed, and they match no source file. -/
  | nothing {expansions : List (List Path)}
      (hexpand : List.Forall₂ (fun p paths => expand p = .ok paths) patterns expansions)
      (hfiles : SelectsFiles isFile expansions []) :
      Gathers expand isFile patterns (.error (.nothingMatched (", ".intercalate patterns)))
  /-- All patterns are well formed, and they match source files. -/
  | files {expansions : List (List Path)} {files : List Path}
      (hexpand : List.Forall₂ (fun p paths => expand p = .ok paths) patterns expansions)
      (hfiles : SelectsFiles isFile expansions files) (hne : files ≠ []) :
      Gathers expand isFile patterns (.ok files)

section Gathered

variable {expand : String → Except PatternError (List Path)} {isFile : Path → Bool} {patterns : List String}

/-- Well-formed patterns are expanded. -/
theorem mapM_expand_eq_ok_iff {expansions : List (List Path)} :
    (patterns.mapM fun pattern => (expand pattern).mapError fun e => ScaffoldError.invalidPattern pattern e.text) =
        .ok expansions ↔
      List.Forall₂ (fun p paths => expand p = .ok paths) patterns expansions := by
  rw [mapM_eq_ok_iff]
  have hone : ∀ p paths, ((expand p).mapError fun e => ScaffoldError.invalidPattern p e.text) = .ok paths ↔
      expand p = .ok paths := by
    intro p paths
    cases expand p <;> simp [Except.mapError]
  simp only [hone]

/-- The first pattern that is not well formed is refused. -/
theorem mapM_expand_eq_error_iff {cause : ScaffoldError} :
    (patterns.mapM fun pattern => (expand pattern).mapError fun e => ScaffoldError.invalidPattern pattern e.text) =
        .error cause ↔
      ∃ before pattern after e, patterns = before ++ pattern :: after ∧
        (∀ p ∈ before, ∃ paths, expand p = .ok paths) ∧ expand pattern = .error e ∧
        cause = .invalidPattern pattern e.text := by
  rw [mapM_eq_error_iff]
  have hok : ∀ p, (∃ paths, ((expand p).mapError fun e => ScaffoldError.invalidPattern p e.text) = .ok paths) ↔
      ∃ paths, expand p = .ok paths := by
    intro p
    cases expand p <;> simp [Except.mapError]
  have herror : ∀ p, ((expand p).mapError fun e => ScaffoldError.invalidPattern p e.text) = .error cause ↔
      ∃ e, expand p = .error e ∧ cause = .invalidPattern p e.text := by
    intro p
    cases expand p <;> simp [Except.mapError, eq_comm]
  simp only [hok, herror, exists_and_left]

/-- **What the search for source files gives.** -/
theorem gatherFiles_eq_iff {result : Except ScaffoldError (List Path)} :
    gatherFiles expand isFile patterns = result ↔ Gathers expand isFile patterns result := by
  constructor
  · rintro rfl
    unfold gatherFiles
    cases hexpand : patterns.mapM fun pattern =>
        (expand pattern).mapError fun e => ScaffoldError.invalidPattern pattern e.text with
    | error cause =>
      obtain ⟨before, pattern, after, e, hsplit, hbefore, hpattern, rfl⟩ := mapM_expand_eq_error_iff.1 hexpand
      exact .malformed hsplit hbefore hpattern
    | ok expansions =>
      have hexpansions := mapM_expand_eq_ok_iff.1 hexpand
      have hfiles := selectsFiles_selectFiles isFile expansions
      simp only [bind, Except.bind]
      split
      · next hnil => exact .nothing hexpansions (List.isEmpty_iff.1 hnil ▸ hfiles)
      · next hne => exact .files hexpansions hfiles (mt List.isEmpty_iff.2 hne)
  · intro h
    unfold gatherFiles
    cases h with
    | malformed hsplit hbefore hpattern =>
      rw [mapM_expand_eq_error_iff.2 ⟨_, _, _, _, hsplit, hbefore, hpattern, rfl⟩]
      rfl
    | nothing hexpand hfiles =>
      rw [mapM_expand_eq_ok_iff.2 hexpand]
      simp [bind, Except.bind, ← selectsFiles_iff.1 hfiles]
    | files hexpand hfiles hne =>
      rw [mapM_expand_eq_ok_iff.2 hexpand]
      simp [bind, Except.bind, pure, Except.pure, ← selectsFiles_iff.1 hfiles, hne]

end Gathered

/-- **The source files of a run.** If a pattern is not well formed, the first such pattern is refused, even if others
match. If not, the source files are the files that the patterns match and that are not in installed packages, each
once, in the order of the first pattern that matches them and of the expansion of this pattern; none is left out. It
is an error if there are none. Where a run finds no source files for one of these reasons, all files stay as they are,
the reason is all that is reported, and the exit code is two.

**Proof sketch.** What the patterns match is listed with the places where it stands. Filtering keeps the order of
the places, and of the paths to one source file the first one is kept. A list in the order of these places is
determined by its members. -/
theorem source_files_gathered_or_refused :
    (∀ expand isFile patterns result,
      gatherFiles expand isFile patterns = result ↔ Gathers expand isFile patterns result) ∧
    ∀ (w : Workspace) (options : Options) (fs : FileSystem) (cause : ScaffoldError),
      gatherFiles (w.tools.expand fs w.cwd) (fs.isFile w.cwd) options.patterns = .error cause →
      (run w options fs).fs = fs ∧ (run w options fs).events = [.refused cause] ∧
        (run w options fs).exitCode = 2 := by
  refine ⟨fun expand isFile patterns result => gatherFiles_eq_iff, fun w options fs cause hcause => ?_⟩
  have hrun : run w options fs = ⟨fs, [.refused cause]⟩ := by
    have hsources : sourceFiles w options fs = .error cause := hcause
    rw [run, hsources]
  rw [hrun]
  exact ⟨rfl, rfl, rfl⟩

/-- A single script. -/
def scriptFiles : FileSystem := ⟨[(["a.js"], .file .empty)]⟩

/-- The options of a run with two patterns: one that matches the script, and one that is not well formed. -/
def starredOptions : Options := ⟨["*.js", "***"], .jest, ⟨false, ["out"]⟩⟩

/-- A pattern that is not well formed is refused behind one that matches a script, and nothing is done. -/
theorem source_files_refused_starred :
    Gathers (expandPattern scriptFiles []) (scriptFiles.isFile []) starredOptions.patterns
        (.error (.invalidPattern "***" (PatternError.text ⟨2, .tooManyStars⟩))) ∧
      (run ⟨[], { parser := fun _ _ => none }⟩ starredOptions scriptFiles).fs = scriptFiles ∧
      (run ⟨[], { parser := fun _ _ => none }⟩ starredOptions scriptFiles).exitCode = 2 := by
  have hcause : gatherFiles (expandPattern scriptFiles []) (scriptFiles.isFile []) starredOptions.patterns =
      .error (.invalidPattern "***" (PatternError.text ⟨2, .tooManyStars⟩)) := by
    decide +kernel
  obtain ⟨hgathers, hrun⟩ := source_files_gathered_or_refused
  obtain ⟨hfs, -, hcode⟩ := hrun ⟨[], { parser := fun _ _ => none }⟩ starredOptions scriptFiles _ hcause
  exact ⟨(hgathers _ _ _ _).1 hcause, hfs, hcode⟩

/-- Two patterns match a file in two spellings; it is taken once, as the first pattern matches it. -/
example :
    gatherFiles
      (fun pattern => .ok
        (if pattern = "lib/*.js" then [.ofString "lib/b.js", .ofString "lib/node_modules/c.js"]
          else [.ofString "lib/a.js", .ofString "lib/./b.js"]))
      (fun _ => true) ["lib/*.js", "lib/**"] = .ok [.ofString "lib/b.js", .ofString "lib/a.js"] := by
  rfl

end TestScaffold
