import TestScaffold.Proofs.PathParts
import TestScaffold.Run.Extent

set_option autoImplicit false

/-!
# Following paths and making directories

A path is followed from directory to directory. So it leads somewhere exactly if directories stand on its way
and no name is too long, and directories can be made on its way wherever nothing else stands. Making them
changes no other location.

## Main definitions

* `TestScaffold.FileSystem.way` — the locations that a path leads through before its destination.
* `TestScaffold.FileSystem.AdmitsDirectory` — a directory stands at a location, or nothing.
* `TestScaffold.FileSystem.AddsDirectories` — directories stand at locations, and nothing else has changed.

## Main results

* `TestScaffold.FileSystem.locate_eq_ok_iff` — when a path leads to a location.
* `TestScaffold.FileSystem.exists_createDirectories` — directories are made on the way and nowhere else.
* `TestScaffold.FileSystem.content?_createDirectories` — making directories changes no file.
-/

namespace TestScaffold

namespace FileSystem

variable {fs fs' : FileSystem} {cwd loc loc' : Location} {p q : Path} {parts : List String}

/-! ## The way of a path -/

/-- The locations at which the parts of a path are taken. -/
def passed : Location → List String → List Location
  | _, [] => []
  | loc, part :: rest => loc :: passed (move loc part) rest

/-- The location that a path is followed from. -/
def origin (cwd : Location) (p : Path) : Location := if p.rooted then [] else cwd

/-- The locations that a path leads through before its destination. -/
def way (cwd : Location) (p : Path) : List Location := passed (origin cwd p) p.parts

/-- Parts are taken one after the other. -/
theorem passed_append (loc : Location) (front rest : List String) :
    passed loc (front ++ rest) = passed loc front ++ passed (front.foldl move loc) rest := by
  induction front generalizing loc with
  | nil => rfl
  | cons part front ih => rw [List.cons_append, passed, passed, ih, List.cons_append, List.foldl_cons]

/-- Parts that mean nothing lead nowhere. -/
theorem foldl_move_of_trivial (h : ∀ part ∈ parts, Path.isTrivial part = true) (loc : Location) :
    parts.foldl move loc = loc := by
  induction parts with
  | nil => rfl
  | cons part parts ih =>
    obtain ⟨hpart, hparts⟩ := List.forall_mem_cons.1 h
    rw [List.foldl_cons, move, if_pos hpart, ih hparts]

/-- Parts that mean nothing are all taken at one location. -/
theorem eq_of_mem_passed_of_trivial (h : ∀ part ∈ parts, Path.isTrivial part = true)
    (hin : loc' ∈ passed loc parts) : loc' = loc := by
  induction parts with
  | nil => cases hin
  | cons part parts ih =>
    obtain ⟨hpart, hparts⟩ := List.forall_mem_cons.1 h
    rw [passed, move, if_pos hpart] at hin
    exact (List.mem_cons.1 hin).elim id (ih hparts)

/-- The destination of a path is where its parts lead to from its origin. -/
theorem destination_eq (cwd : Location) (p : Path) : destination cwd p = p.parts.foldl move (origin cwd p) := rfl

/-- **The way to an entry** leads to its directory and through what leads there. -/
theorem mem_way_iff_of_parent? (htrim : p.trim = p) (hparent : p.parent? = some q) :
    loc ∈ way cwd p ↔ loc ∈ destination cwd q :: way cwd q := by
  obtain ⟨hrooted, -, skipped, last, hparts, htrivial⟩ := Path.of_parent?_eq_some hparent
  rw [htrim] at hparts
  have horigin : origin cwd p = origin cwd q := by rw [origin, origin, hrooted]
  rw [way, hparts, horigin, passed_append, passed_append, List.foldl_append, ← destination_eq,
    foldl_move_of_trivial htrivial, List.mem_append, List.mem_append, List.mem_cons, ← way]
  have hlast : loc ∈ passed (destination cwd q) [last] ↔ loc = destination cwd q := List.mem_singleton
  rw [hlast]
  constructor
  · rintro ((hway | hskipped) | hlast)
    · exact Or.inr hway
    · exact Or.inl (eq_of_mem_passed_of_trivial htrivial hskipped)
    · exact Or.inl hlast
  · rintro (hlast | hway)
    · exact Or.inr hlast
    · exact Or.inl (Or.inl hway)

/-! ## Following paths -/

/-- The names of a path are not too long. -/
def Short (p : Path) : Prop := ∀ part ∈ p.parts, part.utf8ByteSize ≤ nameLimit

instance (p : Path) : Decidable (Short p) :=
  inferInstanceAs (Decidable (∀ part ∈ p.parts, part.utf8ByteSize ≤ nameLimit))

/-- A directory stands at a location, or nothing. -/
def AdmitsDirectory (fs : FileSystem) (loc : Location) : Prop :=
  fs.entryAt? loc = none ∨ fs.entryAt? loc = some .directory

/-- **When parts are followed**: a directory stands wherever a part is taken, and no part is too long. -/
theorem follow_eq_ok_iff :
    fs.follow loc parts = .ok loc' ↔
      (∀ l ∈ passed loc parts, fs.entryAt? l = some .directory) ∧
        (∀ part ∈ parts, part.utf8ByteSize ≤ nameLimit) ∧ parts.foldl move loc = loc' := by
  induction parts generalizing loc with
  | nil => simp [follow, passed]
  | cons part parts ih =>
    rw [follow, passed, List.forall_mem_cons, List.forall_mem_cons, List.foldl_cons]
    cases hentry : fs.entryAt? loc with
    | none => simp
    | some e =>
      cases e with
      | file content => simp
      | directory =>
        dsimp only
        split
        · next hlong => simp [Nat.not_le.2 hlong]
        · next hshort => rw [ih, and_iff_right rfl, and_iff_right (Nat.not_lt.1 hshort)]

/-- Where only directories are missing, what is missing is not found. -/
theorem follow_eq_notFound (hway : ∀ l ∈ passed loc parts, fs.AdmitsDirectory l)
    (hshort : ∀ part ∈ parts, part.utf8ByteSize ≤ nameLimit)
    (hmissing : ¬∀ l ∈ passed loc parts, fs.entryAt? l = some .directory) :
    fs.follow loc parts = .error .notFound := by
  induction parts generalizing loc with
  | nil => exact absurd (fun _ h => nomatch h) hmissing
  | cons part parts ih =>
    rw [passed] at hway hmissing
    obtain ⟨hloc, hway⟩ := List.forall_mem_cons.1 hway
    obtain ⟨hpart, hshort⟩ := List.forall_mem_cons.1 hshort
    rw [follow]
    rcases hloc with hnone | hdirectory
    · rw [hnone]
    · rw [hdirectory]
      dsimp only
      rw [if_neg (Nat.not_lt.2 hpart)]
      refine ih hway hshort fun hall => hmissing ?_
      exact List.forall_mem_cons.2 ⟨hdirectory, hall⟩

/-- A path that is not empty is followed from its origin. -/
theorem locate_eq_follow (h : p.rooted = false → p.parts ≠ []) :
    fs.locate cwd p = fs.follow (origin cwd p) p.parts := by
  unfold locate origin
  cases hrooted : p.rooted with
  | true => rfl
  | false => simp [h hrooted]

/-- **When a path leads to a location**: it is not empty, directories stand on its way, and no name is too
long. -/
theorem locate_eq_ok_iff :
    fs.locate cwd p = .ok loc ↔
      (p.rooted = false → p.parts ≠ []) ∧ (∀ l ∈ way cwd p, fs.entryAt? l = some .directory) ∧ Short p ∧
        destination cwd p = loc := by
  by_cases h : p.rooted = false → p.parts ≠ []
  · rw [locate_eq_follow h, follow_eq_ok_iff, and_iff_right h]
    rfl
  · rw [Classical.not_imp, not_not] at h
    simp [locate, h.1, h.2]

/-! ## Files -/

/-- A path leads to a file if directories stand on its way and a file at its destination. -/
theorem isFile_eq_true_iff :
    fs.isFile cwd p = true ↔
      fs.locate cwd p = .ok (destination cwd p) ∧
        ∃ content, fs.entryAt? (destination cwd p) = some (.file content) := by
  unfold isFile find
  cases hlocate : fs.locate cwd p with
  | error e => simp [bind, Except.bind]
  | ok loc =>
    obtain rfl := (locate_eq_ok_iff.1 hlocate).2.2.2
    simp only [bind, Except.bind, pure, Except.pure]
    cases hentry : fs.entryAt? (destination cwd p) with
    | none => simp
    | some e => cases e <;> simp

/-- A file that a path leads to is read. -/
theorem read_eq_ok {content : ByteArray} (hlocate : fs.locate cwd p = .ok loc)
    (hentry : fs.entryAt? loc = some (.file content)) : fs.read cwd p = .ok content := by
  simp only [read, find, hlocate, hentry, bind, Except.bind, pure, Except.pure]

/-- A file is written where a path leads to, unless a directory stands there. -/
theorem write_eq_ok {content : ByteArray} (hlocate : fs.locate cwd p = .ok loc)
    (hentry : fs.entryAt? loc ≠ some .directory) :
    fs.write cwd p content = .ok (fs.put loc (.file content)) := by
  simp only [write, hlocate, bind, Except.bind, pure, Except.pure]

/-- What is written is written where the path leads to. -/
theorem of_write_eq_ok {content : ByteArray} (h : fs.write cwd p content = .ok fs') :
    destination cwd p ≠ [] ∧ fs' = fs.put (destination cwd p) (.file content) := by
  unfold write at h
  cases hlocate : fs.locate cwd p with
  | error e => simp [hlocate, bind, Except.bind] at h
  | ok loc =>
    obtain rfl := (locate_eq_ok_iff.1 hlocate).2.2.2
    simp only [hlocate, bind, Except.bind, pure, Except.pure] at h
    split at h
    · cases h
    · next hentry =>
      obtain rfl := Except.ok.inj h
      refine ⟨fun hroot => hentry ?_, rfl⟩
      rw [hroot, entryAt?, if_pos rfl]

/-! ## Making directories -/

/-- Directories stand at some locations, and at no other location anything has changed. -/
structure AddsDirectories (locs : List Location) (fs fs' : FileSystem) : Prop where
  /-- The directories stand there. -/
  made : ∀ l ∈ locs, fs'.entryAt? l = some .directory
  /-- Elsewhere everything is as before. -/
  kept : ∀ l, l ∉ locs → fs'.entryAt? l = fs.entryAt? l

/-- One directory after others has been added beside these. -/
theorem AddsDirectories.cons {fs₁ : FileSystem} {locs : List Location} (h : AddsDirectories locs fs fs₁)
    (h' : AddsDirectories [loc] fs₁ fs') : AddsDirectories (loc :: locs) fs fs' where
  made := by
    intro l hl
    by_cases heq : l ∈ [loc]
    · exact h'.made l heq
    · rw [h'.kept l heq]
      exact h.made l ((List.mem_cons.1 hl).resolve_left fun h => heq (List.mem_singleton.2 h))
  kept := by
    intro l hl
    obtain ⟨hne, hnotIn⟩ := not_or.1 (mt List.mem_cons.2 hl)
    rw [h'.kept l (mt List.mem_singleton.1 hne), h.kept l hnotIn]

/-- Adding a directory changes one location. -/
theorem addsDirectories_addDirectory (h : fs.AdmitsDirectory loc) :
    AddsDirectories [loc] fs (fs.addDirectory loc) := by
  unfold addDirectory
  rcases h with hnone | hdirectory
  · have hroot : loc ≠ [] := by
      rintro rfl
      cases hnone
    rw [hnone]
    constructor
    · intro l hl
      rw [List.mem_singleton.1 hl]
      exact entryAt?_put_self fs hroot _
    · exact fun l hl => entryAt?_put_of_ne fs (mt List.mem_singleton.2 hl) _
  · rw [hdirectory]
    constructor
    · intro l hl
      rw [List.mem_singleton.1 hl]
      exact hdirectory
    · exact fun l _ => rfl

/-- No directory is made where a path leads nowhere. -/
theorem ensureDirectory_eq_notFound (hlocate : fs.locate cwd p = .error .notFound) :
    fs.ensureDirectory cwd p = .error .notFound := by
  simp [ensureDirectory, createDirectory, isDirectory, find, hlocate, bind, Except.bind]

/-- A directory is made where a path leads to, unless a file stands there. -/
theorem exists_ensureDirectory (hlocate : fs.locate cwd p = .ok loc) (hloc : fs.AdmitsDirectory loc) :
    ∃ fs', fs.ensureDirectory cwd p = .ok fs' ∧ AddsDirectories [loc] fs fs' := by
  refine ⟨fs.addDirectory loc, ?_, addsDirectories_addDirectory hloc⟩
  unfold ensureDirectory createDirectory addDirectory
  rcases hloc with hnone | hdirectory
  · simp only [hlocate, hnone, bind, Except.bind, pure, Except.pure]
  · simp [hlocate, hdirectory, bind, Except.bind, isDirectory, find, pure, Except.pure]

/-- A path without components is empty, apart from trailing parts. -/
theorem parts_eq_nil_of_components (htrim : p.trim = p) (h : p.components = []) :
    p.rooted = false ∧ p.parts = [] := by
  obtain ⟨hlead, hsteps⟩ := List.append_eq_nil_iff.1 h
  have htrivial : ∀ part ∈ p.parts, Path.isTrivial part = true := by
    intro part hpart
    by_contra hmeans
    have hnone := List.filterMap_eq_nil_iff.1 hsteps part hpart
    rw [Path.step?, if_neg hmeans] at hnone
    split at hnone <;> cases hnone
  unfold Path.lead at hlead
  split at hlead
  · cases hlead
  · next hrooted =>
    split at hlead
    · cases hlead
    · next hhead =>
      refine ⟨by simpa using hrooted, ?_⟩
      rcases Path.trim_cases p with ⟨rest, rfl, -⟩ | ⟨-, htrim'⟩
      · exact absurd (beq_self_eq_true _) hhead
      · rw [htrim] at htrim'
        rw [htrim']
        exact List.rdropWhile_eq_nil_iff.2 htrivial

/-- A path with parts has a directory. -/
theorem exists_parent?_of_parts (htrim : p.trim = p) (h : p.parts ≠ []) : ∃ q, p.parent? = some q := by
  rw [Path.parent?, htrim, if_neg (mt List.isEmpty_iff.1 h)]
  exact ⟨_, rfl⟩

/-- If directories are missing on the way of a path, they are made up to its last component, and then the last
one. -/
theorem createDirectories_eq (hcomponents : p.components ≠ [])
    (hmissing : fs.ensureDirectory cwd p = .error .notFound) (hparent : p.parent? = some q)
    (hmade : fs.createDirectories cwd q = (fs', none)) {fs'' : FileSystem}
    (hlast : fs'.ensureDirectory cwd p = .ok fs'') : fs.createDirectories cwd p = (fs'', none) := by
  rw [createDirectories, if_neg (mt List.isEmpty_iff.1 hcomponents), hmissing]
  dsimp only
  split
  · next hnone => cases hparent.symm.trans hnone
  · next q' hq' =>
    obtain rfl := Option.some.inj (hparent.symm.trans hq')
    rw [hmade]
    dsimp only
    rw [hlast]

/-- **Directories are made on the way of a path and nowhere else**, if nothing but directories stands
there.

**Proof sketch.** By induction on the number of parts. If directories stand on the whole way, then the last
one is made at once. If not, then those up to the directory of the last one are made first. -/
theorem exists_createDirectories (htrim : p.trim = p)
    (horigin : fs.entryAt? (origin cwd p) = some .directory)
    (hway : ∀ l ∈ destination cwd p :: way cwd p, fs.AdmitsDirectory l) (hshort : Short p) :
    ∃ fs', fs.createDirectories cwd p = (fs', none) ∧
      AddsDirectories (destination cwd p :: way cwd p) fs fs' := by
  induction hn : p.parts.length using Nat.strong_induction_on generalizing p with
  | _ n ih =>
  obtain ⟨hdestination, honWay⟩ := List.forall_mem_cons.1 hway
  by_cases hcomponents : p.components = []
  · obtain ⟨-, hparts⟩ := parts_eq_nil_of_components htrim hcomponents
    refine ⟨fs, by rw [createDirectories, if_pos (List.isEmpty_iff.2 hcomponents)], ?_⟩
    rw [destination_eq, way, hparts]
    exact ⟨fun l hl => by rw [List.mem_singleton.1 hl]; exact horigin, fun _ _ => rfl⟩
  · have hnotEmpty : p.rooted = false → p.parts ≠ [] := by
      intro hrooted hparts
      refine hcomponents ?_
      rw [Path.components, Path.lead, hrooted, hparts]
      rfl
    by_cases hdirectories : ∀ l ∈ way cwd p, fs.entryAt? l = some .directory
    · have hlocate := locate_eq_ok_iff.2 ⟨hnotEmpty, hdirectories, hshort, rfl⟩
      obtain ⟨fs', hlast, hadds⟩ := exists_ensureDirectory hlocate hdestination
      refine ⟨fs', ?_, AddsDirectories.cons ⟨hdirectories, fun _ _ => rfl⟩ hadds⟩
      rw [createDirectories, if_neg (mt List.isEmpty_iff.1 hcomponents), hlast]
    · have hmissing : fs.ensureDirectory cwd p = .error .notFound := by
        refine ensureDirectory_eq_notFound ?_
        rw [locate_eq_follow hnotEmpty]
        exact follow_eq_notFound honWay hshort hdirectories
      have hparts : p.parts ≠ [] := by
        intro hnil
        rw [way, hnil] at hdirectories
        exact hdirectories fun _ hl => absurd hl List.not_mem_nil
      obtain ⟨q, hparent⟩ := exists_parent?_of_parts htrim hparts
      obtain ⟨hrooted, hqtrim, skipped, last, hsplit, -⟩ := Path.of_parent?_eq_some hparent
      have hsame : origin cwd q = origin cwd p := by rw [origin, origin, hrooted]
      have hqshort : Short q := by
        intro part hpart
        refine hshort part ?_
        rw [← htrim, hsplit]
        exact List.mem_append_left _ (List.mem_append_left _ hpart)
      have honWay' : ∀ l, l ∈ way cwd p ↔ l ∈ destination cwd q :: way cwd q := fun _ =>
        mem_way_iff_of_parent? htrim hparent
      obtain ⟨fs₁, hmade, hadds₁⟩ := ih q.parts.length (hn ▸ Path.length_parts_parent_lt hparent) hqtrim
        (hsame ▸ horigin) (fun l hl => honWay l ((honWay' l).2 hl)) hqshort rfl
      have hadds : AddsDirectories (way cwd p) fs fs₁ :=
        ⟨fun l hl => hadds₁.made l ((honWay' l).1 hl), fun l hl => hadds₁.kept l (mt (honWay' l).2 hl)⟩
      have hdestination₁ : fs₁.AdmitsDirectory (destination cwd p) := by
        by_cases hin : destination cwd p ∈ way cwd p
        · exact Or.inr (hadds.made _ hin)
        · rw [AdmitsDirectory, hadds.kept _ hin]
          exact hdestination
      have hlocate₁ := locate_eq_ok_iff.2 ⟨hnotEmpty, hadds.made, hshort, rfl⟩
      obtain ⟨fs', hlast, hadds'⟩ := exists_ensureDirectory hlocate₁ hdestination₁
      exact ⟨fs', createDirectories_eq hcomponents hmissing hparent hmade hlast, hadds.cons hadds'⟩

/-! ## What making directories leaves alone -/

/-- A directory that is made changes no file. -/
theorem content?_of_ensureDirectory (h : fs.ensureDirectory cwd p = .ok fs') (l : Location) :
    fs'.content? l = fs.content? l := by
  unfold ensureDirectory at h
  split at h
  · next fs₁ hcreate =>
    obtain rfl := Except.ok.inj h
    unfold createDirectory at hcreate
    cases hlocate : fs.locate cwd p with
    | error e => simp [hlocate, bind, Except.bind] at hcreate
    | ok loc =>
      simp only [hlocate, bind, Except.bind, pure, Except.pure] at hcreate
      split at hcreate
      · cases hcreate
      · next hnone =>
        obtain rfl := Except.ok.inj hcreate
        have hroot : loc ≠ [] := by
          rintro rfl
          cases hnone
        unfold content?
        by_cases heq : l = loc
        · rw [heq, entryAt?_put_self fs hroot, hnone]
        · rw [entryAt?_put_of_ne fs heq]
  · split at h
    · obtain rfl := Except.ok.inj h
      rfl
    · cases h

/-- **Making directories changes no file**, whether it succeeds or not. -/
theorem content?_createDirectories (fs : FileSystem) (cwd : Location) (p : Path) (l : Location) :
    (fs.createDirectories cwd p).1.content? l = fs.content? l := by
  induction hn : p.parts.length using Nat.strong_induction_on generalizing p with
  | _ n ih =>
  rw [createDirectories]
  split
  · rfl
  · split
    · next fs' hlast => exact content?_of_ensureDirectory hlast l
    · split
      · rfl
      · next q hparent =>
        have hq := ih q.parts.length (hn ▸ Path.length_parts_parent_lt hparent) q rfl
        dsimp only
        split
        · next fs' fault hmade =>
          rw [hmade] at hq
          exact hq
        · next fs' hmade =>
          rw [hmade] at hq
          split
          · next fs'' hlast => rw [content?_of_ensureDirectory hlast, hq]
          · exact hq
    · rfl

end FileSystem

end TestScaffold
