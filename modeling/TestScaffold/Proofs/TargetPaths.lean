import Mathlib.Data.List.Basic
import TestScaffold.Proofs.Directories
import TestScaffold.Proofs.FileNames

set_option autoImplicit false

/-!
# The paths of scaffolds

A scaffold stands below the output directory in the directories that its source file is named by. So the way
back from the scaffold leads up as many directories as lead down to it, and the source file is found again.
Two source files share a scaffold if their directories, the beginnings of their names and their extensions
agree.

## Main definitions

* `TestScaffold.specifierParts` — the parts of the path by which a scaffold imports its source file.
* `TestScaffold.Path.ReadsNames` — a reading of names as text gives names.
* `TestScaffold.replaceUnreadable` — a reading that replaces what is not text.
* `TestScaffold.SharesScaffold` — source files whose scaffolds have the same name and directories.

## Main results

* `TestScaffold.exists_parent?_targetPath` — the directory of a scaffold.
* `TestScaffold.resolve_sourceSpecifier` — a scaffold finds its source file.
* `TestScaffold.destination_targetPath_eq_iff` — which source files have one scaffold.
-/

namespace TestScaffold

/-! ## Targets -/

section Target

variable {outDir source : Path}

/-- The directories of a source file are names of entries. -/
theorem isName_of_mem_directoryNames {name : String} (h : name ∈ directoryNames source) :
    Path.IsName name := by
  unfold directoryNames at h
  cases hparent : source.parent? with
  | none =>
    rw [hparent] at h
    cases h
  | some parent =>
    rw [hparent] at h
    exact (Path.of_mem_names h).1

/-- The name of a scaffold is the name of an entry. -/
theorem isName_scaffoldName (source : Path) : Path.IsName (scaffoldName source) := by
  have hlength : 6 ≤ (scaffoldName source).toList.length := by
    have hmiddle : ".spec.".toList.length = 6 := by decide
    rw [scaffoldName, String.toList_append, String.toList_append, List.length_append, List.length_append,
      hmiddle]
    omega
  have hne : ∀ short : String, short.toList.length < 6 → scaffoldName source ≠ short := by
    rintro _ hshort rfl
    omega
  refine ⟨?_, hne ".." (by decide)⟩
  rw [Path.isTrivial, Bool.or_eq_false_iff, beq_eq_false_iff_ne, beq_eq_false_iff_ne]
  exact ⟨hne "" (by decide), hne "." (by decide)⟩

/-- The directory of a scaffold repeats those of its source file below the output directory. -/
theorem exists_parent?_targetPath (outDir source : Path) :
    ∃ parent, (targetPath outDir source).parent? = some parent ∧
      (targetPath outDir source).trim = targetPath outDir source ∧
        parent.names = outDir.names ++ directoryNames source := by
  obtain ⟨parent, hparent, htrim, hnames⟩ :=
    Path.exists_parent?_child (p := outDir.descend (directoryNames source)) (isName_scaffoldName source)
  refine ⟨parent, hparent, htrim, ?_⟩
  rw [hnames, Path.names_descend fun _ h => isName_of_mem_directoryNames h]

/-- The target of a source file leads downwards if the output directory does. -/
theorem isPlain_targetPath (h : isPlain outDir = true) : isPlain (targetPath outDir source) = true := by
  have hname := isName_scaffoldName source
  unfold isPlain at h ⊢
  rw [Bool.and_eq_true] at h ⊢
  constructor
  · rw [targetPath, Path.child_eq, Path.rooted_descend]
    exact h.1
  · rw [targetPath, Path.components_child hname.1 hname.2,
      Path.components_descend fun _ h => isName_of_mem_directoryNames h, List.all_append, List.all_append,
      h.2]
    simp [Component.name?]

/-- The parts of a specifier: as many steps upwards as there are directories, or a dot, and then names. -/
def specifierParts (depth : Nat) (names : List String) : List String :=
  (if depth = 0 then ["."] else List.replicate depth "..") ++ if names.isEmpty then [""] else names

/-- A relative specifier is written with slashes between its parts. -/
theorem upwards_append_intercalate (depth : Nat) (names : List String) :
    upwards depth ++ "/".intercalate names = "/".intercalate (specifierParts depth names) := by
  set rest := if names.isEmpty then [""] else names with hrest
  have hne : rest ≠ [] := by
    rw [hrest]
    split
    · simp
    · next h => simpa using h
  have htext : "/".intercalate names = "/".intercalate rest := by
    rw [hrest]
    split
    · next h =>
      rw [List.isEmpty_iff.1 h, String.intercalate_nil, String.intercalate_singleton]
    · rfl
  have hsteps : ∀ n : Nat, String.join (List.replicate n "../") ++ "/".intercalate rest =
      "/".intercalate (List.replicate n ".." ++ rest) := by
    intro n
    induction n with
    | zero => simp
    | succ n ih =>
      rw [List.replicate_succ, List.replicate_succ, List.cons_append,
        String.intercalate_cons_of_ne_nil (by simp [hne]), ← ih, String.join_cons, String.append_assoc]
      rfl
  rw [htext, specifierParts, upwards, ← hrest]
  split
  · rw [List.singleton_append, String.intercalate_cons_of_ne_nil hne]
    rfl
  · exact hsteps depth

/-- The parts of a specifier are read back. -/
theorem ofString_intercalate_specifierParts {depth : Nat} {names : List String}
    (h : ∀ name ∈ names, '/' ∉ name.toList) :
    Path.ofString ("/".intercalate (specifierParts depth names)) =
      ⟨false, specifierParts depth names⟩ := by
  have hslash : ∀ part ∈ specifierParts depth names, '/' ∉ part.toList := by
    intro part hpart
    rcases List.mem_append.1 hpart with hpart | hpart
    · split at hpart
      · rw [List.mem_singleton.1 hpart]
        decide
      · rw [(List.mem_replicate.1 hpart).2]
        decide
    · split at hpart
      · rw [List.mem_singleton.1 hpart]
        decide
      · exact h part hpart
  obtain ⟨first, rest, hparts, hfirst⟩ : ∃ first rest, specifierParts depth names = first :: rest ∧
      first ≠ "" := by
    unfold specifierParts
    cases depth with
    | zero => exact ⟨".", _, rfl, by decide⟩
    | succ n => exact ⟨"..", _, rfl, by decide⟩
  rw [hparts] at hslash ⊢
  exact Path.ofString_intercalate hfirst hslash

/-- The parts of a specifier lead up to the working directory and down again. -/
theorem resolve?_specifierParts {base names : List String} (h : ∀ name ∈ names, Path.IsName name) :
    Path.resolve? base (specifierParts base.length names) = some names := by
  have hrest : Path.resolve? [] (if names.isEmpty then [""] else names) = some names := by
    split
    · next hempty =>
      rw [List.isEmpty_iff.1 hempty]
      rfl
    · rw [Path.resolve?_names h, List.nil_append]
  unfold specifierParts
  split
  · next hdepth =>
    rw [List.length_eq_zero_iff.1 hdepth, List.singleton_append]
    exact hrest
  · rw [Path.resolve?_upwards, hrest]

/-- A specifier begins with a step to the directory of the scaffold or to the one above. -/
theorem dot_prefix_upwards (depth : Nat) :
    "./".toList <+: (upwards depth).toList ∨ "../".toList <+: (upwards depth).toList := by
  unfold upwards
  split
  · exact Or.inl (List.prefix_refl _)
  · next hdepth =>
    obtain ⟨n, rfl⟩ := Nat.exists_eq_succ_of_ne_zero hdepth
    rw [List.replicate_succ, String.join_cons, String.toList_append]
    exact Or.inr (List.prefix_append _ _)

end Target

/-- `Path.ReadsNames legible`: what is legible of the name of an entry could be the name of one, too. -/
def Path.ReadsNames (legible : String → String) : Prop :=
  ∀ name, Path.IsName name → '/' ∉ name.toList →
    Path.IsName (legible name) ∧ '/' ∉ (legible name).toList

/-- A reading of names in which the character NUL, which no text of a name holds, stands for a byte that is not
text. Such a byte is replaced. -/
def replaceUnreadable (name : String) : String :=
  String.ofList (name.toList.map fun c => if c = '\x00' then '\uFFFD' else c)

/-- A name in which nothing is replaced is left as it is. -/
theorem replaceUnreadable_eq_self {name : String} (h : '\uFFFD' ∉ (replaceUnreadable name).toList) :
    replaceUnreadable name = name := by
  rw [replaceUnreadable, String.toList_ofList] at h
  have hkept : ∀ c ∈ name.toList, (if c = '\x00' then '\uFFFD' else c) = c := by
    intro c hc
    split
    · next hnul =>
      have hreplaced : '\uFFFD' ∈ name.toList.map fun c => if c = '\x00' then '\uFFFD' else c :=
        List.mem_map.2 ⟨c, hc, if_pos hnul⟩
      exact absurd hreplaced h
    · rfl
  rw [replaceUnreadable, List.map_congr_left hkept, List.map_id', String.ofList_toList]

/-- What is replaced in the name of an entry leaves the name of one. -/
theorem readsNames_replaceUnreadable : Path.ReadsNames replaceUnreadable := by
  intro name hname hslash
  have hne : ∀ other : String, '\uFFFD' ∉ other.toList → name ≠ other → replaceUnreadable name ≠ other := by
    rintro _ hplain hother rfl
    exact hother (replaceUnreadable_eq_self hplain).symm
  obtain ⟨htrivial, hparent⟩ := hname
  rw [Path.isTrivial, Bool.or_eq_false_iff, beq_eq_false_iff_ne, beq_eq_false_iff_ne] at htrivial
  refine ⟨⟨?_, hne ".." (by decide) hparent⟩, ?_⟩
  · rw [Path.isTrivial, Bool.or_eq_false_iff, beq_eq_false_iff_ne, beq_eq_false_iff_ne]
    exact ⟨hne "" (by decide) htrivial.1, hne "." (by decide) htrivial.2⟩
  · rw [replaceUnreadable, String.toList_ofList, List.mem_map]
    rintro ⟨c, hc, hread⟩
    split at hread
    · exact absurd hread (by decide)
    · exact hslash (hread ▸ hc)

/-- The way through a directory whose name is not text is lost: the specifier leads to another directory. -/
example :
    sourceSpecifier replaceUnreadable ⟨true, []⟩ (targetPath (.ofString "out") (.ofString "src/\x00/a.js"))
        (.ofString "src/\x00/a.js") = "../../../src/\uFFFD/a.js" := by
  decide

/-! ## Shared scaffolds -/

/-- Two source files have scaffolds of the same name in the same directories: the names of their directories
agree, and so do their own names before the first dot and their extensions. -/
structure SharesScaffold (s t : Path) : Prop where
  /-- The same names lead to the files. -/
  directories : directoryNames s = directoryNames t
  /-- The file names begin alike. -/
  stem : Path.stemOf (s.fileName?.getD "") = Path.stemOf (t.fileName?.getD "")
  /-- The extensions are the same, where a file without one is taken for a script. -/
  extension : s.extension?.getD "js" = t.extension?.getD "js"

/-- A further name of an entry leads from a directory to this entry. -/
theorem destination_child {cwd : Location} {p : Path} {name : String} (h : Path.IsName name) :
    destination cwd (p.child name) = destination cwd p ++ [name] := by
  obtain ⟨empties, hempties, hempty⟩ := Path.parts_eq_openParts p
  have hstay : ∀ loc : Location, empties.foldl FileSystem.move loc = loc :=
    FileSystem.foldl_move_of_trivial fun part hpart => by rw [hempty part hpart]; rfl
  rw [Path.child_eq, destination, destination, hempties, List.foldl_append, List.foldl_append, hstay,
    List.foldl_cons, List.foldl_nil, FileSystem.move, h.1, if_neg Bool.false_ne_true,
    if_neg (by simpa using h.2)]

/-- Names of entries lead down. -/
theorem destination_descend {cwd : Location} {p : Path} {names : List String}
    (h : ∀ name ∈ names, Path.IsName name) :
    destination cwd (p.descend names) = destination cwd p ++ names := by
  induction names generalizing p with
  | nil => rw [List.append_nil]; rfl
  | cons name names ih =>
    obtain ⟨hname, hnames⟩ := List.forall_mem_cons.1 h
    rw [Path.descend, List.foldl_cons, ← Path.descend, ih hnames, destination_child hname,
      List.append_assoc, List.singleton_append]

/-- A scaffold stands in the directories of its source file below the output directory. -/
theorem destination_targetPath (cwd : Location) (outDir source : Path) :
    destination cwd (targetPath outDir source) =
      destination cwd outDir ++ directoryNames source ++ [scaffoldName source] := by
  rw [targetPath, destination_child (isName_scaffoldName source),
    destination_descend fun _ h => isName_of_mem_directoryNames h]

/-- The name of a scaffold begins like that of its source file. -/
theorem stemOf_scaffoldName (source : Path) :
    Path.stemOf (scaffoldName source) = Path.stemOf (source.fileName?.getD "") := by
  refine (Path.isStem_iff.1 ⟨(Path.isStem_stemOf _).noDot, Or.inr ⟨"spec." ++ source.extension?.getD "js", ?_⟩⟩).symm
  have hmiddle : ".spec." = "." ++ "spec." := by decide
  rw [scaffoldName, hmiddle]
  simp only [String.append_assoc]

/-- The name of a scaffold tells the beginning of the file name and the extension. -/
theorem scaffoldName_eq_iff {s t : Path} :
    scaffoldName s = scaffoldName t ↔
      Path.stemOf (s.fileName?.getD "") = Path.stemOf (t.fileName?.getD "") ∧
        s.extension?.getD "js" = t.extension?.getD "js" := by
  constructor
  · intro h
    have hstem : Path.stemOf (s.fileName?.getD "") = Path.stemOf (t.fileName?.getD "") := by
      rw [← stemOf_scaffoldName, h, stemOf_scaffoldName]
    refine ⟨hstem, ?_⟩
    rw [scaffoldName, scaffoldName, hstem] at h
    exact String.append_right_inj _ |>.1 h
  · rintro ⟨hstem, hextension⟩
    rw [scaffoldName, scaffoldName, hstem, hextension]

/-- **Which source files have one scaffold**: those that share it by their directories, the beginnings of
their names and their extensions. -/
theorem destination_targetPath_eq_iff {cwd : Location} {outDir s t : Path} :
    destination cwd (targetPath outDir s) = destination cwd (targetPath outDir t) ↔ SharesScaffold s t := by
  rw [destination_targetPath, destination_targetPath, List.append_assoc, List.append_assoc,
    List.append_cancel_left_eq]
  constructor
  · intro h
    obtain ⟨hdirectories, hname⟩ := List.append_inj' h (by rw [List.length_singleton, List.length_singleton])
    obtain ⟨hstem, hextension⟩ := scaffoldName_eq_iff.1 (List.singleton_inj.1 hname)
    exact ⟨hdirectories, hstem, hextension⟩
  · rintro ⟨hdirectories, hstem, hextension⟩
    rw [hdirectories, scaffoldName_eq_iff.2 ⟨hstem, hextension⟩]

end TestScaffold
