import Mathlib.Data.List.DropRight
import TestScaffold.Proofs.TargetPaths

set_option autoImplicit false

/-!
# Scaffolds stay below the output directory

The path of a scaffold begins as the path of the output directory and leads only downwards from there, wherever
the path of the source file leads. Paths are told here by what they mean: a directory by the components before
the last one, and the path that is written down by its text.

## Main definitions

* `TestScaffold.Path.Written` — paths that a text can be.

## Main results

* `TestScaffold.Path.components_of_parent?` — a directory has all components but the last one.
* `TestScaffold.Path.ofString_text` — a path is read back from its text.
* `TestScaffold.targetPath_below_outDir` — the path of a scaffold.
-/

namespace TestScaffold

namespace Path

variable {p q : Path} {rooted : Bool} {front : List String} {part last : String}

/-! ## The components of a directory -/

/-- A last part other than a dot does not change how a path begins. -/
theorem lead_concat (h : last ≠ ".") : lead ⟨rooted, front ++ [last]⟩ = lead ⟨rooted, front⟩ := by
  cases front with
  | nil => simp [lead, h]
  | cons first rest => rfl

/-- A last part that means something is one more component, and not the step to the root directory. -/
theorem components_concat (h : isTrivial last = false) :
    ∃ c, c ≠ .root ∧ components ⟨rooted, front ++ [last]⟩ = components ⟨rooted, front⟩ ++ [c] := by
  have hdot : last ≠ "." := by
    rintro rfl
    cases h
  have hstep : ∃ c, c ≠ .root ∧ step? last = some c := by
    unfold step?
    rw [h, if_neg Bool.false_ne_true]
    split
    · exact ⟨.parent, Component.noConfusion, rfl⟩
    · exact ⟨.normal last, Component.noConfusion, rfl⟩
  obtain ⟨c, hroot, hc⟩ := hstep
  refine ⟨c, hroot, ?_⟩
  rw [components, components, lead_concat hdot, List.filterMap_append, List.append_assoc]
  simp [hc]

/-- Trailing parts that mean nothing are no components. -/
theorem components_trim (p : Path) : p.trim.components = p.components := by
  obtain ⟨hrooted, skipped, hskipped, htrivial⟩ := parts_eq_trim p
  have hlead : p.trim.lead = p.lead := by
    rcases trim_cases p with ⟨rest, rfl, htrim⟩ | ⟨hhead, htrim⟩
    · rw [htrim]
      rfl
    · unfold lead
      rw [hrooted]
      split
      · rfl
      · next hrelative =>
        -- A path that does not begin with a dot does not either when parts at its end are left out.
        have hdot : p.parts.head? ≠ some "." := hhead (by simpa using hrelative)
        have hdot' : p.trim.parts.head? ≠ some "." := by
          intro heq
          refine hdot ?_
          rw [hskipped, List.head?_append, heq]
          rfl
        rw [if_neg (by simpa using hdot'), if_neg (by simpa using hdot)]
  rw [components, components, hlead, hskipped, List.filterMap_append, filterMap_step?_of_trivial htrivial,
    List.append_nil]

/-- The last part of a path that trailing parts are left out of means something, unless the path is a dot. -/
theorem trim_eq_dot_or_concat (h : p.trim = p) :
    p.parts = [] ∨ p = ⟨false, ["."]⟩ ∨ ∃ front last, p.parts = front ++ [last] ∧ isTrivial last = false := by
  have hkept : ∀ parts : List String, dropTrailing parts = parts → parts ≠ [] →
      ∃ front last, parts = front ++ [last] ∧ isTrivial last = false := by
    intro parts hparts hne
    refine ⟨parts.dropLast, parts.getLast hne, (List.dropLast_concat_getLast hne).symm, ?_⟩
    simpa using List.rdropWhile_eq_self_iff.1 hparts hne
  rcases trim_cases p with ⟨rest, rfl, htrim⟩ | ⟨-, htrim⟩
  · rw [htrim] at h
    have hrest : dropTrailing rest = rest := (List.cons.inj (Path.mk.inj h).2).2
    by_cases hnil : rest = []
    · exact Or.inr (Or.inl (by rw [hnil]))
    · obtain ⟨front, last, hparts, hlast⟩ := hkept rest hrest hnil
      exact Or.inr (Or.inr ⟨"." :: front, last, by rw [hparts, List.cons_append], hlast⟩)
  · rw [htrim] at h
    by_cases hnil : p.parts = []
    · exact Or.inl hnil
    · exact Or.inr (Or.inr (hkept p.parts (congrArg Path.parts h) hnil))

/-- **A directory has all components but the last one**, which is not the step to the root directory. -/
theorem components_of_parent? (h : p.parent? = some q) :
    ∃ c, c ≠ .root ∧ p.components = q.components ++ [c] := by
  unfold parent? at h
  split at h
  · cases h
  · next hne =>
    obtain rfl := Option.some.inj h
    rw [← components_trim p, components_trim ⟨p.rooted, p.trim.parts.dropLast⟩]
    have hrooted : p.rooted = p.trim.rooted := (parts_eq_trim p).1.symm
    rcases trim_eq_dot_or_concat (trim_trim p) with hnil | hdot | ⟨front, last, hparts, hlast⟩
    · exact absurd (List.isEmpty_iff.2 hnil) hne
    · rw [hrooted, hdot]
      exact ⟨.current, Component.noConfusion, rfl⟩
    · have htrim : p.trim = ⟨p.rooted, front ++ [last]⟩ := by rw [← hparts, hrooted]
      rw [htrim, List.dropLast_concat]
      exact components_concat hlast

/-- A path without a directory leads to the root directory or nowhere. -/
theorem components_of_parent?_eq_none (h : p.parent? = none) : p.components = [] ∨ p.components = [.root] := by
  unfold parent? at h
  split at h
  · next hnil =>
    rw [← components_trim, components, lead, List.isEmpty_iff.1 hnil]
    cases p.trim.rooted with
    | true => exact Or.inr rfl
    | false => exact Or.inl rfl
  · cases h

/-- The directories of a file are the names among the components before the last one. -/
theorem directoryNames_eq (p : Path) :
    directoryNames p = p.components.dropLast.filterMap Component.name? := by
  unfold directoryNames
  cases hparent : p.parent? with
  | none =>
    rcases components_of_parent?_eq_none hparent with hnil | hroot
    · rw [hnil]
      rfl
    · rw [hroot]
      rfl
  | some q =>
    obtain ⟨c, -, hcomponents⟩ := components_of_parent? hparent
    rw [hcomponents, List.dropLast_concat]
    rfl

/-! ## Written paths -/

/-- A path that a text can be: no part holds a slash, and a path that does not begin with a slash does not begin
with an empty part. -/
structure Written (p : Path) : Prop where
  /-- The parts stand between the slashes. -/
  noSlash : ∀ part ∈ p.parts, '/' ∉ part.toList
  /-- An empty first part would be read as a leading slash. -/
  begins : p.rooted = false → p.parts.head? ≠ some ""

/-- The path of a text is written. -/
theorem written_ofString (s : String) : (ofString s).Written := by
  refine ⟨fun part => slash_not_mem_of_mem_parts, ?_⟩
  unfold ofString
  split
  · exact fun hrooted => nomatch hrooted
  · next cs hcs =>
    intro _ hhead
    cases hlist : s.toList with
    | nil =>
      rw [hlist] at hhead
      cases hhead
    | cons c rest =>
      have hslash : (c == '/') = false := beq_eq_false_iff_ne.2 fun heq => hcs rest (by rw [hlist, heq])
      rw [hlist, split, if_neg (by simp), List.splitOn_cons_eq_if_modifyHead, hslash,
        if_neg Bool.false_ne_true] at hhead
      cases hpieces : rest.splitOn '/' with
      | nil => simp [hpieces] at hhead
      | cons piece pieces => simp [hpieces] at hhead

/-- A name behind a written path makes a written path. -/
theorem Written.child {name : String} (h : p.Written) (hname : IsName name) (hslash : '/' ∉ name.toList) :
    (p.child name).Written := by
  obtain ⟨empties, hempties, -⟩ := parts_eq_openParts p
  rw [child_eq]
  constructor
  · intro part hpart
    rcases List.mem_append.1 hpart with hpart | hpart
    · exact h.noSlash part (hempties ▸ List.mem_append_left _ hpart)
    · rwa [List.mem_singleton.1 hpart]
  · intro hrooted
    cases hopen : p.openParts with
    | nil =>
      intro heq
      obtain rfl : name = "" := Option.some.inj heq
      exact absurd hname.1 (by decide)
    | cons first rest =>
      have hbegins := h.begins hrooted
      rw [hempties, hopen] at hbegins
      exact hbegins

/-- Names behind a written path make a written path. -/
theorem Written.descend {names : List String} (h : p.Written) (hnames : ∀ name ∈ names, IsName name)
    (hslash : ∀ name ∈ names, '/' ∉ name.toList) : (p.descend names).Written := by
  induction names generalizing p with
  | nil => exact h
  | cons name names ih =>
    obtain ⟨hname, hnames⟩ := List.forall_mem_cons.1 hnames
    obtain ⟨hfirst, hslash⟩ := List.forall_mem_cons.1 hslash
    exact ih (h.child hname hfirst) hnames hslash

/-- **A path is read back from its text**, if it does not end with a slash. -/
theorem ofString_text (h : p.Written) (hlast : p.parts.getLast? ≠ some "") : ofString p.text = p := by
  obtain ⟨rooted, parts⟩ := p
  cases rooted with
  | false =>
    have htext : text ⟨false, parts⟩ = "/".intercalate parts := String.empty_append
    rw [htext]
    cases parts with
    | nil => rfl
    | cons first rest => exact ofString_intercalate (fun heq => h.begins rfl (by rw [heq]; rfl)) h.noSlash
  | true =>
    have htext : (text ⟨true, parts⟩).toList = '/' :: ['/'].intercalate (parts.map String.toList) := by
      simp [text, String.toList_intercalate]
    have hsplit : split (['/'].intercalate (parts.map String.toList)) = parts := by
      cases parts with
      | nil => rfl
      | cons first rest =>
        have hpieces : ∀ cs ∈ (first :: rest).map String.toList, '/' ∉ cs := by
          intro cs hcs
          obtain ⟨part, hpart, rfl⟩ := List.mem_map.1 hcs
          exact h.noSlash part hpart
        have hread := List.splitOn_intercalate '/' hpieces (by simp)
        -- Only a single empty part is written as nothing.
        have hne : ['/'].intercalate ((first :: rest).map String.toList) ≠ [] := by
          intro hnil
          rw [hnil, List.splitOn_nil] at hread
          obtain ⟨hfirst, hrest⟩ := List.cons.inj hread
          rw [eq_comm, List.map_eq_nil_iff] at hrest
          rw [eq_comm, String.toList_eq_nil_iff] at hfirst
          exact hlast (by rw [hfirst, hrest]; rfl)
        rw [split, if_neg (mt List.isEmpty_iff.1 hne), hread, List.map_map]
        simp
    unfold ofString
    rw [htext]
    exact congrArg (Path.mk true) hsplit

end Path

/-! ## The path of a scaffold -/

section Target

variable {outDir source : Path}

/-- The name of a scaffold holds no slash if the parts of the path of its source file hold none. -/
theorem slash_not_mem_scaffoldName (h : source.Written) : '/' ∉ (scaffoldName source).toList := by
  have hname : '/' ∉ (source.fileName?.getD "").toList := by
    cases hfile : source.fileName? with
    | none => simp
    | some name => exact h.noSlash name (Path.of_fileName?_eq_some hfile).2
  have hstem : '/' ∉ (Path.stemOf (source.fileName?.getD "")).toList := by
    rw [Path.stemOf, String.toList_ofList]
    exact fun hin => hname ((List.takeWhile_sublist _).subset hin)
  have hextension : '/' ∉ (source.extension?.getD "js").toList := by
    cases hext : source.extension? with
    | none => decide
    | some extension =>
      obtain ⟨name, hfile, -, front, -, rfl⟩ := Path.extension?_eq_some_iff.1 hext
      rw [hfile, Option.getD_some, String.toList_append] at hname
      exact fun hin => hname (List.mem_append_right _ hin)
  rw [scaffoldName, String.toList_append, String.toList_append, List.mem_append, List.mem_append]
  rintro ((hin | hin) | hin)
  · exact hstem hin
  · exact absurd hin (by decide)
  · exact hextension hin

/-- The path of a scaffold is written if those of the output directory and of the source file are. -/
theorem written_targetPath (hout : outDir.Written) (hsource : source.Written) :
    (targetPath outDir source).Written := by
  refine Path.Written.child ?_ (isName_scaffoldName source) (slash_not_mem_scaffoldName hsource)
  refine hout.descend (fun name => isName_of_mem_directoryNames) fun name hname => ?_
  rw [Path.directoryNames_eq] at hname
  obtain ⟨c, hc, hcname⟩ := List.mem_filterMap.1 hname
  have hin : name ∈ source.names := List.mem_filterMap.2 ⟨c, (List.dropLast_sublist _).subset hc, hcname⟩
  exact hsource.noSlash name (Path.of_mem_names hin).2

/-- The components of the path of a scaffold. -/
theorem components_targetPath (outDir source : Path) :
    (targetPath outDir source).components =
      outDir.components ++ (directoryNames source ++ [scaffoldName source]).map .normal := by
  have hname := isName_scaffoldName source
  rw [targetPath, Path.components_child hname.1 hname.2,
    Path.components_descend fun _ h => isName_of_mem_directoryNames h, List.append_assoc, List.map_append]
  rfl

end Target

/-- **Scaffolds stay below the output directory.** Whatever the path of a source file is, the path of its scaffold
has the components of the output directory, and then names only: those among the components of the directory of the
source file, in order, and one more. This last name is the part of the file name before its first dot, `spec`, and
the extension of the file, with dots between them; the extension is `js` if there is none. So in a file system the
scaffold stands below the output directory, by these names. If both paths are those of texts, then the text of
the path of the scaffold is that of just this path.

**Proof sketch.** The directory of the source file has all its components but the last one, and only names are
taken from it. What is added to the output directory are names, so each adds one component, and no part holds a
slash. -/
theorem targetPath_below_outDir (outDir source : Path) :
    ∃ directories stem extension,
      (targetPath outDir source).components =
        outDir.components ++ (directories ++ [stem ++ ".spec." ++ extension]).map .normal ∧
      directories = source.components.dropLast.filterMap Component.name? ∧
      (∀ parent, source.parent? = some parent → directories = parent.components.filterMap Component.name?) ∧
      Path.IsStem stem (source.fileName?.getD "") ∧
      ((∃ name, source.fileName? = some name ∧ Path.IsExtension extension name) ∨
        (∀ name, source.fileName? = some name → ∀ other, ¬Path.IsExtension other name) ∧ extension = "js") ∧
      (∀ cwd, destination cwd (targetPath outDir source) =
        destination cwd outDir ++ (directories ++ [stem ++ ".spec." ++ extension])) ∧
      ∀ outText sourceText, outDir = .ofString outText → source = .ofString sourceText →
        Path.ofString (targetPath outDir source).text = targetPath outDir source := by
  refine ⟨directoryNames source, Path.stemOf (source.fileName?.getD ""), source.extension?.getD "js",
    components_targetPath outDir source, Path.directoryNames_eq source, ?_, Path.isStem_stemOf _, ?_, ?_, ?_⟩
  · intro parent hparent
    rw [directoryNames, hparent]
    rfl
  · cases hextension : source.extension? with
    | some extension => exact Or.inl (Path.extension?_eq_some_iff.1 hextension)
    | none =>
      refine Or.inr ⟨fun name hname other hother => ?_, rfl⟩
      rw [Path.extension?_eq_some_iff.2 ⟨name, hname, hother⟩] at hextension
      cases hextension
  · intro cwd
    rw [destination_targetPath, List.append_assoc]
    rfl
  · rintro outText sourceText rfl rfl
    refine Path.ofString_text (written_targetPath (Path.written_ofString _) (Path.written_ofString _)) ?_
    rw [targetPath, Path.child_eq, List.getLast?_concat]
    intro heq
    exact absurd (Option.some.inj heq ▸ (isName_scaffoldName _).1) (by decide)

/-- Steps upwards and a root on the way to a source file do not lead out of the output directory. -/
example : (targetPath (.ofString "../out/") (.ofString "/a/../b/./.hidden.test.tsx/.")).text =
    "../out/a/b/.spec.tsx" := by
  decide

end TestScaffold
