import TestScaffold.Proofs.FileNames
import TestScaffold.Proofs.WellFormed

set_option autoImplicit false

/-!
# Cutting extensions off

A file is imported by its name without the extension. The extension is that of the last component of the
name, but it is cut off the end of the whole name, by as many bytes as the extension and its dot have. The two
places differ if slashes follow the last component. Still the cut never falls inside a character of a file
that there is a grammar for: the extension is then plain, as is all that may follow it, and this is as long as
the cut.

## Main definitions

* `TestScaffold.Path.Trailing` — what may follow the last component of a path.
* `TestScaffold.Path.EndsPlainly` — nothing follows the last component.
* `TestScaffold.CutsExtension` — a file name without as many bytes as its extension and the dot have.

## Main results

* `TestScaffold.dropBytes?_eq_some_iff`, `TestScaffold.withoutExtension?_eq_some_iff` — what is cut off.
* `TestScaffold.Path.exists_of_extension?` — where the extension stands in a file name.
* `TestScaffold.exists_withoutExtension?` — the extension can be cut off if there is a grammar for it.
* `TestScaffold.exists_scaffold?_of_readModel` — every module that is read has a scaffold.
* `TestScaffold.extension_cut_of_dialect` — the same with what is left.
-/

namespace TestScaffold

/-! ## Numbers of bytes -/

/-- The bytes of a text are those of its first character and of the others. -/
theorem utf8ByteSize_ofList_cons (c : Char) (cs : List Char) :
    (String.ofList (c :: cs)).utf8ByteSize = c.utf8Size + (String.ofList cs).utf8ByteSize := by
  rw [String.ofList_cons, String.utf8ByteSize_append, String.utf8ByteSize_singleton]

/-- A text has as many bytes from its end on. -/
theorem utf8ByteSize_ofList_reverse (cs : List Char) :
    (String.ofList cs.reverse).utf8ByteSize = (String.ofList cs).utf8ByteSize := by
  induction cs with
  | nil => rfl
  | cons c cs ih =>
    rw [List.reverse_cons, String.ofList_append, String.utf8ByteSize_append, ih, utf8ByteSize_ofList_cons,
      utf8ByteSize_ofList_cons, Nat.add_comm]
    rfl

/-- Characters of one byte have as many bytes as there are characters. -/
theorem utf8ByteSize_ofList_of_ascii {cs : List Char} (h : ∀ c ∈ cs, c.utf8Size = 1) :
    (String.ofList cs).utf8ByteSize = cs.length := by
  induction cs with
  | nil => rfl
  | cons c cs ih =>
    obtain ⟨hc, hcs⟩ := List.forall_mem_cons.1 h
    rw [utf8ByteSize_ofList_cons, hc, ih hcs, List.length_cons, Nat.add_comm]

/-- **A number of bytes is dropped** if the characters at the beginning have as many together. -/
theorem dropBytes?_eq_some_iff {n : Nat} {cs rest : List Char} :
    dropBytes? n cs = some rest ↔
      ∃ front, cs = front ++ rest ∧ (String.ofList front).utf8ByteSize = n := by
  fun_induction dropBytes? n cs with
  | case1 cs =>
    constructor
    · intro h
      exact ⟨[], Option.some.inj h, rfl⟩
    · rintro ⟨front, rfl, hsize⟩
      rw [String.utf8ByteSize_eq_zero_iff, String.ofList_eq_empty_iff] at hsize
      rw [hsize, List.nil_append]
  | case2 n =>
    constructor
    · intro h
      cases h
    · rintro ⟨front, hfront, hsize⟩
      rw [(List.nil_eq_append_iff.1 hfront).1] at hsize
      cases hsize
  | case3 n c cs hle ih =>
    rw [ih]
    constructor
    · rintro ⟨front, rfl, hsize⟩
      refine ⟨c :: front, rfl, ?_⟩
      rw [utf8ByteSize_ofList_cons, hsize, Nat.add_sub_of_le hle]
    · rintro ⟨front, hfront, hsize⟩
      cases front with
      | nil => cases hsize
      | cons d front =>
        obtain ⟨rfl, rfl⟩ := List.cons.inj hfront
        rw [utf8ByteSize_ofList_cons] at hsize
        exact ⟨front, rfl, Nat.eq_sub_of_add_eq' hsize⟩
  | case4 n c cs hgt =>
    constructor
    · intro h
      cases h
    · rintro ⟨front, hfront, hsize⟩
      cases front with
      | nil => cases hsize
      | cons d front =>
        obtain ⟨rfl, rfl⟩ := List.cons.inj hfront
        rw [utf8ByteSize_ofList_cons] at hsize
        omega

/-- **What is left of a file name with an extension** is all but an end of it with as many bytes as the
extension and its dot have. -/
theorem withoutExtension?_eq_some_iff {filename ext path : String}
    (h : (Path.ofString filename).extension? = some ext) :
    withoutExtension? filename = some path ↔
      ∃ cut, filename = path ++ cut ∧ cut.utf8ByteSize = ext.utf8ByteSize + 1 := by
  rw [withoutExtension?, h]
  dsimp only
  rw [Option.map_eq_some_iff]
  constructor
  · rintro ⟨rest, hrest, rfl⟩
    obtain ⟨front, hfront, hsize⟩ := dropBytes?_eq_some_iff.1 hrest
    refine ⟨String.ofList front.reverse, ?_, ?_⟩
    · rw [← String.ofList_append, ← List.reverse_append, ← hfront, List.reverse_reverse, String.ofList_toList]
    · rw [utf8ByteSize_ofList_reverse, hsize]
  · rintro ⟨cut, rfl, hsize⟩
    refine ⟨path.toList.reverse, dropBytes?_eq_some_iff.2 ⟨cut.toList.reverse, ?_, ?_⟩, ?_⟩
    · rw [String.toList_append, List.reverse_append]
    · rw [utf8ByteSize_ofList_reverse, String.ofList_toList, hsize]
    · rw [List.reverse_reverse, String.ofList_toList]

/-! ## Where the extension stands -/

namespace Path

/-- What may follow the last component of a path: slashes, each with a dot behind it or without. -/
inductive Trailing : List Char → Prop where
  /-- Nothing follows. -/
  | nil : Trailing []
  /-- A slash. -/
  | slash {cs : List Char} (h : Trailing cs) : Trailing ('/' :: cs)
  /-- A slash and a dot. -/
  | slashDot {cs : List Char} (h : Trailing cs) : Trailing ('/' :: '.' :: cs)

/-- Nothing follows the last component of a path. -/
def EndsPlainly (s : String) : Prop := ∀ back, Trailing back → back <:+ s.toList → back = []

/-- Parts that mean nothing may follow the last component. -/
theorem trailing_of_isTrivial {parts : List String} (h : ∀ part ∈ parts, isTrivial part = true) :
    Trailing (parts.flatMap fun part => '/' :: part.toList) := by
  induction parts with
  | nil => exact .nil
  | cons part parts ih =>
    obtain ⟨hpart, hparts⟩ := List.forall_mem_cons.1 h
    rw [isTrivial, Bool.or_eq_true, beq_iff_eq, beq_iff_eq] at hpart
    rcases hpart with rfl | rfl
    · exact .slash (ih hparts)
    · exact .slashDot (ih hparts)

/-- What follows the last component of a path has characters of one byte. -/
theorem Trailing.ascii {cs : List Char} (h : Trailing cs) : ∀ c ∈ cs, c.utf8Size = 1 := by
  induction h with
  | nil => exact fun c hc => nomatch hc
  | slash h ih => exact List.forall_mem_cons.2 ⟨rfl, ih⟩
  | slashDot h ih => exact List.forall_mem_cons.2 ⟨rfl, List.forall_mem_cons.2 ⟨rfl, ih⟩⟩

/-- The parts of a path with slashes between them end with one of them and what follows it. -/
theorem exists_intercalate_append (front back : List (List Char)) (name : List Char) :
    ∃ before, ['/'].intercalate (front ++ name :: back) =
      before ++ (name ++ back.flatMap fun part => '/' :: part) := by
  induction front with
  | nil =>
    refine ⟨[], ?_⟩
    induction back generalizing name with
    | nil => simp
    | cons part back ih =>
      rw [List.nil_append, List.intercalate_cons_cons, ← List.nil_append (part :: back), ih]
      simp
  | cons part front ih =>
    obtain ⟨before, hbefore⟩ := ih
    refine ⟨part ++ '/' :: before, ?_⟩
    rw [List.cons_append, List.intercalate_cons_of_ne_nil (by simp), hbefore]
    simp

/-- The text of a path is its parts with slashes between them, perhaps after another slash. -/
theorem exists_toList_eq (s : String) :
    ∃ before, s.toList = before ++ ['/'].intercalate ((ofString s).parts.map String.toList) := by
  have hsplit : ∀ cs : List Char, ['/'].intercalate ((split cs).map String.toList) = cs := by
    intro cs
    unfold split
    split
    · next hnil => exact (List.isEmpty_iff.1 hnil).symm
    · simp [List.map_map, Function.comp_def, List.intercalate_splitOn]
  unfold ofString
  split
  · next cs hcs => exact ⟨['/'], by rw [hsplit, hcs]; rfl⟩
  · exact ⟨[], by rw [hsplit, List.nil_append]⟩

/-- A step to an entry goes by the name that the part is. -/
theorem eq_of_step?_eq_normal {part name : String} (h : step? part = some (.normal name)) : part = name := by
  unfold step? at h
  split at h
  · cases h
  · split at h
    · cases h
    · exact Component.normal.inj (Option.some.inj h)

/-- A part that means no step means nothing. -/
theorem isTrivial_of_step?_eq_none {part : String} (h : step? part = none) : isTrivial part = true := by
  unfold step? at h
  split at h
  · assumption
  · split at h <;> cases h

/-- The last part that means a step is the file name, if it is a name; the parts behind it mean nothing. -/
theorem exists_parts_of_fileName? {p : Path} {name : String} (h : p.fileName? = some name) :
    ∃ front back, p.parts = front ++ name :: back ∧ ∀ part ∈ back, isTrivial part = true := by
  unfold fileName? at h
  split at h
  · next _ hlast =>
    obtain rfl := Option.some.inj h
    rw [components, List.getLast?_append, List.getLast?_filterMap, Option.or_eq_some_iff] at hlast
    rcases hlast with hlast | ⟨-, hlead⟩
    · obtain ⟨after, part, before, hparts, hstep, hafter⟩ := List.findSome?_eq_some_iff.1 hlast
      refine ⟨before.reverse, after.reverse, ?_, fun part hpart => ?_⟩
      · rw [← eq_of_step?_eq_normal hstep, ← List.reverse_inj, hparts]
        simp
      · exact isTrivial_of_step?_eq_none (hafter part (List.mem_reverse.1 hpart))
    · unfold lead at hlead
      split at hlead
      · cases hlead
      · split at hlead <;> cases hlead
  · cases h

/-- A path ends with its file name and what may follow it. -/
theorem exists_of_fileName? {s name : String} (h : (ofString s).fileName? = some name) :
    ∃ before back, s.toList = before ++ (name.toList ++ back) ∧ Trailing back := by
  obtain ⟨front, back, hparts, htrivial⟩ := exists_parts_of_fileName? h
  obtain ⟨lead, hlead⟩ := exists_toList_eq s
  obtain ⟨before, hbefore⟩ :=
    exists_intercalate_append (front.map String.toList) (back.map String.toList) name.toList
  refine ⟨lead ++ before, _, ?_, trailing_of_isTrivial htrivial⟩
  rw [hlead, hparts, List.map_append, List.map_cons, hbefore, List.flatMap_map, List.append_assoc]

/-- **Where the extension stands**: behind a dot, and before what may follow the last component. -/
theorem exists_of_extension? {s ext : String} (h : (ofString s).extension? = some ext) :
    ∃ stem back, s.toList = stem ++ '.' :: (ext.toList ++ back) ∧ Trailing back := by
  obtain ⟨name, hname, -, stem, -, hstem⟩ := extension?_eq_some_iff.1 h
  obtain ⟨before, back, hs, hback⟩ := exists_of_fileName? hname
  refine ⟨before ++ stem.toList, back, ?_, hback⟩
  rw [hs, hstem]
  simp

end Path

/-! ## The cut -/

/-- `CutsExtension filename path ext`: the text `path` is the file name without as many bytes as its extension
`ext` and the dot have. -/
structure CutsExtension (filename path ext : String) : Prop where
  /-- The file name has that many bytes. -/
  inRange : ext.utf8ByteSize + 1 ≤ filename.utf8ByteSize
  /-- The cut falls between two characters. -/
  boundary : String.Pos.Raw.IsValid filename ⟨filename.utf8ByteSize - (ext.utf8ByteSize + 1)⟩
  /-- The text is what stands before the cut. -/
  append : ∃ cut, filename = path ++ cut ∧ cut.utf8ByteSize = ext.utf8ByteSize + 1
  /-- If nothing follows the last component, then the dot and the extension are cut off. -/
  exact : Path.EndsPlainly filename → filename = path ++ "." ++ ext

/-- The extensions that there is a grammar for have characters of one byte. -/
theorem ascii_of_ofExtension {ext : String} {dialect : Dialect} (h : Dialect.ofExtension ext = .ok dialect) :
    ∀ c ∈ ext.toList, c.utf8Size = 1 := by
  have hall : ∀ known ∈ Dialect.markupExtensions ++ Dialect.plainExtensions,
      known.toList.all (·.utf8Size == 1) = true := by
    decide
  suffices hknown : ext ∈ Dialect.markupExtensions ++ Dialect.plainExtensions from
    fun c hc => eq_of_beq (List.all_eq_true.1 (hall ext hknown) c hc)
  rw [List.mem_append]
  unfold Dialect.ofExtension at h
  split at h
  · next hmarkup => exact Or.inl (List.contains_iff_mem.1 hmarkup)
  · split at h
    · next hplain => exact Or.inr (List.contains_iff_mem.1 hplain)
    · cases h

/-- An extension of characters of one byte is cut off between two characters: so many characters of one byte
are there at the end of the file name. -/
theorem exists_cutsExtension {filename ext : String} (h : (Path.ofString filename).extension? = some ext)
    (hascii : ∀ c ∈ ext.toList, c.utf8Size = 1) :
    ∃ path, withoutExtension? filename = some path ∧ CutsExtension filename path ext := by
  obtain ⟨stem, back, hfilename, hback⟩ := Path.exists_of_extension? h
  have htail : ∀ c ∈ '.' :: (ext.toList ++ back), c.utf8Size = 1 := by
    refine List.forall_mem_cons.2 ⟨rfl, fun c hc => ?_⟩
    rcases List.mem_append.1 hc with hc | hc
    · exact hascii c hc
    · exact hback.ascii c hc
  have hext : ext.utf8ByteSize = ext.toList.length := by
    rw [← utf8ByteSize_ofList_of_ascii hascii, String.ofList_toList]
  -- The cut begins at the dot or behind it, for what follows the extension moves it towards the end.
  obtain ⟨front, cut, hsplit, hfront, hlength⟩ : ∃ front cut, '.' :: (ext.toList ++ back) = front ++ cut ∧
      front.length = back.length ∧ cut.length = ext.toList.length + 1 := by
    refine ⟨_, _, (List.take_append_drop back.length _).symm, ?_, ?_⟩
    · rw [List.length_take, List.length_cons, List.length_append]
      omega
    · rw [List.length_drop, List.length_cons, List.length_append]
      omega
  have hcut : (String.ofList cut).utf8ByteSize = ext.utf8ByteSize + 1 := by
    rw [utf8ByteSize_ofList_of_ascii fun c hc => htail c (hsplit ▸ List.mem_append_right _ hc), hlength, hext]
  have hwhole : filename = String.ofList (stem ++ front) ++ String.ofList cut := by
    rw [← String.ofList_append, List.append_assoc, ← hsplit, ← hfilename, String.ofList_toList]
  refine ⟨_, (withoutExtension?_eq_some_iff h).2 ⟨_, hwhole, hcut⟩, ?_⟩
  have hsize := congrArg String.utf8ByteSize hwhole
  rw [String.utf8ByteSize_append, hcut] at hsize
  refine ⟨by omega, ?_, ⟨_, hwhole, hcut⟩, fun hplain => ?_⟩
  · refine String.Pos.Raw.isValid_iff_exists_append.2 ⟨_, _, hwhole, ?_⟩
    rw [String.Pos.Raw.ext_iff, String.byteIdx_rawEndPos]
    exact Nat.sub_eq_of_eq_add hsize
  · obtain rfl := hplain back hback ⟨stem ++ '.' :: ext.toList, by rw [hfilename, List.append_assoc]; rfl⟩
    obtain rfl := List.eq_nil_of_length_eq_zero hfront
    rw [← String.toList_inj, hfilename]
    simp

/-- **The extension can be cut off** the name of a file that there is a grammar for. -/
theorem exists_withoutExtension? {filename : String} {dialect : Dialect}
    (h : Dialect.ofFilename filename = .ok dialect) :
    ∃ path, withoutExtension? filename = some path ∧
      ((Path.ofString filename).extension? = none → path = filename) ∧
      ∀ ext, (Path.ofString filename).extension? = some ext → CutsExtension filename path ext := by
  unfold Dialect.ofFilename at h
  cases hext : (Path.ofString filename).extension? with
  | none =>
    refine ⟨filename, ?_, fun _ => rfl, fun ext heq => nomatch heq⟩
    rw [withoutExtension?, hext]
  | some ext =>
    rw [hext] at h
    obtain ⟨path, hpath, hcuts⟩ := exists_cutsExtension hext (ascii_of_ofExtension h)
    exact ⟨path, hpath, fun heq => (nomatch heq), fun other heq => Option.some.inj heq ▸ hcuts⟩

/-! ## Scaffolds and models -/

section Scaffolds

variable {parser : Parser} {framework : Framework} {src : SourceText} {filename : String}

/-- A module that is read has a file name that there is a grammar for. -/
theorem exists_dialect_of_readModel {m : Model} (h : readModel parser src filename = .ok m) :
    ∃ dialect, Dialect.ofFilename filename = .ok dialect := by
  cases hdialect : Dialect.ofFilename filename with
  | ok dialect => exact ⟨dialect, rfl⟩
  | error cause =>
    simp only [readModel, readFindings, parseModule, hdialect, bind, Except.bind, Except.map] at h
    cases h

/-- **Every module that is read has a scaffold.** -/
theorem exists_scaffold?_of_readModel (framework : Framework) {m : Model}
    (h : readModel parser src filename = .ok m) : ∃ d, scaffold? framework m = some d := by
  obtain ⟨dialect, hdialect⟩ := exists_dialect_of_readModel h
  obtain ⟨path, hpath, -⟩ := exists_withoutExtension? hdialect
  have hspecifier : m.specifier = filename := by
    obtain ⟨root, rfl⟩ := exists_ofTree_of_readModel h
    rfl
  rw [scaffold?, subjectSection?, hspecifier, hpath, Option.map_some, Option.map_some]
  exact ⟨_, rfl⟩

/-- The scaffold of a module that is read is written. -/
theorem exists_scaffoldModule_of_readModel (framework : Framework) {m : Model}
    (h : readModel parser src filename = .ok m) :
    ∃ text, scaffoldModule parser framework src filename = .ok text := by
  obtain ⟨d, hd⟩ := exists_scaffold?_of_readModel framework h
  simp only [scaffoldModule, h, bind, Except.bind, renderScaffold, hd]
  exact ⟨_, rfl⟩

/-- If a module is not read, this is why no scaffold is written. -/
theorem scaffoldModule_of_readModel_error {cause : ScaffoldError}
    (h : readModel parser src filename = .error cause) :
    scaffoldModule parser framework src filename = .error cause := by
  simp only [scaffoldModule, h, bind, Except.bind]

/-- A module is not read if its file has an unknown extension, or by reason of its syntax. -/
theorem cause_of_readModel_error {cause : ScaffoldError} (h : readModel parser src filename = .error cause) :
    (∃ ext, cause = .unknownExtension ext) ∨ ∃ line column, cause = .faultySyntax filename line column := by
  unfold readModel readFindings parseModule at h
  cases hdialect : Dialect.ofFilename filename with
  | error cause' =>
    simp only [hdialect, bind, Except.bind, Except.map, Except.error.injEq] at h
    obtain rfl := h
    unfold Dialect.ofFilename Dialect.ofExtension at hdialect
    split at hdialect
    · cases hdialect
    · split at hdialect
      · cases hdialect
      · exact Or.inl ⟨_, (Except.error.inj hdialect).symm⟩
  | ok dialect =>
    simp only [hdialect, bind, Except.bind] at h
    split at h
    · next root _ =>
      unfold rejectFaults at h
      split at h
      · simp only [Except.map, Except.error.injEq] at h
        exact Or.inr ⟨_, _, h.symm⟩
      · simp only [Except.map] at h
        cases h
    · simp only [Except.map, Except.error.injEq] at h
      exact Or.inr ⟨_, _, h.symm⟩

end Scaffolds

/-- **Cutting the extension off.** The name of a file that there is a grammar for has as many bytes as its
extension and the dot, and without them it still has whole characters; whatever the other characters are, and
however many slashes and dots follow the last component. If nothing follows it, then it is the dot and the
extension that are cut off. A name without an extension stays as it is. So the cut never is the reason why no
scaffold is written.

**Proof sketch.** Behind the dot there are the extension and the slashes and dots that follow it. The
extensions of the grammars are plain, so all these characters have one byte each, and they are at least as
many as are cut off. -/
theorem extension_cut_of_dialect {filename : String} {dialect : Dialect}
    (h : Dialect.ofFilename filename = .ok dialect) :
    (∃ path, withoutExtension? filename = some path ∧
      ((Path.ofString filename).extension? = none → path = filename) ∧
      ∀ ext, (Path.ofString filename).extension? = some ext → CutsExtension filename path ext) ∧
    ∀ parser framework src name,
      scaffoldModule parser framework src filename ≠ .error (.splitCharacter name) := by
  refine ⟨exists_withoutExtension? h, fun parser framework src name hsplit => ?_⟩
  cases hread : readModel parser src filename with
  | ok m =>
    obtain ⟨text, htext⟩ := exists_scaffoldModule_of_readModel framework hread
    rw [htext] at hsplit
    cases hsplit
  | error cause =>
    rw [scaffoldModule_of_readModel_error hread] at hsplit
    obtain rfl := Except.error.inj hsplit
    rcases cause_of_readModel_error hread with ⟨ext, hcause⟩ | ⟨line, column, hcause⟩ <;> cases hcause

/-- The cut of a name that is not plain and is followed by a slash and a dot, after which another slash
stands. -/
theorem extension_cut_of_dialect_followed :
    Dialect.ofFilename "é/日本.ts/./" = .ok .typescript ∧
      ((∃ path, withoutExtension? "é/日本.ts/./" = some path ∧
        ((Path.ofString "é/日本.ts/./").extension? = none → path = "é/日本.ts/./") ∧
        ∀ ext, (Path.ofString "é/日本.ts/./").extension? = some ext →
          CutsExtension "é/日本.ts/./" path ext) ∧
      ∀ parser framework src name,
        scaffoldModule parser framework src "é/日本.ts/./" ≠ .error (.splitCharacter name)) := by
  have hdialect : Dialect.ofFilename "é/日本.ts/./" = .ok .typescript := by decide
  exact ⟨hdialect, extension_cut_of_dialect hdialect⟩

/-- Without a grammar for the extension, the cut may fall inside a character. -/
example : withoutExtension? "a.é//" = none := by decide

end TestScaffold
