import Mathlib.Data.List.Pairwise
import TestScaffold.Scaffold.Jest
import TestScaffold.Proofs.WellFormed

set_option autoImplicit false

/-!
# Names declared at the top level of a scaffold

A scaffold declares names by three kinds of lines: it repeats the `import` statements and the requires of
the module under test, and it includes the module itself. A name that is declared twice makes a scaffold
useless. What is written once is a line or a specifier, not a name, so a name is declared twice if the
module publishes it in two ways, or if it publishes a name that is not its own.

## Main definitions

* `TestScaffold.Declaration` — a line with the names that it declares.
* `TestScaffold.declarationsBy` — the declarations of entries that are written once for each text.
* `TestScaffold.Model.declarations?` — the declarations of a scaffold.
* `TestScaffold.Model.PublishesApart` — every name that is included is published in a single way.

## Main results

* `TestScaffold.nodup_namesDeclared_declarationsBy` — when entries that are written once for each text
  declare no name twice.
* `TestScaffold.sublist_declarations` — the lines of the declarations stand in the scaffold.
* `TestScaffold.declaresOnce_iff_publishesApart` — when a scaffold declares no name twice.

## Implementation notes

A specifier, a require or an include line is a text that several entries may share. It then declares the
names of all of them.
-/

namespace TestScaffold

/-! ## Lines that are written once -/

/-- A line that declares names. -/
structure Declaration where
  /-- The line. -/
  text : String
  /-- The names, each as often as the line declares it. -/
  names : List String
deriving DecidableEq, Repr

/-- The names that several lines declare. -/
def namesDeclared (ds : List Declaration) : List String := ds.flatMap (·.names)

section WrittenOnce

variable {α : Type} {text name : α → String} {entries : List α}

/-- The names of the entries with a given text, each once. -/
def namesOfText (text name : α → String) (entries : List α) (t : String) : List String :=
  ((entries.filter fun x => text x == t).map name).eraseDups

/-- The declarations of entries that are written once for each text. -/
def declarationsBy (text name : α → String) (entries : List α) : List Declaration :=
  (entries.map text).eraseDups.map fun t => ⟨t, namesOfText text name entries t⟩

/-- The names of a text are those of the entries that have it. -/
theorem mem_namesOfText {t n : String} :
    n ∈ namesOfText text name entries t ↔ ∃ x ∈ entries, text x = t ∧ name x = n := by
  simp only [namesOfText, List.mem_eraseDups, List.mem_map, List.mem_filter, beq_iff_eq, and_assoc]

/-- Each text is written once, in the order of first entries. -/
theorem map_text_declarationsBy :
    (declarationsBy text name entries).map (·.text) = (entries.map text).eraseDups := by
  rw [declarationsBy, List.map_map]
  exact List.map_id _

/-- The declared names are the names of the entries. -/
theorem mem_namesDeclared_declarationsBy {n : String} :
    n ∈ namesDeclared (declarationsBy text name entries) ↔ n ∈ entries.map name := by
  rw [namesDeclared, declarationsBy, List.flatMap_map, List.mem_flatMap, List.mem_map]
  constructor
  · rintro ⟨t, -, hn⟩
    obtain ⟨x, hx, -, rfl⟩ := mem_namesOfText.1 hn
    exact ⟨x, hx, rfl⟩
  · rintro ⟨x, hx, rfl⟩
    refine ⟨text x, List.mem_eraseDups.2 (List.mem_map.2 ⟨x, hx, rfl⟩), ?_⟩
    exact mem_namesOfText.2 ⟨x, hx, rfl, rfl⟩

/-- Entries that are written once for each text declare no name twice if entries with the same name have
the same text. -/
theorem nodup_namesDeclared_declarationsBy :
    (namesDeclared (declarationsBy text name entries)).Nodup ↔
      ∀ x ∈ entries, ∀ y ∈ entries, name x = name y → text x = text y := by
  rw [namesDeclared, declarationsBy, List.flatMap_map, List.nodup_flatMap]
  constructor
  · rintro ⟨-, hdisjoint⟩ x hx y hy hname
    by_contra hne
    have htext : ∀ z ∈ entries, text z ∈ (entries.map text).eraseDups := fun z hz =>
      List.mem_eraseDups.2 (List.mem_map.2 ⟨z, hz, rfl⟩)
    have hsymm : Std.Symm (Function.onFun List.Disjoint (namesOfText text name entries)) :=
      ⟨fun _ _ h _ hn hn' => h hn' hn⟩
    have hapart := hdisjoint.forall (htext x hx) (htext y hy) hne
    exact hapart (mem_namesOfText.2 ⟨x, hx, rfl, rfl⟩) (mem_namesOfText.2 ⟨y, hy, rfl, hname.symm⟩)
  · intro h
    refine ⟨fun t _ => nodup_eraseDups _, ?_⟩
    refine (nodup_eraseDups _).pairwise_of_forall_ne fun t _ t' _ hne n hn hn' => ?_
    obtain ⟨x, hx, rfl, rfl⟩ := mem_namesOfText.1 hn
    obtain ⟨y, hy, rfl, hname⟩ := mem_namesOfText.1 hn'
    exact hne (h x hx y hy hname.symm)

end WrittenOnce

/-! ## The declarations of a scaffold -/

/-- An `import` statement, repeated, declares what it binds. -/
def Import.declaration (d : Import) : Declaration :=
  ⟨importLine d, if d.kind == .sideEffect then [] else d.localNames⟩

/-- The requires, repeated, declare the names that they bind. -/
def requireDeclarations (requires : List Require) : List Declaration :=
  declarationsBy (·.statement) (·.localName) requires

/-- The line that imports what `export` statements publish declares the name of the default export, and a
name for each specifier. -/
def exportDeclaration (literal : String) (exports : List Export) : Declaration where
  text := "import " ++ exportImportClause exports ++ " from " ++ literal ++ ";"
  names :=
    (exports.find? (·.kind == .default)).toList.map (·.localName) ++
      namesDeclared
        (declarationsBy exportSpecifier (·.localName) (exports.filter (·.kind == .named)))

/-- The lines that include a module given by a literal. -/
def subjectDeclarations (literal : String) (exports : List Export) (slotExports : List SlotExport) :
    List Declaration :=
  if exports.isEmpty then declarationsBy (slotLine literal) (·.localName) slotExports
  else [exportDeclaration literal exports]

namespace Model

/-- All lines of a scaffold that declare names at its top level; none if the file name of the module cannot
be cut. -/
def declarations? (m : Model) : Option (List Declaration) :=
  (withoutExtension? m.specifier).map fun path =>
    m.imports.map Import.declaration ++ requireDeclarations m.requires ++
      subjectDeclarations (quoted path) m.exports m.slotExports

/-- The names that a module takes from elsewhere. -/
def foreignNames (m : Model) : List String :=
  m.imports.flatMap Import.localNames ++ m.requires.map (·.localName)

/-- The names inside a module by which its scaffold includes it. -/
def includedNames (m : Model) : List String :=
  if m.exports.isEmpty then m.slotExports.map (·.localName)
  else
    (m.exports.find? (·.kind == .default)).toList.map (·.localName) ++
      (m.exports.filter (·.kind == .named)).map (·.localName)

end Model

/-- What is taken from the export slot: one of its properties, or the whole. -/
def SlotExport.property? (e : SlotExport) : Option String :=
  match e.part with
  | .whole => none
  | .property => some e.publicName

/-- No name inside a module is published in two ways that its scaffold sees: if there are exports, the
export slot is left out. -/
structure PublishesOnce (exports : List Export) (slotExports : List SlotExport) : Prop where
  /-- The default export is no named export as well. -/
  default_ne : ∀ d, exports.find? (·.kind == .default) = some d →
    ∀ e ∈ exports, e.kind = .named → e.localName ≠ d.localName
  /-- No name is exported under two names. -/
  named : ∀ e ∈ exports, ∀ e' ∈ exports, e.kind = .named → e'.kind = .named →
    e.localName = e'.localName → e.publicName = e'.publicName
  /-- No name is put into two places of the export slot. -/
  slot : exports = [] → ∀ e ∈ slotExports, ∀ e' ∈ slotExports,
    e.localName = e'.localName → e.property? = e'.property?

/-- Every name that is included is published once, and is the module's own. -/
structure Model.PublishesApart (m : Model) : Prop where
  /-- No included name is taken from elsewhere. -/
  own : ∀ name ∈ m.includedNames, name ∉ m.foreignNames
  /-- No name is published in two ways. -/
  once : PublishesOnce m.exports m.slotExports

/-! ## Their lines -/

/-- The `import` statements stand before their substitutes. -/
theorem sublist_importSections (framework : Framework) (m : Model) (imports : List Import) :
    (imports.map fun d => Statement.line (importLine d)).Sublist
      (imports.flatMap (importSection framework m)) := by
  induction imports with
  | nil => exact List.Sublist.refl []
  | cons d imports ih =>
    rw [List.map_cons, List.flatMap_cons, importSection, List.cons_append]
    exact (ih.trans (List.sublist_append_right _ _)).cons_cons _

/-- The lines that include the module under test are its include lines. -/
theorem map_text_subjectDeclarations (literal : String) (exports : List Export)
    (slotExports : List SlotExport) :
    (subjectDeclarations literal exports slotExports).map (·.text) =
      subjectLines literal exports slotExports := by
  unfold subjectDeclarations subjectLines
  split
  · exact map_text_declarationsBy
  · rfl

/-- The lines of the declarations are those that a scaffold writes for `import` statements, for requires and
for the module under test. -/
theorem map_line_declarations {m : Model} {path : String} :
    (m.imports.map Import.declaration ++ requireDeclarations m.requires ++
        subjectDeclarations (quoted path) m.exports m.slotExports).map (fun d => Statement.line d.text) =
      m.imports.map (fun d => Statement.line (importLine d)) ++
        (requireStatements m.requires).map Statement.line ++
        (subjectLines (quoted path) m.exports m.slotExports).map Statement.line := by
  have himports : (m.imports.map Import.declaration).map (fun d => Statement.line d.text) =
      m.imports.map fun d => Statement.line (importLine d) := by
    rw [List.map_map]
    rfl
  have hrequires : (requireDeclarations m.requires).map (fun d => Statement.line d.text) =
      (requireStatements m.requires).map Statement.line := by
    rw [requireStatements, ← map_text_declarationsBy, List.map_map]
    rfl
  have hsubject : (subjectDeclarations (quoted path) m.exports m.slotExports).map
      (fun d => Statement.line d.text) =
      (subjectLines (quoted path) m.exports m.slotExports).map Statement.line := by
    rw [← map_text_subjectDeclarations, List.map_map]
    rfl
  rw [List.map_append, List.map_append, himports, hrequires, hsubject]

/-- The repeated `import` statements and requires stand in their section. -/
theorem sublist_dependencySection (framework : Framework) (m : Model) :
    (m.imports.map (fun d => Statement.line (importLine d)) ++
      (requireStatements m.requires).map Statement.line).Sublist (dependencySection framework m) := by
  have himports := (sublist_importSections framework m m.imports).trans
    (List.sublist_append_right framework.preamble _)
  exact himports.append (List.Sublist.refl _)

/-- **The declarations stand in the scaffold**: their lines are statements of it, in order, whatever the
framework is. -/
theorem sublist_declarations {framework : Framework} {m : Model} {s : Scaffold} {ds : List Declaration}
    (hs : scaffold? framework m = some s) (hds : m.declarations? = some ds) :
    (ds.map fun d => Statement.line d.text).Sublist s.statements := by
  obtain ⟨path, hpath, rfl⟩ := Option.map_eq_some_iff.1 hds
  rw [scaffold?, subjectSection?, hpath] at hs
  obtain rfl := Option.some.inj hs
  rw [map_line_declarations]
  have hsections := ((sublist_dependencySection framework m).trans (Statement.prefix_spaced _).sublist).append
    (Statement.prefix_spaced ((subjectLines (quoted path) m.exports m.slotExports).map Statement.line)).sublist
  apply hsections.trans
  dsimp only
  -- The report stands before the two sections, the suite behind them.
  rw [List.append_assoc (Statement.spaced (reportSection m))]
  exact (List.sublist_append_right _ _).trans (List.sublist_append_left _ _)

/-! ## What the lines depend on -/

/-- A name that is given a new name does not read like the new name alone. -/
theorem ne_append_as (name newName : String) : newName ≠ name ++ " as " ++ newName := by
  intro h
  have hlength := congrArg String.length h
  rw [String.length_append, String.length_append] at hlength
  have has : (" as " : String).length = 4 := by decide
  omega

/-- Names that are given the same new name read the same if they are the same. -/
theorem renamed_left_inj {name name' newName : String} :
    renamed name newName = renamed name' newName ↔ name = name' := by
  constructor
  · intro h
    unfold renamed at h
    split at h
    · next heq =>
      split at h
      · next heq' => exact (eq_of_beq heq).trans (eq_of_beq heq').symm
      · exact absurd h (ne_append_as _ _)
    · split at h
      · exact absurd h.symm (ne_append_as _ _)
      · exact (String.append_left_inj _).1 ((String.append_left_inj _).1 h)
  · intro h
    rw [h]

/-- Specifiers for the same name inside the module are the same if they are for the same public name. -/
theorem exportSpecifier_inj {e e' : Export} (h : e.localName = e'.localName) :
    exportSpecifier e = exportSpecifier e' ↔ e.publicName = e'.publicName := by
  rw [exportSpecifier, exportSpecifier, h]
  exact renamed_left_inj

/-- How a line ends that takes a property of the export slot, or the whole. -/
def slotEnding : Option String → String
  | none => ";"
  | some property => "." ++ property ++ ";"

/-- A slot line ends according to what is taken. -/
theorem slotLine_eq (literal : String) (e : SlotExport) :
    slotLine literal e =
      "const " ++ e.localName ++ " = require(" ++ literal ++ ")" ++ slotEnding e.property? := by
  unfold slotLine SlotExport.property?
  cases e.part with
  | whole => rfl
  | property => simp only [slotEnding, String.append_assoc]

/-- A line that takes a property does not end like one that takes the whole. -/
theorem slotEnding_some_ne_none (property : String) : slotEnding (some property) ≠ slotEnding none := by
  intro h
  have hchars := congrArg String.toList h
  simp [slotEnding] at hchars

/-- What is taken can be told from how the line ends. -/
theorem slotEnding_inj {p p' : Option String} : slotEnding p = slotEnding p' ↔ p = p' := by
  constructor
  · intro h
    cases p with
    | none =>
      cases p' with
      | none => rfl
      | some property' => exact absurd h.symm (slotEnding_some_ne_none property')
    | some property =>
      cases p' with
      | none => exact absurd h (slotEnding_some_ne_none property)
      | some property' =>
        exact congrArg some ((String.append_right_inj _).1 ((String.append_left_inj _).1 h))
  · intro h
    rw [h]

/-- Slot lines for the same name inside the module are the same if they take the same. -/
theorem slotLine_inj {literal : String} {e e' : SlotExport} (h : e.localName = e'.localName) :
    slotLine literal e = slotLine literal e' ↔ e.property? = e'.property? := by
  rw [slotLine_eq, slotLine_eq, h, String.append_right_inj]
  exact slotEnding_inj

/-! ## When no name is declared twice -/

/-- Declared names add up line by line. -/
theorem namesDeclared_append (ds ds' : List Declaration) :
    namesDeclared (ds ++ ds') = namesDeclared ds ++ namesDeclared ds' :=
  List.flatMap_append

/-- The include lines declare the included names. -/
theorem mem_namesDeclared_subjectDeclarations {literal name : String} {m : Model} :
    name ∈ namesDeclared (subjectDeclarations literal m.exports m.slotExports) ↔
      name ∈ m.includedNames := by
  unfold subjectDeclarations Model.includedNames
  split
  · exact mem_namesDeclared_declarationsBy
  · show name ∈ (exportDeclaration literal m.exports).names ++ [] ↔ _
    rw [List.append_nil, exportDeclaration, List.mem_append, List.mem_append,
      mem_namesDeclared_declarationsBy]

/-- The line that imports what `export` statements publish declares no name twice if the default export is
no named one as well, and no name is exported under two names. -/
theorem nodup_names_exportDeclaration {literal : String} {exports : List Export} :
    (exportDeclaration literal exports).names.Nodup ↔
      (∀ d, exports.find? (·.kind == .default) = some d →
        ∀ e ∈ exports, e.kind = .named → e.localName ≠ d.localName) ∧
      (∀ e ∈ exports, ∀ e' ∈ exports, e.kind = .named → e'.kind = .named →
        e.localName = e'.localName → e.publicName = e'.publicName) := by
  have hmem : ∀ {e : Export}, e ∈ exports.filter (·.kind == .named) ↔
      e ∈ exports ∧ e.kind = .named := by
    intro e
    rw [List.mem_filter, beq_iff_eq]
  have hdefault : ((exports.find? (·.kind == .default)).toList.map (·.localName)).Nodup := by
    cases exports.find? (·.kind == .default) with
    | none => exact List.nodup_nil
    | some d => exact List.nodup_singleton _
  rw [exportDeclaration, List.nodup_append', nodup_namesDeclared_declarationsBy]
  constructor
  · rintro ⟨-, hspecifiers, hdisjoint⟩
    refine ⟨fun d hd e he hkind heq => ?_, fun e he e' he' hkind hkind' hname => ?_⟩
    · have hd' : d.localName ∈
          (exports.find? (·.kind == .default)).toList.map (·.localName) := by
        rw [hd]
        exact List.mem_singleton_self _
      refine hdisjoint hd' (mem_namesDeclared_declarationsBy.2 ?_)
      exact List.mem_map.2 ⟨e, hmem.2 ⟨he, hkind⟩, heq⟩
    · have htext := hspecifiers e (hmem.2 ⟨he, hkind⟩) e' (hmem.2 ⟨he', hkind'⟩) hname
      exact (exportSpecifier_inj hname).1 htext
  · rintro ⟨hne, hnamed⟩
    refine ⟨hdefault, fun e he e' he' hname => ?_, fun name hd hn => ?_⟩
    · obtain ⟨hin, hkind⟩ := hmem.1 he
      obtain ⟨hin', hkind'⟩ := hmem.1 he'
      exact (exportSpecifier_inj hname).2 (hnamed e hin e' hin' hkind hkind' hname)
    · obtain ⟨d, hfound, rfl⟩ := List.mem_map.1 hd
      obtain ⟨e, he, heq⟩ := List.mem_map.1 (mem_namesDeclared_declarationsBy.1 hn)
      obtain ⟨hin, hkind⟩ := hmem.1 he
      exact hne d (Option.mem_toList.1 hfound) e hin hkind heq

/-- The include lines declare no name twice if no name is published in two ways. -/
theorem nodup_namesDeclared_subjectDeclarations {literal : String} {exports : List Export}
    {slotExports : List SlotExport} :
    (namesDeclared (subjectDeclarations literal exports slotExports)).Nodup ↔
      PublishesOnce exports slotExports := by
  unfold subjectDeclarations
  split
  · next hempty =>
    obtain rfl := List.isEmpty_iff.1 hempty
    rw [nodup_namesDeclared_declarationsBy]
    constructor
    · intro hlines
      exact
        { default_ne := by intro d hd; cases hd
          named := by intro e he; cases he
          slot := fun _ e he e' he' hname => (slotLine_inj hname).1 (hlines e he e' he' hname) }
    · intro honce e he e' he' hname
      exact (slotLine_inj hname).2 (honce.slot rfl e he e' he' hname)
  · next hempty =>
    have hne : exports ≠ [] := fun hnil => hempty (List.isEmpty_iff.2 hnil)
    show ((exportDeclaration literal exports).names ++ []).Nodup ↔ _
    rw [List.append_nil, nodup_names_exportDeclaration]
    constructor
    · rintro ⟨hdefault, hnamed⟩
      exact ⟨hdefault, hnamed, fun hnil => absurd hnil hne⟩
    · intro honce
      exact ⟨honce.default_ne, honce.named⟩

/-- The repeated `import` statements of a well-formed model declare what they bind. -/
theorem namesDeclared_imports {imports : List Import} (h : ∀ d ∈ imports, d.WellFormed) :
    namesDeclared (imports.map Import.declaration) = imports.flatMap Import.localNames := by
  rw [namesDeclared, List.flatMap_map]
  refine List.flatMap_congr fun d hd => ?_
  show (if d.kind == .sideEffect then [] else d.localNames) = d.localNames
  split
  · next hkind => rw [Import.localNames, (h d hd).bare (eq_of_beq hkind)]; rfl
  · rfl

/-- The repeated requires declare each name once if no two of them bind the same. -/
theorem nodup_namesDeclared_requires {requires : List Require}
    (h : (requires.map (·.localName)).Nodup) :
    (namesDeclared (requireDeclarations requires)).Nodup := by
  apply nodup_namesDeclared_declarationsBy.2
  intro r hr r' hr' hname
  rw [List.inj_on_of_nodup_map h hr hr' hname]

/-- The lines of a scaffold declare no name twice if the model publishes apart, given that the module takes
no name twice from elsewhere. -/
theorem nodup_namesDeclared_iff {m : Model} {ds : List Declaration} (hm : m.WellFormed)
    (hforeign : m.foreignNames.Nodup) (hds : m.declarations? = some ds) :
    (namesDeclared ds).Nodup ↔ m.PublishesApart := by
  obtain ⟨path, -, rfl⟩ := Option.map_eq_some_iff.1 hds
  obtain ⟨himports, hrequires, hdisjoint⟩ := List.nodup_append'.1 hforeign
  have hmem : ∀ {name : String}, name ∈ m.foreignNames ↔
      name ∈ m.imports.flatMap Import.localNames ++ namesDeclared (requireDeclarations m.requires) := by
    intro name
    rw [Model.foreignNames, List.mem_append, List.mem_append, requireDeclarations,
      mem_namesDeclared_declarationsBy]
  -- Repeating what the module takes from elsewhere declares nothing twice.
  have hdependencies :
      (m.imports.flatMap Import.localNames ++ namesDeclared (requireDeclarations m.requires)).Nodup := by
    refine List.nodup_append'.2 ⟨himports, nodup_namesDeclared_requires hrequires, ?_⟩
    intro name hn hn'
    exact hdisjoint hn (mem_namesDeclared_declarationsBy.1 hn')
  rw [namesDeclared_append, namesDeclared_append, namesDeclared_imports hm.imports, List.nodup_append',
    nodup_namesDeclared_subjectDeclarations]
  constructor
  · rintro ⟨-, honce, hapart⟩
    refine ⟨fun name hincluded hname => ?_, honce⟩
    exact hapart (hmem.1 hname) (mem_namesDeclared_subjectDeclarations.2 hincluded)
  · rintro ⟨hown, honce⟩
    refine ⟨hdependencies, honce, fun name hname hincluded => ?_⟩
    exact hown name (mem_namesDeclared_subjectDeclarations.1 hincluded) (hmem.2 hname)

/-- **When a scaffold declares its names once.** Let a module be read that takes no name twice from
elsewhere. Then its scaffold has lines that repeat its `import` statements and requires and include the
module itself, and these declare no name twice exactly if every included name is the module's own and is
published once. -/
theorem declaresOnce_iff_publishesApart {parser : Parser} {src : SourceText} {filename : String}
    {framework : Framework} {m : Model} {s : Scaffold} (hread : readModel parser src filename = .ok m)
    (hforeign : m.foreignNames.Nodup) (hs : scaffold? framework m = some s) :
    ∃ ds, m.declarations? = some ds ∧
      (ds.map fun d => Statement.line d.text).Sublist s.statements ∧
      ((namesDeclared ds).Nodup ↔ m.PublishesApart) := by
  obtain ⟨moduleSection, hsection, -⟩ := Option.map_eq_some_iff.1 hs
  obtain ⟨path, hpath, -⟩ := Option.map_eq_some_iff.1 hsection
  have hds : m.declarations? = some (m.imports.map Import.declaration ++
      requireDeclarations m.requires ++ subjectDeclarations (quoted path) m.exports m.slotExports) := by
    rw [Model.declarations?, hpath]
    rfl
  refine ⟨_, hds, sublist_declarations hs hds, ?_⟩
  exact nodup_namesDeclared_iff (wellFormed_of_readModel hread) hforeign hds

/-- The listing of a module that takes two names from elsewhere and exports two functions. -/
def borrowingListing : List Row :=
  [.make 0 1 "program" 0 97 none, .make 1 1 "import_statement" 0 22 none, .make 2 0 "import" 0 6 none,
    .make 2 1 "import_clause" 7 12 none, .make 3 1 "named_imports" 7 12 none, .make 4 0 "\x7b" 7 8 none,
    .make 4 1 "import_specifier" 9 10 none, .make 5 1 "identifier" 9 10 "name", .make 4 0 "\x7d" 11 12 none,
    .make 2 0 "from" 13 17 none, .make 2 1 "string" 18 21 "source", .make 3 0 "\"" 18 19 none,
    .make 3 1 "string_fragment" 19 20 none, .make 3 0 "\"" 20 21 none, .make 2 0 ";" 21 22 none,
    .make 1 1 "lexical_declaration" 23 46 none, .make 2 0 "const" 23 28 "kind",
    .make 2 1 "variable_declarator" 29 45 none, .make 3 1 "identifier" 29 30 "name",
    .make 3 0 "=" 31 32 none, .make 3 1 "call_expression" 33 45 "value",
    .make 4 1 "identifier" 33 40 "function", .make 4 1 "arguments" 40 45 "arguments",
    .make 5 0 "(" 40 41 none, .make 5 1 "string" 41 44 none, .make 6 0 "\"" 41 42 none,
    .make 6 1 "string_fragment" 42 43 none, .make 6 0 "\"" 43 44 none, .make 5 0 ")" 44 45 none,
    .make 2 0 ";" 45 46 none, .make 1 1 "export_statement" 47 69 none, .make 2 0 "export" 47 53 none,
    .make 2 1 "function_declaration" 54 69 "declaration", .make 3 0 "function" 54 62 none,
    .make 3 1 "identifier" 63 64 "name", .make 3 1 "formal_parameters" 64 66 "parameters",
    .make 4 0 "(" 64 65 none, .make 4 0 ")" 65 66 none, .make 3 1 "statement_block" 67 69 "body",
    .make 4 0 "\x7b" 67 68 none, .make 4 0 "\x7d" 68 69 none, .make 1 1 "export_statement" 70 97 none,
    .make 2 0 "export" 70 76 none, .make 2 1 "function_declaration" 77 97 "declaration",
    .make 3 0 "function" 77 85 none, .make 3 1 "identifier" 86 92 "name",
    .make 3 1 "formal_parameters" 92 94 "parameters", .make 4 0 "(" 92 93 none, .make 4 0 ")" 93 94 none,
    .make 3 1 "statement_block" 95 97 "body", .make 4 0 "\x7b" 95 96 none, .make 4 0 "\x7d" 96 97 none]

/-- The text of that module. -/
def borrowingText : SourceText :=
  SourceText.ofString
    "import \x7b a \x7d from \"m\";\nconst b = require(\"b\");\nexport function f() \x7b\x7d\nexport function helper() \x7b\x7d"

/-- The scaffold of that module declares what the module takes from elsewhere and what it exports, each once. -/
theorem declaresOnce_borrowing :
    ∃ m s, readModel (Parser.ofListing borrowingListing) borrowingText "my-module.js" = .ok m ∧
      m.foreignNames = ["a", "b"] ∧ m.foreignNames.Nodup ∧ scaffold? jest m = some s ∧
      ∃ ds, m.declarations? = some ds ∧ namesDeclared ds = ["a", "b", "f", "helper"] ∧
        (ds.map fun d => Statement.line d.text).Sublist s.statements ∧
        ((namesDeclared ds).Nodup ↔ m.PublishesApart) := by
  have hread : readModel (Parser.ofListing borrowingListing) borrowingText "my-module.js" = .ok _ := rfl
  have hnames : ∀ m, readModel (Parser.ofListing borrowingListing) borrowingText "my-module.js" = .ok m →
      m.foreignNames = ["a", "b"] ∧ m.declarations?.map namesDeclared = some ["a", "b", "f", "helper"] := by
    rintro m hm
    obtain rfl := Except.ok.inj hm
    decide +kernel
  obtain ⟨hforeign, hdeclared⟩ := hnames _ hread
  have hnodup := hforeign ▸ (by decide : ["a", "b"].Nodup)
  obtain ⟨ds, hds, hlines, honce⟩ := declaresOnce_iff_publishesApart hread hnodup rfl
  rw [hds] at hdeclared
  exact ⟨_, _, hread, hforeign, hnodup, rfl, ds, hds, Option.some.inj hdeclared, hlines, honce⟩

/-- The listing of a module that exports one function under two names. -/
def renamingListing : List Row :=
  [.make 0 1 "program" 0 42 none, .make 1 1 "export_statement" 0 26 none, .make 2 0 "export" 0 6 none,
    .make 2 1 "export_clause" 7 25 none, .make 3 0 "\x7b" 7 8 none,
    .make 3 1 "export_specifier" 9 15 none, .make 4 1 "identifier" 9 10 "name",
    .make 4 0 "as" 11 13 none, .make 4 1 "identifier" 14 15 "alias", .make 3 0 "," 15 16 none,
    .make 3 1 "export_specifier" 17 23 none, .make 4 1 "identifier" 17 18 "name",
    .make 4 0 "as" 19 21 none, .make 4 1 "identifier" 22 23 "alias", .make 3 0 "\x7d" 24 25 none,
    .make 2 0 ";" 25 26 none, .make 1 1 "function_declaration" 27 42 none,
    .make 2 0 "function" 27 35 none, .make 2 1 "identifier" 36 37 "name",
    .make 2 1 "formal_parameters" 37 39 "parameters", .make 3 0 "(" 37 38 none,
    .make 3 0 ")" 38 39 none, .make 2 1 "statement_block" 40 42 "body", .make 3 0 "\x7b" 40 41 none,
    .make 3 0 "\x7d" 41 42 none]

/-- The text of that module. -/
def renamingText : SourceText :=
  SourceText.ofString "export \x7b f as a, f as b \x7d;\nfunction f() \x7b\x7d"

/-- A function that is exported under two names is declared twice, although the module takes nothing from
elsewhere. -/
theorem declaresTwice_renaming :
    ∃ m s ds, readModel (Parser.ofListing renamingListing) renamingText "my-module.js" = .ok m ∧
      m.foreignNames.Nodup ∧ scaffold? jest m = some s ∧ m.declarations? = some ds ∧
      ¬(namesDeclared ds).Nodup := by
  refine ⟨_, _, _, rfl, ?_, rfl, rfl, ?_⟩
  · decide
  · decide

end TestScaffold
