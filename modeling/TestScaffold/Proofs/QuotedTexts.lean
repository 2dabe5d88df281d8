import TestScaffold.Proofs.DistinctImports
import TestScaffold.Proofs.Layout
import TestScaffold.Proofs.ObservedCalls
import TestScaffold.Proofs.Rendering

set_option autoImplicit false

/-!
# Quoted texts

A scaffold has paths of modules, names of files and names of methods in it as string literals. These may hold
anything, quotes and backslashes included. A reader that is behind the opening quote of a literal gets the text
that was quoted, and stops where the literal ends, whatever follows; so none of these texts takes part in the
line around it.

## Main definitions

* `TestScaffold.LiteralLine` — a line with a literal in it.
* `TestScaffold.LiteralLine.ReadsBack` — the literal is read back, and nothing of the line with it.
* `TestScaffold.Model.Quotes`, `TestScaffold.Model.WritesPlain` — the lines of a scaffold with a literal, and
  those without.

## Main results

* `TestScaffold.scan_quoted_append` — a literal is read back whatever follows it.
* `TestScaffold.quoted_append_inj` — no literal is the beginning of another.
* `TestScaffold.Model.quotes_or_writesPlain` — the lines of a scaffold.
* `TestScaffold.literals_delimited` — literals by themselves and in the lines of a scaffold.

## Implementation notes

What stands before and behind the literal of a line is given without the quoted text. Statements that require a
module are repeated as they were found, with the literals in them, and so count as lines without a literal.
-/

namespace TestScaffold

/-! ## Literals -/

/-- A literal is its opening quote, and behind this the reading gets the text and stops behind the literal. -/
theorem scan_quoted_append (s t : String) :
    ∃ rest, (quoted s ++ t).toList = '"' :: rest ∧ Literal.scan rest = some (s.toList, t.toList) := by
  refine ⟨Literal.escape s.toList ++ '"' :: t.toList, ?_, Literal.scan_escape_append _ _⟩
  rw [String.toList_append, quoted, String.toList_ofList, List.cons_append, List.append_assoc,
    List.singleton_append]

/-- There is no line feed in the form of a character. -/
theorem lineFeed_not_mem_escapeChar (c : Char) : '\n' ∉ Literal.escapeChar c := by
  unfold Literal.escapeChar
  split
  · decide
  · decide
  · decide
  · next hlf => exact fun hmem => hlf (List.mem_singleton.1 hmem).symm

/-- **There is no line feed in a literal.** -/
theorem lineFeed_not_mem_quoted (s : String) : '\n' ∉ (quoted s).toList := by
  rw [quoted, String.toList_ofList, List.mem_cons, List.mem_append, List.mem_singleton, Literal.escape,
    List.mem_flatMap]
  rintro (hquote | ⟨c, -, hc⟩ | hquote)
  · exact absurd hquote (by decide)
  · exact lineFeed_not_mem_escapeChar c hc
  · exact absurd hquote (by decide)

/-- **No literal is the beginning of another**: a literal can be split off the front of any text. -/
theorem quoted_append_inj {s t u v : String} (h : quoted s ++ u = quoted t ++ v) : s = t ∧ u = v := by
  obtain ⟨rest, hs, hread⟩ := scan_quoted_append s u
  obtain ⟨rest', ht, hread'⟩ := scan_quoted_append t v
  rw [h, ht] at hs
  obtain ⟨-, rfl⟩ := List.cons.inj hs
  have heq := Option.some.inj (hread.symm.trans hread')
  exact ⟨String.toList_inj.1 (congrArg Prod.fst heq), String.toList_inj.1 (congrArg Prod.snd heq)⟩

/-! ## Lines with a literal -/

/-- A line with a literal in it. -/
structure LiteralLine where
  /-- What stands before the literal. -/
  front : String
  /-- What is quoted. -/
  value : String
  /-- What stands behind the literal. -/
  back : String

namespace LiteralLine

/-- The text of the line. -/
def text (x : LiteralLine) : String := x.front ++ quoted x.value ++ x.back

/-- `x.ReadsBack`: a quote follows what stands before the literal, and a reading from there on gets what is quoted
and stops at what stands behind. -/
def ReadsBack (x : LiteralLine) : Prop :=
  ∃ rest, x.text.toList = x.front.toList ++ '"' :: rest ∧
    Literal.scan rest = some (x.value.toList, x.back.toList)

/-- **The literal of a line is read back.** -/
theorem readsBack (x : LiteralLine) : x.ReadsBack := by
  obtain ⟨rest, hrest, hread⟩ := scan_quoted_append x.value x.back
  refine ⟨rest, ?_, hread⟩
  rw [text, String.append_assoc, String.toList_append, hrest]

end LiteralLine

/-! ## The lines of a scaffold -/

/-- `m.Quotes path x`: a line with a literal that may be written for a module which is imported as `path`. -/
inductive Model.Quotes (m : Model) (path : String) : LiteralLine → Prop where
  /-- An import that binds nothing. -/
  | sideEffect {d : Import} (hd : d ∈ m.imports) (hkind : d.kind = .sideEffect) :
    Quotes m path ⟨"import ", d.modulePath, ";"⟩
  /-- An import with its bindings. -/
  | bindings {d : Import} (hd : d ∈ m.imports) (hkind : d.kind ≠ .sideEffect) :
    Quotes m path ⟨"import " ++ (if d.typeOnly then "type " else "") ++ importClause d.bindings ++ " from ",
      d.modulePath, ";"⟩
  /-- The substitute of an imported module, on one line or with entries. -/
  | substitute {d : Import} {back : String} (hd : d ∈ m.imports)
    (hback : back = ", () => (\x7b" ∨ back = ", () => (\x7b\x7d));") : Quotes m path ⟨"jest.mock(", d.modulePath, back⟩
  /-- The import of what `export` statements publish. -/
  | exports (hexports : m.exports ≠ []) :
    Quotes m path ⟨"import " ++ exportImportClause m.exports ++ " from ", path, ";"⟩
  /-- What is taken from the export slot, which is the whole of it or a property. -/
  | slot {e : SlotExport} {back : String} (he : e ∈ m.slotExports)
    (hback : back = ");" ∨ back = ")." ++ e.publicName ++ ";") :
    Quotes m path ⟨"const " ++ e.localName ++ " = require(", path, back⟩
  /-- The suite, called like the file. -/
  | suite : Quotes m path ⟨"describe(", baseName m.specifier, ", () => \x7b"⟩
  /-- A test, called like the method or function. -/
  | test {t : TestCase} (ht : t ∈ m.testCases) : Quotes m path ⟨"test(", t.description, ", () => \x7b"⟩
  /-- The spy on a method. -/
  | spy {t : TestCase} {o : Jest.Observation} (ht : t ∈ m.testCases) (hsite : o.site ∈ t.calls)
    (hsplits : o.Splits t.receiver) : Quotes m path ⟨"jest.spyOn(" ++ dotted o.object ++ ", ", o.method, ");"⟩

/-- `m.WritesPlain text`: a line that is written without quoting anything. -/
inductive Model.WritesPlain (m : Model) : String → Prop where
  /-- A comment on what is not described. -/
  | report {d : Diagnostic} (hd : d ∈ m.diagnostics) : WritesPlain m ("// unsupported: " ++ d.text)
  /-- A statement that requires a module, as it was found. -/
  | require {r : Require} (hr : r ∈ m.requires) : WritesPlain m r.statement
  /-- A line of a written mock tree. -/
  | mock {d : Import} {s : Statement} {text : String} (hd : d ∈ m.imports)
    (hs : s ∈ MockTree.renderAll (Jest.mocks d m.usages)) (h : s.Writes text) : WritesPlain m text
  /-- A line of what surrounds the tests. -/
  | frame {s : Statement} {text : String} (hs : s ∈ suiteFrame jest m) (h : s.Writes text) : WritesPlain m text
  /-- A line of a test: the declaration of an argument, or the call. -/
  | body {t : TestCase} {d : Declaration} (ht : t ∈ m.testCases) (hd : d ∈ t.declarations) : WritesPlain m d.text
  /-- The end of a block. -/
  | closing {text : String} (h : text = "\x7d);" ∨ text = "\x7d));") : WritesPlain m text

namespace Model

/-- `m.Emits path text`: a line that may be written for a module which is imported as `path`. -/
def Emits (m : Model) (path text : String) : Prop :=
  m.WritesPlain text ∨ ∃ x, m.Quotes path x ∧ text = x.text

variable {m : Model} {path text : String} {s : Statement}

/-- A line for which what stands around its literal is known. -/
theorem Quotes.emits {x : LiteralLine} (h : m.Quotes path x) : m.Emits path x.text := Or.inr ⟨x, h, rfl⟩

/-- The line of an import has the path as its literal. -/
theorem emits_importLine {d : Import} (hd : d ∈ m.imports) : m.Emits path (importLine d) := by
  rw [importLine]
  by_cases hkind : d.kind = .sideEffect
  · rw [if_pos (beq_iff_eq.2 hkind)]
    exact (Quotes.sideEffect hd hkind).emits
  · rw [if_neg (mt beq_iff_eq.1 hkind)]
    exact (Quotes.bindings hd hkind).emits

/-- The lines of a substitute are its ends, and the entries between. -/
theorem emits_substitute {d : Import} (hd : d ∈ m.imports) {ss : List Statement}
    (hss : Jest.SubstituteFor m.usages d ss) (hs : s ∈ ss) (h : s.Writes text) : m.Emits path text := by
  have hopening : Jest.substituteOpening d = LiteralLine.text ⟨"jest.mock(", d.modulePath, ", () => (\x7b"⟩ := rfl
  by_cases hskip : d.typeOnly = true ∨ d.kind = .sideEffect
  · rw [hss.absent hskip] at hs
    cases hs
  · rw [not_or, Bool.not_eq_true] at hskip
    by_cases hnone : Jest.mocks d m.usages = []
    · rw [hss.empty hskip.1 hskip.2 hnone, List.mem_singleton] at hs
      subst hs
      cases h
      have hline : Jest.substituteOpening d ++ "\x7d));" =
          LiteralLine.text ⟨"jest.mock(", d.modulePath, ", () => (\x7b\x7d));"⟩ := by
        rw [hopening, LiteralLine.text, LiteralLine.text, String.append_assoc]
        rfl
      rw [hline]
      exact (Quotes.substitute hd (Or.inr rfl)).emits
    · rw [hss.entries hskip.1 hskip.2 hnone, List.mem_singleton] at hs
      subst hs
      cases h with
      | opening =>
        rw [hopening]
        exact (Quotes.substitute hd (Or.inl rfl)).emits
      | inside hs h => exact Or.inl (.mock hd hs h)
      | closing => exact Or.inl (.closing (Or.inr rfl))

/-- The lines that import the module have the name that it is imported by as their literal. -/
theorem emits_subjectLine (h : text ∈ subjectLines (quoted path) m.exports m.slotExports) : m.Emits path text := by
  rw [subjectLines] at h
  by_cases hexports : m.exports = []
  · rw [if_pos (List.isEmpty_iff.2 hexports), List.mem_eraseDups, List.mem_map] at h
    obtain ⟨e, he, rfl⟩ := h
    -- What stands behind the literal is written in pieces.
    have hwhole : "const " ++ e.localName ++ " = require(" ++ quoted path ++ ")" ++ ";" =
        LiteralLine.text ⟨"const " ++ e.localName ++ " = require(", path, ");"⟩ := by
      rw [LiteralLine.text, String.append_assoc]
      rfl
    have hproperty : "const " ++ e.localName ++ " = require(" ++ quoted path ++ ")" ++ "." ++ e.publicName ++ ";" =
        LiteralLine.text ⟨"const " ++ e.localName ++ " = require(", path, ")." ++ e.publicName ++ ";"⟩ := by
      have hdot : ")." ++ e.publicName ++ ";" = ")" ++ ("." ++ (e.publicName ++ ";")) := by
        rw [← String.append_assoc, ← String.append_assoc]
        rfl
      simp only [LiteralLine.text, hdot, String.append_assoc]
    rw [slotLine]
    split
    · rw [hwhole]
      exact (Quotes.slot he (Or.inl rfl)).emits
    · rw [hproperty]
      exact (Quotes.slot he (Or.inr rfl)).emits
  · rw [if_neg (mt List.isEmpty_iff.1 hexports), List.mem_singleton] at h
    subst h
    exact (Quotes.exports hexports).emits

/-- The line that opens a test or a suite has its description as its literal. -/
theorem callback_opening (word description : String) : word ++ quoted description ++ ", " ++ "() => \x7b" =
    LiteralLine.text ⟨word, description, ", () => \x7b"⟩ := by
  rw [LiteralLine.text, String.append_assoc]
  rfl

/-- The lines of a test are its ends, the spies, and plain lines. -/
theorem emits_caseBlock {t : TestCase} (ht : t ∈ m.testCases) (h : (caseBlock jest m t).Writes text) :
    m.Emits path text := by
  cases h with
  | opening =>
    rw [callback_opening]
    exact (Quotes.test ht).emits
  | inside hs h =>
    rw [caseBody_jest, List.mem_append] at hs
    rcases hs with hs | hs
    · obtain ⟨o, hsite, -, hsplits, rfl⟩ := (Jest.mem_spies_iff _ _ _).1 hs
      cases h
      exact (Quotes.spy ht hsite hsplits).emits
    · obtain ⟨d, hd, rfl⟩ := List.mem_map.1 hs
      cases h
      exact Or.inl (.body ht hd)
  | closing => exact Or.inl (.closing (Or.inl rfl))

/-- The lines of a suite are its ends, the lines around the tests, and those of the tests. -/
theorem emits_suite (h : (suite jest m).Writes text) : m.Emits path text := by
  cases h with
  | opening =>
    rw [callback_opening]
    exact Quotes.suite.emits
  | inside hs h =>
    rcases List.mem_append.1 hs with hs | hs
    · exact Or.inl (.frame hs h)
    · obtain ⟨t, ht, rfl⟩ := List.mem_map.1 hs
      exact emits_caseBlock ht h
  | closing => exact Or.inl (.closing (Or.inl rfl))

/-- The lines of what a module takes from elsewhere are its imports, their substitutes, and its requires. -/
theorem emits_dependencySection (hs : s ∈ dependencySection jest m) (h : s.Writes text) : m.Emits path text := by
  rw [dependencySection, List.mem_append, List.mem_append] at hs
  rcases hs with (hs | hs) | hs
  · cases hs
  · obtain ⟨d, hd, hs⟩ := List.mem_flatMap.1 hs
    rcases List.mem_cons.1 hs with rfl | hs
    · cases h
      exact emits_importLine hd
    · exact emits_substitute hd (Jest.substituteFor_substitute m.usages d) hs h
  · obtain ⟨statement, hstatement, rfl⟩ := List.mem_map.1 hs
    rw [requireStatements, List.mem_eraseDups] at hstatement
    obtain ⟨r, hr, rfl⟩ := List.mem_map.1 hstatement
    cases h
    exact Or.inl (.require hr)

/-- Spacing adds blank lines only. -/
theorem mem_of_writes_spaced {ss : List Statement} (hs : s ∈ Statement.spaced ss) (h : s.Writes text) : s ∈ ss := by
  rw [Statement.spaced] at hs
  split at hs
  · cases hs
  · rcases List.mem_append.1 hs with hs | hs
    · exact hs
    · rw [List.mem_singleton] at hs
      subst hs
      cases h

/-- **The lines of a scaffold** either quote a text at a known place, or are written without quoting. -/
theorem quotes_or_writesPlain {d : Scaffold} {k : Nat} (hd : scaffold? jest m = some d)
    (htext : some (k, text) ∈ d.lines) :
    ∃ path, withoutExtension? m.specifier = some path ∧ m.Emits path text := by
  rw [Sections.scaffold?_eq] at hd
  obtain ⟨path, hpath, rfl⟩ := Option.map_eq_some_iff.1 hd
  refine ⟨path, hpath, ?_⟩
  obtain ⟨s, hs, h⟩ := Statement.writes_of_mem_linesAll _ 0 htext
  rw [Sections.statements, List.mem_append, List.mem_append, List.mem_append] at hs
  rcases hs with ((hs | hs) | hs) | hs
  · obtain ⟨diagnostic, hdiagnostic, rfl⟩ := List.mem_map.1 (mem_of_writes_spaced hs h)
    cases h
    exact Or.inl (.report hdiagnostic)
  · exact emits_dependencySection (mem_of_writes_spaced hs h) h
  · obtain ⟨line, hline, rfl⟩ := List.mem_map.1 (mem_of_writes_spaced hs h)
    cases h
    exact emits_subjectLine hline
  · rw [List.mem_singleton] at hs
    subst hs
    exact emits_suite h

end Model

/-! ## All together -/

/-- **Literals are delimited.** Behind the opening quote of a literal, whatever follows the literal, a reading gets
the text that was quoted and stops where the literal ends; it meets no line feed on the way. So a literal can be
split off the front of any text, and it determines what was quoted. In a scaffold, each line that quotes a path,
the name of the file or the name of a method has fixed parts around the literal, and behind the opening quote a
reading gets just what was quoted and stops at the part that follows. The other lines quote nothing.

**Proof sketch.** Reading undoes quoting, by induction on the text for any text that follows. The lines of a
scaffold are gone through by sections: imports with their substitutes, the lines that import the module, and the
suite with its tests and their spies. -/
theorem literals_delimited :
    (∀ s t : String, ∃ rest, (quoted s ++ t).toList = '"' :: rest ∧
      Literal.scan rest = some (s.toList, t.toList)) ∧
      (∀ s : String, '\n' ∉ (quoted s).toList) ∧
      (∀ s t u v : String, quoted s ++ u = quoted t ++ v → s = t ∧ u = v) ∧
      Function.Injective quoted ∧
      ∀ (m : Model) (d : Scaffold), scaffold? jest m = some d → ∀ k text, some (k, text) ∈ d.lines →
        m.WritesPlain text ∨ ∃ path x, withoutExtension? m.specifier = some path ∧ m.Quotes path x ∧
          text = x.text ∧ x.ReadsBack := by
  refine ⟨scan_quoted_append, lineFeed_not_mem_quoted, fun s t u v => quoted_append_inj, quoted_injective,
    fun m d hd k text htext => ?_⟩
  obtain ⟨path, hpath, hplain | ⟨x, hx, rfl⟩⟩ := Model.quotes_or_writesPlain hd htext
  · exact Or.inl hplain
  · exact Or.inr ⟨path, x, hpath, hx, rfl, x.readsBack⟩

/-- A module whose names look like the ends of literals. -/
def hostileModel : Model where
  specifier := "a\"); b(\"\\.js"
  imports := [⟨.default, [.default "x"], "y\";\n\\", false⟩]
  requires := []
  classes := []
  functions := [⟨"f\\\"", .function, [], [], [], false, [], none⟩]
  usages := []
  slotExports := [⟨"f", "f", .whole⟩]
  exports := []
  diagnostics := []

/-- Its scaffold. -/
def hostileScaffold : Scaffold := (scaffold? jest hostileModel).get (by decide +kernel)

/-- The line that imports this module. -/
def hostileLine : String := "const f = require(\"a\\\"); b(\\\"\\\\\");"

/-- The name that the module is imported by is read back, although it ends in a backslash. -/
theorem literals_delimited_hostile :
    scaffold? jest hostileModel = some hostileScaffold ∧ some (0, hostileLine) ∈ hostileScaffold.lines ∧
      ∃ path x, withoutExtension? hostileModel.specifier = some path ∧ hostileModel.Quotes path x ∧
        hostileLine = x.text ∧ x.ReadsBack := by
  have hscaffold : scaffold? jest hostileModel = some hostileScaffold := (Option.some_get _).symm
  have hline : some (0, hostileLine) ∈ hostileScaffold.lines := by decide +kernel
  refine ⟨hscaffold, hline, ?_⟩
  obtain ⟨-, -, -, -, hlines⟩ := literals_delimited
  refine (hlines _ _ hscaffold _ _ hline).resolve_left fun hplain => ?_
  generalize htext : hostileLine = text at hplain
  cases hplain with
  | report hd => cases hd
  | require hr => cases hr
  | @mock d s _ hd hs =>
    obtain rfl := List.mem_singleton.1 hd
    have hnone : s ∈ ([] : List Statement) := hs
    cases hnone
  | @frame s _ hs =>
    have hnone : s ∈ ([] : List Statement) := hs
    cases hnone
  | body ht hd =>
    obtain rfl := List.mem_singleton.1 ht
    obtain rfl := List.mem_singleton.1 hd
    exact absurd htext (by decide +kernel)
  | closing h =>
    subst htext
    exact absurd h (by decide +kernel)

end TestScaffold
