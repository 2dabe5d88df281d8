import TestScaffold.Proofs.AccessNames
import TestScaffold.Proofs.MockAgreement
import TestScaffold.Proofs.WellFormed

set_option autoImplicit false

/-!
# Which accesses of a scaffold go through plain names

A scaffold accesses members in four places: a test calls its unit, and observes calls on what they are made on;
recorded calls are forgotten through the name of what is called; and a property of the export slot is read when
the module under test is imported. For each of them the names are traced to the source, which tells whether the
access is one that the language has.

## Main definitions

* `TestScaffold.Tree.PublishesAt` — the keys that properties of the export slot are published under.
* `TestScaffold.SlotExport.ReadsPlainly`, `TestScaffold.Tree.NamesProperty` — a property is read by a plain name,
  and its key is for one.
* `TestScaffold.Model.AccessForms` — when the accesses of a scaffold go through plain names.

## Main results

* `TestScaffold.exists_publishesAt_of_mem_slotExports` — every published property has a key.
* `TestScaffold.Tree.NamesSpelled.isWord_publicName_iff` — when a property is published under a plain name.
* `TestScaffold.accessForms_of_readModel` — the accesses of the scaffold for a module that is parsed.
-/

namespace TestScaffold

variable {src : SourceText} {root : Tree} {specifier : String}

/-! ## Keys of the export slot -/

section Slot

/-- A published name with the node that spells it, for the properties of the export slot. -/
inductive Tree.PublishesAt (src : SourceText) (root : Tree) : Tree → SlotExport → Prop where
  /-- A property of an assigned object is named like its value. -/
  | shorthand {key : Tree} (hkey : key ∈ root.preorder) (hkind : key.kind = .shorthandPropertyIdentifier) :
    PublishesAt src root key ⟨key.text src, key.text src, .property⟩
  /-- A property of an assigned object has a key. -/
  | pair {prop key value : Tree} (hprop : prop ∈ root.preorder) (hkind : prop.kind = .pair)
      (hkey : prop.childAt? .key = some key) (hvalue : prop.childAt? .value = some value)
      (hplain : key.kind ≠ .computedPropertyName) :
    PublishesAt src root key ⟨stripQuotes (key.text src), value.text src, .property⟩
  /-- A property of the slot is assigned to. -/
  | member {left key value : Tree} (hleft : left ∈ root.preorder) (hkind : left.kind = .memberExpression)
      (hkey : left.childAt? .property = some key) :
    PublishesAt src root key ⟨key.text src, value.text src, .property⟩

variable {e : SlotExport}

/-- What an `export` statement publishes is not in the export slot. -/
theorem slotExported_not_mem_exportFindings {statement : Tree} :
    Finding.slotExported e ∉ exportFindings src statement := by
  intro h
  unfold exportFindings at h
  split at h
  · obtain ⟨name, -, heq⟩ := List.mem_map.1 h
    cases heq
  · split at h
    · obtain ⟨name, -, heq⟩ := List.mem_map.1 h
      cases heq
    · split at h
      · split at h
        · cases List.mem_singleton.1 h
        · cases List.mem_singleton.1 h
      · obtain ⟨spec, -, hspec⟩ := List.mem_filterMap.1 h
        obtain ⟨nameNode, -, heq⟩ := Option.map_eq_some_iff.1 hspec
        cases heq

/-- What is found at a call is not in the export slot. -/
theorem slotExported_not_mem_requireFindings {p : Locus} : Finding.slotExported e ∉ requireFindings src p := by
  intro h
  unfold requireFindings at h
  split at h
  · cases h
  · split at h
    · cases h
    · split at h
      · cases h
      · split at h
        · cases List.mem_singleton.1 h
        · dsimp only at h
          split at h
          · cases List.mem_singleton.1 h
          · obtain ⟨name, -, heq⟩ := List.mem_map.1 h
            cases heq

/-- What is published through the export slot is found at an assignment. -/
theorem mem_slotFindings_of_mem_findings {p : Locus} (h : .slotExported e ∈ p.findings src) :
    .slotExported e ∈ slotFindings src p.node := by
  rcases Locus.source_of_mem_findings h with (hclass | hdeclaration | hexpression) | ⟨d, heq⟩ | hexport |
    hrequire | hslot
  · rw [Locus.findings_eq_classFindings hclass, classFindings] at h
    split at h <;> cases List.mem_singleton.1 h
  · rw [Locus.findings_eq_declarationFindings hdeclaration, declarationFindings] at h
    split at h
    · cases List.mem_singleton.1 h
    · cases h
  · rw [Locus.findings_eq_functionExpressionFindings hexpression, functionExpressionFindings] at h
    split at h
    · cases List.mem_singleton.1 h
    · cases h
  · cases heq
  · exact absurd hexport slotExported_not_mem_exportFindings
  · exact absurd hrequire slotExported_not_mem_requireFindings
  · exact hslot

/-- A property of an assigned object is published under its key. -/
theorem exists_publishesAt_of_mem_objectPropertyFindings {prop : Tree} (hprop : prop ∈ root.preorder)
    (h : .slotExported e ∈ objectPropertyFindings src prop) : ∃ key, root.PublishesAt src key e := by
  unfold objectPropertyFindings at h
  split at h
  · next hkind =>
    obtain rfl := Finding.slotExported.inj (List.mem_singleton.1 h)
    exact ⟨prop, .shorthand hprop hkind⟩
  · next hkind =>
    split at h
    · next key value hkey hvalue =>
      split at h
      · next hplain =>
        obtain rfl := Finding.slotExported.inj (List.mem_singleton.1 h)
        rw [Bool.and_eq_true, bne_iff_ne] at hplain
        exact ⟨key, .pair hprop hkind hkey hvalue hplain.2⟩
      · split at h
        · cases List.mem_singleton.1 h
        · cases h
    · cases h
  · cases List.mem_singleton.1 h
  · cases h

/-- A property that is published at an assignment is so under a key. -/
theorem exists_publishesAt_of_mem_slotFindings {assignment : Tree} (hin : assignment ∈ root.preorder)
    (h : .slotExported e ∈ slotFindings src assignment) (hpart : e.part = .property) :
    ∃ key, root.PublishesAt src key e := by
  unfold slotFindings at h
  split at h
  · next left right hleft hright =>
    split at h
    · cases h
    · next hkind =>
      replace hkind : left.kind = .memberExpression := by simpa using hkind
      split at h
      · unfold wholeSlotFindings at h
        split at h
        · obtain rfl := Finding.slotExported.inj (List.mem_singleton.1 h)
          cases hpart
        · obtain ⟨prop, hprop, hfound⟩ := List.mem_flatMap.1 h
          have hobject := Tree.mem_preorder_of_childAt? hin hright
          exact exists_publishesAt_of_mem_objectPropertyFindings
            (Tree.mem_preorder_of_mem_namedChildren hobject hprop) hfound
        · split at h
          · cases List.mem_singleton.1 h
          · cases h
      · split at h
        · next object property _ hproperty =>
          split at h
          · unfold propertySlotFindings at h
            split at h
            · obtain rfl := Finding.slotExported.inj (List.mem_singleton.1 h)
              exact ⟨property, .member (Tree.mem_preorder_of_childAt? hin hleft) hkind hproperty⟩
            · split at h
              · cases List.mem_singleton.1 h
              · cases h
          · cases h
        · cases h
  · cases h

/-- **A published property has a key**: it is that of an assigned object, or a member of the slot. -/
theorem exists_publishesAt_of_mem_slotExports (h : e ∈ (Findings.ofTree src specifier root).slotExports)
    (hpart : e.part = .property) : ∃ key, root.PublishesAt src key e := by
  obtain ⟨x, hx, hsort⟩ := List.mem_filterMap.1 h
  obtain ⟨p, hp, hx⟩ := List.mem_flatMap.1 hx
  cases x with
  | slotExported e' =>
    obtain rfl := Option.some.inj hsort
    have hin := (Tree.reaches_of_mem_loci root .here hp).mem_preorder
    exact exists_publishesAt_of_mem_slotFindings hin (mem_slotFindings_of_mem_findings hx) hpart
  | _ => cases hsort

/-- The name that a key is for is plain: the key is so, or it is a literal with a plain name between its quotes. -/
def Tree.NamesProperty (src : SourceText) (key : Tree) : Prop :=
  NameForm.ofKind? key.kind = some .word ∨
    NameForm.ofKind? key.kind = some .quoted ∧ IsWord (stripQuotes (key.text src))

/-- The line that takes a published property from the module with the given literal reads it by a plain name. -/
def SlotExport.ReadsPlainly (literal : String) (e : SlotExport) : Prop :=
  ∃ name, IsWord name ∧
    slotLine literal e = "const " ++ e.localName ++ " = require(" ++ literal ++ ")" ++ "." ++ name ++ ";"

/-- The line for a property reads it by the published name. -/
theorem SlotExport.readsPlainly_iff {literal : String} (hpart : e.part = .property) :
    e.ReadsPlainly literal ↔ IsWord e.publicName := by
  have hline : slotLine literal e =
      "const " ++ e.localName ++ " = require(" ++ literal ++ ")" ++ "." ++ e.publicName ++ ";" := by
    rw [slotLine, hpart]
  rw [ReadsPlainly, hline]
  constructor
  · rintro ⟨name, hword, heq⟩
    rwa [(String.append_right_inj _).1 ((String.append_left_inj _).1 heq)]
  · exact fun hword => ⟨_, hword, rfl⟩

/-- A property is published under a word exactly if its key is for a plain name. -/
theorem Tree.NamesSpelled.isWord_publicName_iff (hspelled : root.NamesSpelled src) {key : Tree}
    (h : root.PublishesAt src key e) : IsWord e.publicName ↔ key.NamesProperty src := by
  cases h with
  | shorthand hkey hkind =>
    refine iff_of_true (hspelled.shorthand key hkey hkind) (Or.inl ?_)
    rw [hkind]
    decide
  | @pair prop _ _ hprop hkind hkey _ _ =>
    obtain ⟨form, -, hof, hfits⟩ := hspelled.named prop hprop (.key, [.word, .hidden, .quoted, .number, .computed])
      (by rw [hkind]; exact List.mem_cons_self) key hkey
    rw [NamesProperty, hof, Option.some.injEq, Option.some.injEq]
    exact hfits.isWord_stripQuotes_iff
  | @member left _ _ hleft hkind hkey =>
    obtain ⟨form, hform, hof, hfits⟩ := hspelled.named left hleft (.property, [.word, .hidden])
      (by rw [hkind]; exact List.mem_cons_self) key hkey
    have hquoted : form ≠ .quoted := by
      rintro rfl
      exact absurd hform (by decide)
    rw [NamesProperty, hof, Option.some.injEq, Option.some.injEq, or_iff_left fun h => hquoted h.1]
    exact hfits.isWord_iff

end Slot

/-! ## Recorded calls -/

/-- What is reached through the binding of a call is a part of its chain. -/
theorem CallChain.mem_segments_of_mem_names {site : CallChain} {name : String} (h : name ∈ site.names) :
    name ∈ site.segments := by
  unfold CallChain.names at h
  split at h
  · exact List.mem_of_mem_drop h
  · exact h

namespace Tree.NamesSpelled

variable (hspelled : root.NamesSpelled src)

include hspelled

/-- What stands for the own object in a test is a word or hidden. -/
theorem isMemberName_receiver {t : TestCase} {receiver : String}
    (ht : t ∈ (Findings.ofTree src specifier root).toModel.testCases) (h : t.receiver = some receiver) :
    IsMemberName receiver := by
  have hhead := head?_chain_of_receiver ht h
  rw [← Tree.map_case_sourcedTests] at ht
  obtain ⟨s, hs, rfl⟩ := List.mem_map.1 ht
  rcases hspelled.names_of_mem_sourcedTests hs with ⟨-, first, c, form, -, hchain, hword, -⟩ | ⟨-, hnames⟩
  · rw [hchain] at hhead
    exact Option.some.inj hhead ▸ Or.inl hword
  · exact hnames receiver (List.mem_of_mem_head? hhead)

/-- What a model has usage of is called through words or hidden names. -/
theorem isMemberName_of_mem_usages {u : Usage} {path : List String}
    (hu : u ∈ (Findings.ofTree src specifier root).toModel.usages) (hpath : path ∈ u.callables) :
    ∀ name ∈ u.name :: path, IsMemberName name := by
  have husage := (List.mem_filter.1 hu).1
  obtain ⟨site, hsite, hpart⟩ : ∃ site ∈ (Findings.ofTree src specifier root).publishedCalls,
      ∀ name ∈ u.name :: path, name ∈ site.names := by
    unfold Usage.callables at hpath
    split at hpath
    · obtain rfl := List.mem_singleton.1 hpath
      obtain ⟨site, hsite, hthrough⟩ := mem_names_usageOfCalls.1 (List.mem_map.2 ⟨u, husage, rfl⟩)
      exact ⟨site, hsite, List.forall_mem_singleton.2 (List.mem_of_mem_head? hthrough)⟩
    · obtain ⟨site, hsite, hthrough, rfl⟩ := exists_call_of_mem_paths husage hpath
      refine ⟨site, hsite, fun name hname => ?_⟩
      rw [CallChain.names_eq_of_through? hthrough]
      exact hname
  exact fun name hname => hspelled.isMemberName_of_mem_publishedCalls hsite name
    (CallChain.mem_segments_of_mem_names (hpart name hname))

/-- What a test observes is called through words or hidden names. -/
theorem isMemberName_of_spiedChain? {t : TestCase} {site : CallChain} {chain : List String}
    (ht : t ∈ (Findings.ofTree src specifier root).toModel.testCases) (hsite : site ∈ t.calls)
    (h : Jest.spiedChain? t.receiver site = some chain) : ∀ name ∈ chain, IsMemberName name := by
  have hsegments : ∀ name ∈ site.segments, IsMemberName name :=
    hspelled.isMemberName_of_mem_publishedCalls (Findings.mem_publishedCalls_of_mem_testCases ht hsite)
  unfold Jest.spiedChain? at h
  split at h
  · obtain ⟨receiver, hreceiver, rfl⟩ := Option.map_eq_some_iff.1 h
    refine List.forall_mem_cons.2 ⟨hspelled.isMemberName_receiver ht hreceiver, fun name hname => ?_⟩
    exact hsegments name (CallChain.mem_segments_of_mem_names hname)
  · obtain rfl := Option.some.inj h
    exact hsegments

end Tree.NamesSpelled

/-! ## All accesses -/

/-- **When the member accesses of a scaffold go through plain names.** -/
structure Model.AccessForms (m : Model) (src : SourceText) (specifier : String) (root : Tree) : Prop where
  /-- Each test is that of a node. -/
  tests : (root.sourcedTests src specifier).map (·.case) = m.testCases
  /-- The call of a test goes through plain names exactly if its first name is no reserved word, and all names are
  plain in the source. -/
  calls : ∀ s ∈ root.sourcedTests src specifier, ∀ head ∈ s.case.chain.head?,
    (s.case.CallsPlainly ↔ head ∉ reservedWords ∧ s.NamedPlainly)
  /-- A property of the export slot is read by a plain name exactly if its key is for one. -/
  properties : ∀ e ∈ m.slotExports, e.part = .property →
    ∃ key, root.PublishesAt src key e ∧ ∀ literal, e.ReadsPlainly literal ↔ key.NamesProperty src
  /-- The recorded calls of what is imported are forgotten through plain names exactly if the name inside this
  module is no reserved word and no name is hidden. -/
  resets : ∀ u ∈ m.usages,
    Jest.resets u = u.callables.map (fun path => .line (dotted (u.name :: path) ++ ".mockClear();")) ∧
      ∀ path ∈ u.callables,
        (IsAccess (dotted (u.name :: path)) ↔
          u.name ∉ reservedWords ∧ ∀ name ∈ u.name :: path, ¬IsHidden name)
  /-- What a call is observed on is given by plain names exactly if the first name is no reserved word and no name
  is hidden. -/
  spies : ∀ t ∈ m.testCases, ∀ site ∈ t.calls, ∀ chain ∈ Jest.spiedChain? t.receiver site,
    ∀ head ∈ chain.dropLast.head?,
      (IsAccess (dotted chain.dropLast) ↔ head ∉ reservedWords ∧ ∀ name ∈ chain.dropLast, ¬IsHidden name)

/-- The accesses of the scaffold for a tree with its names spelled like names. -/
theorem Tree.NamesSpelled.accessForms (hspelled : root.NamesSpelled src) :
    (Findings.ofTree src specifier root).toModel.AccessForms src specifier root where
  tests := Tree.map_case_sourcedTests
  calls := fun _ hs _ hhead => hspelled.callsPlainly_iff hs hhead
  properties := by
    intro e he hpart
    have hfound : e ∈ (Findings.ofTree src specifier root).slotExports := he
    obtain ⟨key, hkey⟩ := exists_publishesAt_of_mem_slotExports hfound hpart
    refine ⟨key, hkey, fun literal => ?_⟩
    rw [SlotExport.readsPlainly_iff hpart, hspelled.isWord_publicName_iff hkey]
  resets := by
    intro u hu
    have hused : u ∈ usageOfCalls (Findings.ofTree src specifier root).publishedCalls := (List.mem_filter.1 hu).1
    refine ⟨Jest.resets_eq (paths_of_mem_usageOfCalls hused).2, fun path hpath => ?_⟩
    exact isAccess_dotted_iff_not_isHidden rfl (hspelled.isMemberName_of_mem_usages hu hpath)
  spies := by
    intro t ht site hsite chain hchain head hhead
    have hnames := hspelled.isMemberName_of_spiedChain? ht hsite hchain
    exact isAccess_dotted_iff_not_isHidden hhead fun name hname => hnames name (List.dropLast_subset _ hname)

/-- **Which accesses of a scaffold go through plain names**, for a parser whose trees have their names spelled like
names: the call of a test does exactly if its first name is no reserved word and all of its names are plain in the
source; a property of the export slot is read by a plain name exactly if its key is plain, or a literal with a
plain name in it; and resets and observed calls go through plain names but for reserved words and hidden names.

**Proof sketch.** All names come from nodes of the tree: those of methods, classes, functions and keys, and the
names that calls are made through. The grammar tells the form of each, and a text is a word exactly if it is of
the plain form. Putting a first character in lower case keeps words. So the texts between the dots can be told
from the names, as those that are no words begin with a character that no word begins with. -/
theorem accessForms_of_readModel {parser : Parser} {src : SourceText} {filename : String} {m : Model}
    (hspelled : ∀ root, parseModule parser src filename = .ok root → root.NamesSpelled src)
    (hread : readModel parser src filename = .ok m) :
    ∃ root, parseModule parser src filename = .ok root ∧ m.AccessForms src filename root := by
  obtain ⟨root, hparse, rfl⟩ := exists_parseModule_of_readModel hread
  exact ⟨root, hparse, (hspelled root hparse).accessForms⟩

/-- The listing of a module with names of several forms. -/
def namesListing : List Row :=
  [.make 0 1 "program" 0 76 none, .make 1 1 "class_declaration" 0 26 none, .make 2 0 "class" 0 5 none,
    .make 2 1 "type_identifier" 6 7 "name", .make 2 1 "class_body" 8 26 "body", .make 3 0 "\x7b" 8 9 none,
    .make 3 1 "method_definition" 10 17 none, .make 4 1 "private_property_identifier" 10 12 "name",
    .make 4 1 "formal_parameters" 12 14 "parameters", .make 5 0 "(" 12 13 none, .make 5 0 ")" 13 14 none,
    .make 4 1 "statement_block" 15 17 "body", .make 5 0 "\x7b" 15 16 none, .make 5 0 "\x7d" 16 17 none,
    .make 3 1 "method_definition" 18 24 none, .make 4 1 "property_identifier" 18 19 "name",
    .make 4 1 "formal_parameters" 19 21 "parameters", .make 5 0 "(" 19 20 none, .make 5 0 ")" 20 21 none,
    .make 4 1 "statement_block" 22 24 "body", .make 5 0 "\x7b" 22 23 none, .make 5 0 "\x7d" 23 24 none,
    .make 3 0 "\x7d" 25 26 none, .make 1 1 "function_declaration" 27 42 none, .make 2 0 "function" 27 35 none,
    .make 2 1 "identifier" 36 37 "name", .make 2 1 "formal_parameters" 37 39 "parameters",
    .make 3 0 "(" 37 38 none, .make 3 0 ")" 38 39 none, .make 2 1 "statement_block" 40 42 "body",
    .make 3 0 "\x7b" 40 41 none, .make 3 0 "\x7d" 41 42 none, .make 1 1 "expression_statement" 43 76 none,
    .make 2 1 "assignment_expression" 43 75 none, .make 3 1 "member_expression" 43 57 "left",
    .make 4 1 "identifier" 43 49 "object", .make 4 0 "." 49 50 none,
    .make 4 1 "property_identifier" 50 57 "property", .make 3 0 "=" 58 59 none,
    .make 3 1 "object" 60 75 "right", .make 4 0 "\x7b" 60 61 none,
    .make 4 1 "shorthand_property_identifier" 62 63 none, .make 4 0 "," 63 64 none,
    .make 4 1 "pair" 65 73 none, .make 5 1 "string" 65 70 "key", .make 6 0 "'" 65 66 none,
    .make 6 1 "string_fragment" 66 69 none, .make 6 0 "'" 69 70 none, .make 5 0 ":" 70 71 none,
    .make 5 1 "identifier" 72 73 "value", .make 4 0 "\x7d" 74 75 none, .make 2 0 ";" 75 76 none]

/-- The text of that module. -/
def namesText : SourceText :=
  SourceText.ofString
    "class A \x7b #x() \x7b\x7d m() \x7b\x7d \x7d\nfunction f() \x7b\x7d\nmodule.exports = \x7b A, 'k-b': f \x7d;"

/-- The accesses of the scaffold for that module. -/
theorem accessForms_of_readModel_names :
    ∃ m root, readModel (Parser.ofListing namesListing) namesText "my-module.js" = .ok m ∧
      parseModule (Parser.ofListing namesListing) namesText "my-module.js" = .ok root ∧
      root.NamesSpelled namesText ∧ m.AccessForms namesText "my-module.js" root ∧
      m.testCases.map (·.call) = ["a.#x()", "a.m()", "f()"] ∧
      m.slotExports.map (·.publicName) = ["A", "k-b"] := by
  have hread : readModel (Parser.ofListing namesListing) namesText "my-module.js" = .ok _ := rfl
  have hspelled : ∀ root, parseModule (Parser.ofListing namesListing) namesText "my-module.js" = .ok root →
      root.NamesSpelled namesText := by
    intro root hparse
    obtain rfl : (Tree.ofRows? namesListing).get rfl = root := Except.ok.inj hparse
    exact ⟨by decide, by decide, by decide⟩
  obtain ⟨root, hparse, hforms⟩ := accessForms_of_readModel hspelled hread
  exact ⟨_, root, hread, hparse, hspelled root hparse, hforms, by decide, by decide⟩

/-- The listing of a module with a class whose only method is hidden. -/
def hiddenListing : List Row :=
  [.make 0 1 "program" 0 26 none, .make 1 1 "export_statement" 0 26 none, .make 2 0 "export" 0 6 none,
    .make 2 1 "class_declaration" 7 26 "declaration", .make 3 0 "class" 7 12 none,
    .make 3 1 "type_identifier" 13 14 "name", .make 3 1 "class_body" 15 26 "body", .make 4 0 "\x7b" 15 16 none,
    .make 4 1 "method_definition" 17 24 none, .make 5 1 "private_property_identifier" 17 19 "name",
    .make 5 1 "formal_parameters" 19 21 "parameters", .make 6 0 "(" 19 20 none, .make 6 0 ")" 20 21 none,
    .make 5 1 "statement_block" 22 24 "body", .make 6 0 "\x7b" 22 23 none, .make 6 0 "\x7d" 23 24 none,
    .make 4 0 "\x7d" 25 26 none]

/-- The text of that module. -/
def hiddenText : SourceText :=
  SourceText.ofString "export class A \x7b #x() \x7b\x7d \x7d"

/-- The hidden method is called from outside the class. -/
theorem not_callsPlainly_hidden :
    ∃ m, readModel (Parser.ofListing hiddenListing) hiddenText "my-module.js" = .ok m ∧
      ∃ t ∈ m.testCases, t.call = "a.#x()" ∧ ¬t.CallsPlainly := by
  have hnames : ∀ name ∈ ["a", "#x"], IsMemberName name := by
    have hword : IsWord "a" := by decide
    have hhidden : IsHidden "#x" := by
      unfold IsHidden
      decide
    exact List.forall_mem_cons.2 ⟨Or.inl hword, List.forall_mem_singleton.2 (Or.inr hhidden)⟩
  refine ⟨_, rfl, ⟨"#x", [], some "a", [], ["a", "#x"], false⟩, by decide, by decide, ?_⟩
  rw [TestCase.callsPlainly_iff, isAccess_dotted_iff_not_isHidden rfl hnames]
  exact fun ⟨_, hplain⟩ => hplain "#x" (List.mem_cons_of_mem _ (List.mem_singleton_self _)) rfl

end TestScaffold
