import TestScaffold.Proofs.SuiteScope

set_option autoImplicit false

/-!
# What tests call

The call of a test begins with a name: a class, the variable of an instance, a function, or what a function
is reached through. A scaffold declares it if it includes it from the module or makes an instance of it. It
does not if the include lines leave the name out, if a function is published by another name than the first
one it is reached through, or if no instance is made of what a function belongs to.

## Main definitions

* `TestScaffold.Model.callScope` — the lines of a scaffold that declare what tests call.
* `TestScaffold.Model.ScopeStands` — these lines stand in a scaffold.
* `TestScaffold.Model.LeavesOut` — a name is published in a way that the include lines do not see.
* `TestScaffold.Model.Strays` — a function is called through a name that nothing declares.

## Main results

* `TestScaffold.Model.mem_includedNames_or_leavesOut` — published names are included or left out.
* `TestScaffold.Model.declares_or_strays` — what the call of a function begins with.
* `TestScaffold.call_head_declared_or` — what the call of a test begins with.
-/

namespace TestScaffold

namespace Model

/-- The names inside a module that it publishes. -/
def surface (m : Model) : Surface := Surface.ofExports m.slotExports m.exports

/-- The lines of a scaffold that declare what tests call: those that include the module given by a path, and
those that declare the variables of instances. -/
def callScope (m : Model) (path : String) : List Declaration :=
  subjectDeclarations (quoted path) m.exports m.slotExports ++ m.instanceDeclarations

/-- The lines that declare what tests call stand in a scaffold: some include the module, others begin its
suite. -/
structure ScopeStands (m : Model) (path : String) (d : Scaffold) : Prop where
  /-- The module is included by a path that is its file name without the extension. -/
  path_eq : withoutExtension? m.specifier = some path
  /-- The lines that include the module are statements of the scaffold. -/
  subject : ((subjectDeclarations (quoted path) m.exports m.slotExports).map
    fun l => Statement.line l.text).Sublist d.statements
  /-- The suite begins with the lines that declare the variables of instances. -/
  suite : ∃ body, d.statements.getLast? =
    some (Jest.callbackBlock ("describe(" ++ quoted (baseName m.specifier) ++ ", ")
      ((m.instanceDeclarations.map fun l => .line l.text) ++ body))

/-- A name is published in a way that the include lines do not see: through the export slot beside exports,
or by a default export that is not the first one. -/
inductive LeavesOut (m : Model) (name : String) : Prop where
  /-- The export slot is left out if there are exports. -/
  | slot (hexports : m.exports ≠ []) (hname : name ∈ m.slotExports.map (·.localName))
  /-- Only the first default export is included. -/
  | default {first e : Export} (hfirst : m.exports.find? (·.kind == .default) = some first)
      (he : e ∈ m.exports) (hkind : e.kind = .default) (hne : e ≠ first) (hname : e.localName = name)

/-- The call of a function begins with a name that nothing declares: it is reached through a name that is not
published, or it belongs to the objects of something that no instance is made of. -/
inductive Strays (m : Model) (f : FunctionUnit) : String → Prop where
  /-- The function is published by its name or by a later name in its qualifier. -/
  | unpublished {head : String} {rest : List String} (howner : f.ownerIndex = none)
      (hqualifier : f.qualifier = head :: rest) (hhead : head ∉ m.surface.names) : Strays m f head
  /-- The owner of the function is no class. Without classes, either another function is the constructor, or
  there is none that is called like the owner, except for the function itself. -/
  | unmade {owner : String} {i : Nat} (howner : f.ownerIndex = some i)
      (hat : f.qualifier[i]? = some owner) (hclass : owner ∉ m.classes.map (·.name))
      (hpromoted : m.classes = [] →
        (∃ g ∈ m.functions, g.role = .constructor ∧ g.name ≠ owner) ∨
          ∀ g ∈ m.functions, g.name = owner → g = f) : Strays m f (decapitalize owner)

variable {m : Model} {path name : String}

/-- What tests call is declared by being included or as the variable of an instance. -/
theorem mem_namesDeclared_callScope :
    name ∈ namesDeclared (m.callScope path) ↔
      name ∈ m.includedNames ∨ ∃ i ∈ m.instances, decapitalize i.name = name := by
  rw [callScope, namesDeclared_append, List.mem_append, mem_namesDeclared_subjectDeclarations,
    namesDeclared_instanceDeclarations, List.mem_map]

/-- A class of the model has an instance. -/
theorem exists_instance_of_class {c : ClassUnit} (h : c ∈ m.classes) :
    ∃ i ∈ m.instances, i.name = c.name :=
  ⟨c.toInstance, List.mem_append_left _ (List.mem_map_of_mem h), rfl⟩

/-- A constructor function of the model has an instance. -/
theorem exists_instance_of_constructor {g : FunctionUnit} (h : g ∈ m.functions)
    (hrole : g.role = .constructor) : ∃ i ∈ m.instances, i.name = g.name := by
  have hmem : g ∈ m.functions.filter (·.role == .constructor) :=
    List.mem_filter.2 ⟨h, beq_iff_eq.2 hrole⟩
  exact ⟨g.toInstance, List.mem_append_right _ (List.mem_map_of_mem hmem), rfl⟩

/-- The variable of an instance is declared. -/
theorem mem_callScope_of_instance {owner : String} (h : ∃ i ∈ m.instances, i.name = owner) :
    decapitalize owner ∈ namesDeclared (m.callScope path) := by
  obtain ⟨i, hi, rfl⟩ := h
  exact mem_namesDeclared_callScope.2 (Or.inr ⟨i, hi, rfl⟩)

/-- **Published names are included or left out.** -/
theorem mem_includedNames_or_leavesOut (h : name ∈ m.surface.names) :
    name ∈ m.includedNames ∨ m.LeavesOut name := by
  unfold includedNames
  rcases List.mem_append.1 h with hslot | hexported
  · split
    · exact Or.inl hslot
    · next hne => exact Or.inr (.slot (fun hnil => hne (List.isEmpty_iff.2 hnil)) hslot)
  · obtain ⟨e, he, rfl⟩ := List.mem_map.1 hexported
    have hin := (List.mem_filter.1 he).1
    rw [if_neg fun hnil => List.ne_nil_of_mem hin (List.isEmpty_iff.1 hnil), List.mem_append]
    cases hkind : e.kind with
    | named =>
      have hnamed : e ∈ m.exports.filter (·.kind == .named) :=
        List.mem_filter.2 ⟨hin, beq_iff_eq.2 hkind⟩
      exact Or.inl (Or.inr (List.mem_map_of_mem hnamed))
    | default =>
      cases hfirst : m.exports.find? (·.kind == .default) with
      | none =>
        have hnot := List.find?_eq_none.1 hfirst e hin
        exact absurd (beq_iff_eq.2 hkind) hnot
      | some first =>
        by_cases heq : e = first
        · exact Or.inl (Or.inl (List.mem_singleton.2 (congrArg Export.localName heq)))
        · exact Or.inr (.default hfirst hin hkind heq rfl)

/-- A published name is declared or left out. -/
theorem mem_callScope_or_leavesOut (h : name ∈ m.surface.names) :
    name ∈ namesDeclared (m.callScope path) ∨ m.LeavesOut name :=
  (mem_includedNames_or_leavesOut h).imp_left fun hin => mem_namesDeclared_callScope.2 (Or.inl hin)

/-! ## The calls of methods -/

/-- The call of a method begins with the variable of an instance, or with a published class. -/
theorem methodCase_head {c : ClassUnit} {method : Method} (hm : m.WellFormed) (hc : c ∈ m.classes) :
    ∃ head, (methodCase c method).chain.head? = some head ∧
      (head ∈ namesDeclared (m.callScope path) ∨ m.LeavesOut head) := by
  refine ⟨_, rfl, ?_⟩
  split
  · exact mem_callScope_or_leavesOut (Surface.contains_eq_true.1 (hm.publishedClasses c hc))
  · exact Or.inl (mem_callScope_of_instance (exists_instance_of_class hc))

/-! ## The calls of functions -/

/-- The call of a function that belongs to no objects begins with the first name it is reached through. -/
theorem functionCase_head_of_none {f : FunctionUnit} (howner : f.ownerIndex = none) :
    (functionCase f).chain.head? = some (f.qualifier.head?.getD f.name) := by
  show (f.callQualifier ++ [f.name]).head? = _
  rw [FunctionUnit.callQualifier, howner]
  dsimp only
  cases f.qualifier with
  | nil => rfl
  | cons head rest => rfl

/-- The call of a function that belongs to the objects of its owner begins with the variable of an
instance of the latter. -/
theorem functionCase_head_of_some {f : FunctionUnit} {i : Nat} {owner : String}
    (howner : f.ownerIndex = some i) (hat : f.qualifier[i]? = some owner) :
    (functionCase f).chain.head? = some (decapitalize owner) := by
  have hdrop : f.qualifier.drop i = owner :: f.qualifier.drop (i + 1) := by
    obtain ⟨hi, rfl⟩ := List.getElem?_eq_some_iff.1 hat
    exact List.drop_eq_getElem_cons hi
  show (f.callQualifier ++ [f.name]).head? = _
  rw [FunctionUnit.callQualifier, howner]
  dsimp only
  rw [hdrop]
  rfl

/-- The owner of a function is a class or the constructor, or else the function strays. -/
theorem exists_instance_or_strays {findings : Findings} {f : FunctionUnit} {i : Nat} {owner : String}
    (hf : f ∈ findings.toModel.functions) (howner : f.ownerIndex = some i)
    (hat : f.qualifier[i]? = some owner) :
    (∃ i ∈ findings.toModel.instances, i.name = owner) ∨
      findings.toModel.Strays f (decapitalize owner) := by
  by_cases hclass : owner ∈ findings.toModel.classes.map (·.name)
  · obtain ⟨c, hc, rfl⟩ := List.mem_map.1 hclass
    exact Or.inl (exists_instance_of_class hc)
  · by_cases hmade : ∃ g ∈ findings.toModel.functions, g.role = .constructor ∧ g.name = owner
    · obtain ⟨g, hg, hrole, rfl⟩ := hmade
      exact Or.inl (exists_instance_of_constructor hg hrole)
    · refine Or.inr (.unmade howner hat hclass fun hnoClass => ?_)
      by_cases hany : ∃ g ∈ findings.toModel.functions, g.role = .constructor
      · obtain ⟨g, hg, hrole⟩ := hany
        exact Or.inl ⟨g, hg, hrole, fun heq => hmade ⟨g, hg, hrole, heq⟩⟩
      · -- Without a constructor nothing is attached to another function.
        right
        rintro g hg rfl
        have hfunctions : findings.toModel.functions =
            promoteConstructor (keptUnits findings.surface.publishes findings.functions) :=
          if_pos (List.isEmpty_iff.2 hnoClass)
        rw [hfunctions] at hf hg
        refine eq_of_mentions_of_mem_promoteConstructor ?_ hf hg ?_
        · intro h hh hrole
          exact hany ⟨h, hfunctions ▸ hh, hrole⟩
        · exact List.contains_iff_mem.2 (List.mem_of_getElem? hat)

/-- **What the call of a function begins with** is declared or left out, or else the function strays. -/
theorem declares_or_strays {findings : Findings} {f : FunctionUnit}
    (hm : findings.toModel.WellFormed) (hf : f ∈ findings.toModel.functions) :
    ∃ head, (functionCase f).chain.head? = some head ∧
      (head ∈ namesDeclared (findings.toModel.callScope path) ∨ findings.toModel.LeavesOut head ∨
        findings.toModel.Strays f head) := by
  cases howner : f.ownerIndex with
  | some i =>
    obtain ⟨owner, hat⟩ : ∃ owner, f.qualifier[i]? = some owner :=
      ⟨_, List.getElem?_eq_getElem ((hm.functions f hf).owner_lt i howner)⟩
    refine ⟨_, functionCase_head_of_some howner hat, ?_⟩
    rcases exists_instance_or_strays hf howner hat with hmade | hstrays
    · exact Or.inl (mem_callScope_of_instance hmade)
    · exact Or.inr (Or.inr hstrays)
  | none =>
    refine ⟨_, functionCase_head_of_none howner, ?_⟩
    have hpublished := Surface.publishes_eq_true.1 (hm.publishedFunctions f hf)
    cases hqualifier : f.qualifier with
    | nil =>
      rw [hqualifier] at hpublished
      have hname : f.name ∈ findings.toModel.surface.names :=
        hpublished.resolve_right fun ⟨_, hin, _⟩ => List.not_mem_nil hin
      exact (mem_callScope_or_leavesOut hname).imp_right Or.inl
    | cons head rest =>
      by_cases hhead : head ∈ findings.toModel.surface.names
      · exact (mem_callScope_or_leavesOut hhead).imp_right Or.inl
      · exact Or.inr (Or.inr (.unpublished howner hqualifier hhead))

/-- What the call of a test begins with is declared or left out, or else the test is that of a function that
strays. -/
theorem testCase_head {findings : Findings} {t : TestCase} (hm : findings.toModel.WellFormed)
    (ht : t ∈ findings.toModel.testCases) :
    ∃ head, t.chain.head? = some head ∧
      (head ∈ namesDeclared (findings.toModel.callScope path) ∨ findings.toModel.LeavesOut head ∨
        ∃ f ∈ findings.toModel.functions, t = functionCase f ∧ findings.toModel.Strays f head) := by
  rcases List.mem_append.1 ht with ht | ht
  · obtain ⟨c, hc, ht⟩ := List.mem_flatMap.1 ht
    obtain ⟨method, -, rfl⟩ := List.mem_map.1 ht
    obtain ⟨head, hhead, hdeclared⟩ := methodCase_head hm hc
    exact ⟨head, hhead, hdeclared.imp_right Or.inl⟩
  · obtain ⟨f, hf, rfl⟩ := List.mem_map.1 ht
    have hin := (List.mem_filter.1 hf).1
    obtain ⟨head, hhead, hdeclared⟩ := declares_or_strays hm hin
    exact ⟨head, hhead, hdeclared.imp_right (Or.imp_right fun hstrays => ⟨f, hin, rfl, hstrays⟩)⟩

/-- The lines that declare what tests call stand in the scaffold. -/
theorem exists_scopeStands {d : Scaffold} (hd : scaffold? jest m = some d) :
    ∃ path, m.ScopeStands path d := by
  obtain ⟨moduleSection, hsection, -⟩ := Option.map_eq_some_iff.1 hd
  obtain ⟨path, hpath, -⟩ := Option.map_eq_some_iff.1 hsection
  have hdeclarations : m.declarations? = some (m.imports.map Import.declaration ++
      requireDeclarations m.requires ++ subjectDeclarations (quoted path) m.exports m.slotExports) := by
    rw [declarations?, hpath]
    rfl
  refine ⟨path, hpath, ?_, ?_⟩
  · exact ((List.sublist_append_right _ _).map _).trans (sublist_declarations hd hdeclarations)
  · rw [getLast?_statements hd, TestScaffold.suite, suiteFrame_jest, List.append_assoc, List.append_assoc]
    exact ⟨_, rfl⟩

end Model

/-- **What the call of a test begins with.** The scaffold of a module that is read has lines that include the
module, and its suite begins with the variables of instances. What the call of a test begins with is declared
by these lines exactly if it is an included name or what makes an instance, begun in lower case. So it is for
every test, unless the name is published in a way that the include lines do not see, or the test is that of a
function that is reached through a name that is not published, or belongs to the objects of something that no
instance is made of.

**Proof sketch.** A class is published under its name and has an instance. A function is published under its
name, if it is reached through nothing else. A published name is included or left out. If a function belongs
to the objects of another one, then the latter is referenced, so some function is promoted unless there is a
class. -/
theorem call_head_declared_or {parser : Parser} {src : SourceText} {filename : String} {m : Model}
    {d : Scaffold} (hread : readModel parser src filename = .ok m) (hd : scaffold? jest m = some d) :
    ∃ path, m.ScopeStands path d ∧
      ∀ t ∈ m.testCases, ∃ head, t.chain.head? = some head ∧
        (head ∈ namesDeclared (m.callScope path) ↔
          head ∈ m.includedNames ∨ ∃ i ∈ m.instances, decapitalize i.name = head) ∧
        (head ∈ namesDeclared (m.callScope path) ∨ m.LeavesOut head ∨
          ∃ f ∈ m.functions, t = functionCase f ∧ m.Strays f head) := by
  obtain ⟨path, hscope⟩ := Model.exists_scopeStands hd
  refine ⟨path, hscope, fun t ht => ?_⟩
  have hm := wellFormed_of_readModel hread
  obtain ⟨root, rfl⟩ := exists_ofTree_of_readModel hread
  obtain ⟨head, hhead, hdeclared⟩ := Model.testCase_head hm ht
  exact ⟨head, hhead, Model.mem_namesDeclared_callScope, hdeclared⟩

/-- The calls in the scaffold of a module with a function on a prototype begin with declared names. -/
theorem call_head_declared_or_prototype :
    ∃ m d, readModel (Parser.ofListing prototypeListing) prototypeText "my-module.js" = .ok m ∧
      scaffold? jest m = some d ∧ m.testCases.map (·.chain) = [["a", "A"]] ∧
      ∃ path, m.ScopeStands path d ∧
        ∀ t ∈ m.testCases, ∃ head, t.chain.head? = some head ∧
          (head ∈ namesDeclared (m.callScope path) ↔
            head ∈ m.includedNames ∨ ∃ i ∈ m.instances, decapitalize i.name = head) ∧
          (head ∈ namesDeclared (m.callScope path) ∨ m.LeavesOut head ∨
            ∃ f ∈ m.functions, t = functionCase f ∧ m.Strays f head) := by
  have hread : readModel (Parser.ofListing prototypeListing) prototypeText "my-module.js" = .ok _ := rfl
  refine ⟨_, _, hread, rfl, by decide, ?_⟩
  exact call_head_declared_or hread rfl

/-- The listing of a module with a default export and another function in the export slot. -/
def mixedListing : List Row :=
  [.make 0 1 "program" 0 69 none, .make 1 1 "export_statement" 0 17 none, .make 2 0 "export" 0 6 none,
    .make 2 0 "default" 7 14 none, .make 2 1 "identifier" 15 16 "value", .make 2 0 ";" 16 17 none,
    .make 1 1 "expression_statement" 18 37 none, .make 2 1 "assignment_expression" 18 36 none,
    .make 3 1 "member_expression" 18 32 "left", .make 4 1 "identifier" 18 24 "object",
    .make 4 0 "." 24 25 none, .make 4 1 "property_identifier" 25 32 "property",
    .make 3 0 "=" 33 34 none, .make 3 1 "identifier" 35 36 "right", .make 2 0 ";" 36 37 none,
    .make 1 1 "function_declaration" 38 53 none, .make 2 0 "function" 38 46 none,
    .make 2 1 "identifier" 47 48 "name", .make 2 1 "formal_parameters" 48 50 "parameters",
    .make 3 0 "(" 48 49 none, .make 3 0 ")" 49 50 none, .make 2 1 "statement_block" 51 53 "body",
    .make 3 0 "\x7b" 51 52 none, .make 3 0 "\x7d" 52 53 none,
    .make 1 1 "function_declaration" 54 69 none, .make 2 0 "function" 54 62 none,
    .make 2 1 "identifier" 63 64 "name", .make 2 1 "formal_parameters" 64 66 "parameters",
    .make 3 0 "(" 64 65 none, .make 3 0 ")" 65 66 none, .make 2 1 "statement_block" 67 69 "body",
    .make 3 0 "\x7b" 67 68 none, .make 3 0 "\x7d" 68 69 none]

/-- The text of that module. -/
def mixedText : SourceText :=
  SourceText.ofString
    "export default f;\nmodule.exports = g;\nfunction f() \x7b\x7d\nfunction g() \x7b\x7d"

/-- The scaffold of that module has a test that calls `g`, which it does not declare. -/
theorem call_head_undeclared_mixed :
    ∃ m d, readModel (Parser.ofListing mixedListing) mixedText "my-module.js" = .ok m ∧
      scaffold? jest m = some d ∧ withoutExtension? m.specifier = some "my-module" ∧
      ∃ t ∈ m.testCases, t.chain.head? = some "g" ∧
        "g" ∉ namesDeclared (m.callScope "my-module") := by
  refine ⟨_, _, rfl, rfl, ?_, ?_⟩
  · decide
  · decide

/-- The listing of a module that publishes the name of a function of another object. -/
def reachedListing : List Row :=
  [.make 0 1 "program" 0 44 none, .make 1 1 "expression_statement" 0 25 none,
    .make 2 1 "assignment_expression" 0 24 none, .make 3 1 "member_expression" 0 8 "left",
    .make 4 1 "identifier" 0 4 "object", .make 4 0 "." 4 5 none,
    .make 4 1 "property_identifier" 5 8 "property", .make 3 0 "=" 9 10 none,
    .make 3 1 "function_expression" 11 24 "right", .make 4 0 "function" 11 19 none,
    .make 4 1 "formal_parameters" 19 21 "parameters", .make 5 0 "(" 19 20 none, .make 5 0 ")" 20 21 none,
    .make 4 1 "statement_block" 22 24 "body", .make 5 0 "\x7b" 22 23 none, .make 5 0 "\x7d" 23 24 none,
    .make 2 0 ";" 24 25 none, .make 1 1 "expression_statement" 26 44 none,
    .make 2 1 "assignment_expression" 26 43 none, .make 3 1 "member_expression" 26 37 "left",
    .make 4 1 "identifier" 26 33 "object", .make 4 0 "." 33 34 none,
    .make 4 1 "property_identifier" 34 37 "property", .make 3 0 "=" 38 39 none,
    .make 3 1 "identifier" 40 43 "right", .make 2 0 ";" 43 44 none]

/-- The text of that module. -/
def reachedText : SourceText :=
  SourceText.ofString "util.add = function() \x7b\x7d;\nexports.add = add;"

/-- The function is reached through `util`, which is not published: its test begins with a name that nothing
declares. -/
example :
    (readModel (Parser.ofListing reachedListing) reachedText "my-module.js").toOption.map (fun m =>
      (m.testCases.map (·.chain), m.surface.names, namesDeclared (m.callScope "my-module"))) =
        some ([["util", "add"]], ["add"], ["add"]) := by
  decide +kernel

/-- The listing of a module that publishes the name of a function on a prototype, but no constructor. -/
def unmadeListing : List Row :=
  [.make 0 1 "program" 0 54 none, .make 1 1 "expression_statement" 0 35 none,
    .make 2 1 "assignment_expression" 0 34 none, .make 3 1 "member_expression" 0 18 "left",
    .make 4 1 "member_expression" 0 14 "object", .make 5 1 "identifier" 0 4 "object",
    .make 5 0 "." 4 5 none, .make 5 1 "property_identifier" 5 14 "property", .make 4 0 "." 14 15 none,
    .make 4 1 "property_identifier" 15 18 "property", .make 3 0 "=" 19 20 none,
    .make 3 1 "function_expression" 21 34 "right", .make 4 0 "function" 21 29 none,
    .make 4 1 "formal_parameters" 29 31 "parameters", .make 5 0 "(" 29 30 none, .make 5 0 ")" 30 31 none,
    .make 4 1 "statement_block" 32 34 "body", .make 5 0 "\x7b" 32 33 none, .make 5 0 "\x7d" 33 34 none,
    .make 2 0 ";" 34 35 none, .make 1 1 "expression_statement" 36 54 none,
    .make 2 1 "assignment_expression" 36 53 none, .make 3 1 "member_expression" 36 47 "left",
    .make 4 1 "identifier" 36 43 "object", .make 4 0 "." 43 44 none,
    .make 4 1 "property_identifier" 44 47 "property", .make 3 0 "=" 48 49 none,
    .make 3 1 "identifier" 50 53 "right", .make 2 0 ";" 53 54 none]

/-- The text of that module. -/
def unmadeText : SourceText :=
  SourceText.ofString "Util.prototype.add = function() \x7b\x7d;\nexports.add = add;"

/-- The function belongs to the objects of `Util`, and no instance is made of it: its test begins with the name
of a variable that nothing declares. -/
example :
    (readModel (Parser.ofListing unmadeListing) unmadeText "my-module.js").toOption.map (fun m =>
      (m.testCases.map (·.chain), m.instances, namesDeclared (m.callScope "my-module"))) =
        some ([["util", "add"]], [], ["add"]) := by
  decide +kernel

end TestScaffold
