import TestScaffold.Proofs.CallScope
import TestScaffold.Proofs.LowerCase

set_option autoImplicit false

/-!
# Names declared in a suite

A suite declares a variable for each instance, and before each test it declares the parameters of the
constructors and makes the instances. A variable is called like the class or function that makes its
instance, but begins in lower case. So it may hide what makes an instance, or be hidden by a parameter.

## Main definitions

* `TestScaffold.Model.instanceDeclarations` — the lines of a suite that declare the variables.
* `TestScaffold.Model.setupDeclarations` — the lines that are run before each test.
* `TestScaffold.Model.SuiteHygienic` — neither what makes an instance nor its variable is hidden.
* `TestScaffold.Model.InstancesApart` — what this takes of the classes and constructors of a model.

## Main results

* `TestScaffold.mem_setupNames`, `TestScaffold.nodup_setupNames` — every parameter is declared once.
* `TestScaffold.forall_decapitalize_ne_iff` — what makes an instance is not hidden if it does not begin in
  lower case.
* `TestScaffold.suiteHygienic_iff_instancesApart` — when a suite is hygienic.
-/

namespace TestScaffold

/-! ## Lines that make instances -/

/-- The lines that make instances, with the names that they declare, where the parameters in `declared` have
a value already. -/
def setupDeclarations (declared : List String) : List Instance → List Declaration
  | [] => []
  | i :: rest =>
    let fresh := i.parameters.eraseDups.filter fun p => !declared.contains p
    fresh.map Declaration.null ++ ⟨Jest.instantiation i, []⟩ :: setupDeclarations (declared ++ fresh) rest

section Setup

variable {instances : List Instance} {declared : List String}

/-- The lines are those that make the instances. -/
theorem map_line_setupDeclarations :
    (setupDeclarations declared instances).map (fun d => Statement.line d.text) =
      Jest.instantiations declared instances := by
  induction instances generalizing declared with
  | nil => rfl
  | cons i rest ih =>
    rw [setupDeclarations, Jest.instantiations, List.map_append, map_line_nulls, List.map_cons, ih]

/-- With its first instance, a setup declares the parameters of the latter that are new. -/
theorem namesDeclared_setupDeclarations_cons (i : Instance) :
    namesDeclared (setupDeclarations declared (i :: instances)) =
      (i.parameters.eraseDups.filter fun p => !declared.contains p) ++
        namesDeclared (setupDeclarations
          (declared ++ i.parameters.eraseDups.filter fun p => !declared.contains p) instances) := by
  rw [setupDeclarations, namesDeclared_append, namesDeclared_nulls]
  rfl

/-- A setup declares all parameters, except for those that have a value already. -/
theorem mem_setupNames {name : String} :
    name ∈ namesDeclared (setupDeclarations declared instances) ↔
      name ∉ declared ∧ ∃ i ∈ instances, name ∈ i.parameters := by
  induction instances generalizing declared with
  | nil => simp [setupDeclarations, namesDeclared]
  | cons i rest ih =>
    have hfresh : name ∈ i.parameters.eraseDups.filter (fun p => !declared.contains p) ↔
        name ∈ i.parameters ∧ name ∉ declared := by
      simp [List.mem_filter]
    rw [namesDeclared_setupDeclarations_cons, List.mem_append, ih, List.mem_append, hfresh]
    simp only [List.mem_cons, exists_eq_or_imp]
    tauto

/-- A setup declares no name twice. -/
theorem nodup_setupNames : (namesDeclared (setupDeclarations declared instances)).Nodup := by
  induction instances generalizing declared with
  | nil => exact List.nodup_nil
  | cons i rest ih =>
    rw [namesDeclared_setupDeclarations_cons]
    refine List.nodup_append'.2 ⟨(nodup_eraseDups _).filter _, ih, fun name hfirst hlater => ?_⟩
    exact (mem_setupNames.1 hlater).1 (List.mem_append_right _ hfirst)

end Setup

namespace Model

/-! ## The scope of a suite -/

/-- The lines of a suite that declare the variables of instances. -/
def instanceDeclarations (m : Model) : List Declaration :=
  m.instances.map fun i => ⟨"let " ++ i.binding ++ ";", [i.binding]⟩

/-- The lines of a suite that are run before each test. -/
def setupDeclarations (m : Model) : List Declaration := TestScaffold.setupDeclarations [] m.instances

/-- The variables of instances hide neither each other nor what makes the instances, and no parameter that
is declared before each test hides one of them. -/
structure SuiteHygienic (m : Model) : Prop where
  /-- No variable is declared twice. -/
  nodup : (namesDeclared m.instanceDeclarations).Nodup
  /-- No variable is called like something that makes an instance. -/
  made : ∀ i ∈ m.instances, i.name ∉ namesDeclared m.instanceDeclarations
  /-- No parameter is called like a variable. -/
  parameters : ∀ name ∈ namesDeclared m.setupDeclarations, name ∉ namesDeclared m.instanceDeclarations

/-- The names of what makes instances keep apart from each other and from the parameters, also if they begin
in lower case. -/
structure InstancesApart (m : Model) : Prop where
  /-- No two classes differ only in how they begin. -/
  classes : (m.classes.map fun c => decapitalize c.name).Nodup
  /-- Nothing that makes an instance begins in lower case. -/
  capitalized : ∀ i ∈ m.instances, decapitalize i.name ≠ i.name
  /-- No parameter is called like something that makes an instance, begun in lower case. -/
  parameters : ∀ i ∈ m.instances, ∀ j ∈ m.instances, decapitalize i.name ∉ j.parameters

variable {m : Model}

/-- The variable of an instance is called like what makes it, begun in lower case. -/
theorem binding_eq_decapitalize {i : Instance} (h : i ∈ m.instances) :
    i.binding = decapitalize i.name := by
  rcases List.mem_append.1 h with h | h
  · obtain ⟨c, -, rfl⟩ := List.mem_map.1 h
    rfl
  · obtain ⟨f, -, rfl⟩ := List.mem_map.1 h
    rfl

/-- The declared variables are those of the instances. -/
theorem namesDeclared_instanceDeclarations (m : Model) :
    namesDeclared m.instanceDeclarations = m.instances.map fun i => decapitalize i.name := by
  rw [namesDeclared, instanceDeclarations, List.flatMap_map]
  show m.instances.flatMap (fun i => [i.binding]) = _
  rw [← List.map_eq_flatMap]
  exact List.map_congr_left fun i hi => binding_eq_decapitalize hi

/-- Beside classes nothing else makes an instance. -/
theorem instances_of_classes (hm : m.WellFormed) (h : m.classes ≠ []) :
    m.instances = m.classes.map ClassUnit.toInstance := by
  have hnone : m.functions.filter (·.role == .constructor) = [] := by
    rw [List.filter_eq_nil_iff]
    intro g hg
    rw [hm.noConstructor h g hg]
    decide
  rw [instances, hnone, List.map_nil, List.append_nil]

/-- Without classes at most one function makes an instance. -/
theorem length_instances_le (hm : m.WellFormed) (h : m.classes = []) : m.instances.length ≤ 1 := by
  have hone := hm.oneConstructor
  rw [List.countP_eq_length_filter] at hone
  rw [instances, h, List.map_nil, List.nil_append, List.length_map]
  exact hone

/-- The variables of a well-formed model are distinct if those of its classes are. -/
theorem nodup_instances_iff (hm : m.WellFormed) :
    (m.instances.map fun i => decapitalize i.name).Nodup ↔
      (m.classes.map fun c => decapitalize c.name).Nodup := by
  by_cases h : m.classes = []
  · have hone : (m.instances.map fun i => decapitalize i.name).Nodup := by
      have hlength := length_instances_le hm h
      rcases hlist : m.instances with _ | ⟨i, _ | ⟨j, rest⟩⟩
      · exact List.nodup_nil
      · exact List.nodup_singleton _
      · rw [hlist] at hlength
        simp at hlength
    rw [h]
    exact iff_of_true hone List.nodup_nil
  · rw [instances_of_classes hm h, List.map_map]
    rfl

end Model

/-- No name is called like another one begun in lower case exactly if none is called like itself begun in
lower case. -/
theorem forall_decapitalize_ne_iff (names : List String) :
    (∀ name ∈ names, ∀ other ∈ names, decapitalize other ≠ name) ↔
      ∀ name ∈ names, decapitalize name ≠ name := by
  constructor
  · intro h name hname
    exact h name hname name hname
  · rintro h name hname other - rfl
    exact h _ hname (decapitalize_decapitalize other)

/-- A suite is hygienic if the names of what makes its instances keep apart. -/
theorem Model.suiteHygienic_iff {m : Model} (hm : m.WellFormed) :
    m.SuiteHygienic ↔ m.InstancesApart := by
  have hparameters : (∀ name ∈ namesDeclared m.setupDeclarations,
      name ∉ namesDeclared m.instanceDeclarations) ↔
        ∀ i ∈ m.instances, ∀ j ∈ m.instances, decapitalize i.name ∉ j.parameters := by
    rw [namesDeclared_instanceDeclarations, Model.setupDeclarations]
    simp only [mem_setupNames, List.not_mem_nil, not_false_eq_true, true_and, List.mem_map]
    constructor
    · intro h i hi j hj hname
      exact h _ ⟨j, hj, hname⟩ ⟨i, hi, rfl⟩
    · rintro h name ⟨j, hj, hname⟩ ⟨i, hi, rfl⟩
      exact h i hi j hj hname
  have hmade : (∀ i ∈ m.instances, i.name ∉ namesDeclared m.instanceDeclarations) ↔
      ∀ i ∈ m.instances, decapitalize i.name ≠ i.name := by
    have hnames := forall_decapitalize_ne_iff (m.instances.map (·.name))
    rw [namesDeclared_instanceDeclarations]
    simpa using hnames
  have hnodup : (namesDeclared m.instanceDeclarations).Nodup ↔
      (m.classes.map fun c => decapitalize c.name).Nodup := by
    rw [namesDeclared_instanceDeclarations, nodup_instances_iff hm]
  constructor
  · rintro ⟨hdistinct, hfree, hapart⟩
    exact ⟨hnodup.1 hdistinct, hmade.1 hfree, hparameters.1 hapart⟩
  · rintro ⟨hclasses, hcapitalized, hapart⟩
    exact ⟨hnodup.2 hclasses, hmade.2 hcapitalized, hparameters.2 hapart⟩

/-- What surrounds the tests of a suite are the lines that declare its variables, a block with those that
are run before each test if there is an instance, and what is done after each test. -/
theorem suiteFrame_jest (m : Model) :
    suiteFrame jest m =
      (m.instanceDeclarations.map fun d => .line d.text) ++
        (if m.instances = [] then []
          else [Jest.callbackBlock "beforeEach(" (m.setupDeclarations.map fun d => .line d.text)]) ++
        Jest.afterEach m.usages m.imports := by
  have hlets : (m.instanceDeclarations.map fun d => Statement.line d.text) =
      m.instances.map instanceDeclaration := by
    rw [Model.instanceDeclarations, List.map_map]
    rfl
  rw [hlets, Model.setupDeclarations, map_line_setupDeclarations, suiteFrame]
  simp only [List.isEmpty_iff]
  rfl

/-- **When a suite is hygienic.** The scaffold of a module that is read ends with its suite. The lines of
the suite that declare the variables of instances come first in it, then those that are run before each test.
A parameter is declared once among the latter. Neither the variables nor what makes the instances are hidden
exactly if no two classes have names that differ only in how they begin, no class or constructor function has
a name that begins in lower case, and no parameter of a constructor is called like one of them begun in
lower case.

**Proof sketch.** A constructor function makes an instance only if there is no class, and then it is the only
one, so just the variables of classes can be declared twice. A variable is called like what makes its
instance, begun in lower case, and beginning a name in lower case again changes nothing: so if a variable
is called like something that makes an instance, then that begins in lower case itself. -/
theorem suiteHygienic_iff_instancesApart {parser : Parser} {src : SourceText} {filename : String}
    {m : Model} {d : Scaffold} (hread : readModel parser src filename = .ok m)
    (hd : scaffold? jest m = some d) :
    d.statements.getLast? = some (Jest.callbackBlock ("describe(" ++ quoted (baseName m.specifier) ++ ", ")
      ((m.instanceDeclarations.map fun d => .line d.text) ++
        (if m.instances = [] then []
          else [Jest.callbackBlock "beforeEach(" (m.setupDeclarations.map fun d => .line d.text)]) ++
        Jest.afterEach m.usages m.imports ++ m.testCases.map (caseBlock jest m))) ∧
      (namesDeclared m.setupDeclarations).Nodup ∧
      (m.SuiteHygienic ↔ m.InstancesApart) := by
  refine ⟨?_, nodup_setupNames, Model.suiteHygienic_iff (wellFormed_of_readModel hread)⟩
  rw [getLast?_statements hd, ← suiteFrame_jest]
  rfl

/-- The listing of a module with two classes whose constructors share the name of a parameter. -/
def sharingListing : List Row :=
  [.make 0 1 "program" 0 89 none, .make 1 1 "export_statement" 0 44 none, .make 2 0 "export" 0 6 none,
    .make 2 1 "class_declaration" 7 44 "declaration", .make 3 0 "class" 7 12 none,
    .make 3 1 "type_identifier" 13 19 "name", .make 3 1 "class_body" 20 44 "body",
    .make 4 0 "\x7b" 20 21 none, .make 4 1 "method_definition" 22 42 none,
    .make 5 1 "property_identifier" 22 33 "name", .make 5 1 "formal_parameters" 33 39 "parameters",
    .make 6 0 "(" 33 34 none, .make 6 1 "required_parameter" 34 38 none,
    .make 7 1 "identifier" 34 38 "pattern", .make 6 0 ")" 38 39 none,
    .make 5 1 "statement_block" 40 42 "body", .make 6 0 "\x7b" 40 41 none, .make 6 0 "\x7d" 41 42 none,
    .make 4 0 "\x7d" 43 44 none, .make 1 1 "export_statement" 45 89 none, .make 2 0 "export" 45 51 none,
    .make 2 1 "class_declaration" 52 89 "declaration", .make 3 0 "class" 52 57 none,
    .make 3 1 "type_identifier" 58 64 "name", .make 3 1 "class_body" 65 89 "body",
    .make 4 0 "\x7b" 65 66 none, .make 4 1 "method_definition" 67 87 none,
    .make 5 1 "property_identifier" 67 78 "name", .make 5 1 "formal_parameters" 78 84 "parameters",
    .make 6 0 "(" 78 79 none, .make 6 1 "required_parameter" 79 83 none,
    .make 7 1 "identifier" 79 83 "pattern", .make 6 0 ")" 83 84 none,
    .make 5 1 "statement_block" 85 87 "body", .make 6 0 "\x7b" 85 86 none, .make 6 0 "\x7d" 86 87 none,
    .make 4 0 "\x7d" 88 89 none]

/-- The text of that module. -/
def sharingText : SourceText :=
  SourceText.ofString
    "export class Reader \x7b constructor(name) \x7b\x7d \x7d\nexport class Writer \x7b constructor(name) \x7b\x7d \x7d"

/-- The suite of these classes declares the parameter once, and it is hygienic. -/
theorem suiteHygienic_iff_instancesApart_sharing :
    ∃ m d, readModel (Parser.ofListing sharingListing) sharingText "my-module.js" = .ok m ∧
      scaffold? jest m = some d ∧
      (m.instances.map fun i => (i.name, i.parameters)) = [("Reader", ["name"]), ("Writer", ["name"])] ∧
      namesDeclared m.setupDeclarations = ["name"] ∧ m.SuiteHygienic ∧
      (m.SuiteHygienic ↔ m.InstancesApart) := by
  have hread : readModel (Parser.ofListing sharingListing) sharingText "my-module.js" = .ok _ := rfl
  obtain ⟨-, -, hhygienic⟩ := suiteHygienic_iff_instancesApart hread rfl
  refine ⟨_, _, hread, rfl, by decide, by decide, hhygienic.2 ⟨?_, ?_, ?_⟩, hhygienic⟩
  · decide
  · decide
  · decide

/-- The listing of a module with a class whose constructor has a parameter called like its instance. -/
def instanceListing : List Row :=
  [.make 0 1 "program" 0 40 none, .make 1 1 "export_statement" 0 40 none, .make 2 0 "export" 0 6 none,
    .make 2 1 "class_declaration" 7 40 "declaration", .make 3 0 "class" 7 12 none,
    .make 3 1 "type_identifier" 13 16 "name", .make 3 1 "class_body" 17 40 "body",
    .make 4 0 "\x7b" 17 18 none, .make 4 1 "method_definition" 19 38 none,
    .make 5 1 "property_identifier" 19 30 "name", .make 5 1 "formal_parameters" 30 35 "parameters",
    .make 6 0 "(" 30 31 none, .make 6 1 "required_parameter" 31 34 none,
    .make 7 1 "identifier" 31 34 "pattern", .make 6 0 ")" 34 35 none,
    .make 5 1 "statement_block" 36 38 "body", .make 6 0 "\x7b" 36 37 none, .make 6 0 "\x7d" 37 38 none,
    .make 4 0 "\x7d" 39 40 none]

/-- The text of that module. -/
def instanceText : SourceText :=
  SourceText.ofString "export class Foo \x7b constructor(foo) \x7b\x7d \x7d"

/-- The suite of that class declares `foo` as the variable of its instance, and again as a parameter before
each test. -/
theorem not_suiteHygienic_parameter :
    ∃ m, readModel (Parser.ofListing instanceListing) instanceText "my-module.js" = .ok m ∧
      m.classes.map (·.name) = ["Foo"] ∧ ¬m.SuiteHygienic := by
  refine ⟨_, rfl, ?_, fun h => ?_⟩
  · decide
  · exact h.parameters "foo" (by decide) (by decide)

end TestScaffold
