import TestScaffold.Syntax.Listing
import TestScaffold.Scaffold.Jest
import TestScaffold.Scaffold.Sections
import TestScaffold.Proofs.FileExtensions
import TestScaffold.Proofs.UnitNodes

set_option autoImplicit false

/-!
# Parameters in tests

A test declares a variable for each formal parameter of the unit it is for and passes these variables on.
Here the formal parameters are described without regard to how their names are computed, and the body of a
test is compared with the node of its unit.

## Main definitions

* `TestScaffold.formalParameters` — the formal parameters of a function-like node.
* `TestScaffold.Tree.KnownAs` — the name that a parameter is known by.
* `TestScaffold.StandsFor` — the variable that stands for a parameter in a test.
* `TestScaffold.Tree.HasPatterns` — every parameter with a type has a pattern, as in the grammar.
* `TestScaffold.FollowsParameters` — what the body of a test has from the parameters of its node.

## Main results

* `TestScaffold.formalName?_eq_some_iff` — the computed name is the name a parameter is known by.
* `TestScaffold.formalPatterns_eq` — the computed patterns are those of the formal parameters.
* `TestScaffold.exists_suite_of_readModel` — the scaffold of a module that is read ends with its tests.
* `TestScaffold.tests_follow_parameters` — every test declares and passes on the parameters of its unit.
-/

namespace TestScaffold

/-! ## The name of a parameter -/

namespace Tree

/-- The name that a pattern is known by: its own, that of the target of a default value, or that of the
name which a rest parameter begins with. -/
inductive KnownAs (src : SourceText) : Tree → String → Prop where
  /-- A name is known by itself. -/
  | identifier {t : Tree} (hkind : t.kind = .identifier) : KnownAs src t (t.text src)
  /-- A pattern with a default value is known by its target. -/
  | default {t target : Tree} {name : String} (hkind : t.kind = .assignmentPattern)
      (htarget : t.childAt? .left = some target) (hname : KnownAs src target name) : KnownAs src t name
  /-- A rest parameter is known by its first named child, if that is a name. -/
  | rest {t first : Tree} (hkind : t.kind = .restPattern) (hfirst : t.firstNamed? = some first)
      (hname : first.kind = .identifier) : KnownAs src t (first.text src)

/-- Whether a pattern is known by some name. -/
def IsNamed (src : SourceText) (t : Tree) : Prop := ∃ name, t.KnownAs src name

end Tree

mutual

/-- A computed name is one that the pattern is known by. -/
theorem knownAs_of_formalName? {src : SourceText} {name : String} :
    ∀ t : Tree, formalName? src t = some name → t.KnownAs src name
  | .node l cs, h => by
    rw [formalName?] at h
    split at h
    · next hkind =>
      obtain rfl := Option.some.inj h
      exact .identifier hkind
    · next hkind =>
      obtain ⟨target, htarget, hname⟩ := exists_knownAs_of_formalNameAt? cs h
      exact .default hkind htarget hname
    · next hkind =>
      unfold restName? at h
      split at h
      · next first hfirst =>
        split at h
        · next hname =>
          obtain rfl := Option.some.inj h
          exact .rest hkind hfirst (eq_of_beq hname)
        · cases h
      · cases h
    · cases h

/-- A name that is computed for a role is one that the child in this role is known by. -/
theorem exists_knownAs_of_formalNameAt? {src : SourceText} {name : String} {f : Field} :
    ∀ cs : List Tree, formalNameAt? src f cs = some name →
      ∃ target, cs.find? (·.field == some f) = some target ∧ target.KnownAs src name
  | [], h => by
    rw [formalNameAt?] at h
    cases h
  | c :: cs, h => by
    rw [formalNameAt?] at h
    rw [List.find?_cons]
    split at h
    · next hrole =>
      rw [hrole]
      exact ⟨c, rfl, knownAs_of_formalName? c h⟩
    · next hrole =>
      rw [Bool.eq_false_iff.2 hrole]
      exact exists_knownAs_of_formalNameAt? cs h

end

/-- A name that a pattern is known by is computed. -/
theorem formalName?_of_knownAs {src : SourceText} {t : Tree} {name : String} (h : t.KnownAs src name) :
    formalName? src t = some name := by
  induction h with
  | @identifier t hkind =>
    obtain ⟨l, cs⟩ := t
    change l.kind = _ at hkind
    rw [formalName?, hkind]
  | @default t target name hkind htarget hname ih =>
    obtain ⟨l, cs⟩ := t
    change l.kind = _ at hkind
    change cs.find? _ = _ at htarget
    rw [formalName?, hkind]
    dsimp only
    rw [formalNameAt?_eq, htarget]
    exact ih
  | @rest t first hkind hfirst hname =>
    obtain ⟨l, cs⟩ := t
    change l.kind = _ at hkind
    rw [formalName?, hkind]
    dsimp only
    rw [restName?, hfirst]
    dsimp only
    rw [if_pos (beq_iff_eq.2 hname)]

/-- **The computed name** of a pattern is the name it is known by. -/
theorem formalName?_eq_some_iff {src : SourceText} {t : Tree} {name : String} :
    formalName? src t = some name ↔ t.KnownAs src name :=
  ⟨knownAs_of_formalName? t, formalName?_of_knownAs⟩

/-- A pattern has a computed name if it is known by one. -/
theorem isSome_formalName? {src : SourceText} {t : Tree} :
    (formalName? src t).isSome = true ↔ t.IsNamed src := by
  rw [Option.isSome_iff_exists]
  exact exists_congr fun _ => formalName?_eq_some_iff

instance (src : SourceText) (t : Tree) : Decidable (t.IsNamed src) :=
  decidable_of_iff _ isSome_formalName?

/-! ## Formal parameters -/

namespace Tree

/-- Whether a child of a parameter list is `this`, which only gives the own object a type. -/
def isSelfParameter (param : Tree) : Bool :=
  match param.kind with
  | .requiredParameter | .optionalParameter => (param.childAt? .pattern).any (·.kind == .this)
  | k => k == .this

/-- Whether a child of a parameter list is a formal parameter. -/
def isFormal (param : Tree) : Bool :=
  param.kind != .comment && param.kind != .decorator && !param.isSelfParameter

/-- The pattern of a formal parameter: what stands before its type and its default value. -/
def formalPattern (param : Tree) : Tree :=
  match param.kind with
  | .requiredParameter | .optionalParameter => (param.childAt? .pattern).getD param
  | _ => param

/-- Every parameter that may have a type has a pattern, as the grammar has it. -/
def HasPatterns (root : Tree) : Prop :=
  ∀ t ∈ root.preorder, t.kind = .requiredParameter ∨ t.kind = .optionalParameter →
    (t.childAt? .pattern).isSome = true

instance (root : Tree) : Decidable root.HasPatterns :=
  inferInstanceAs (Decidable (∀ t ∈ root.preorder, _ → _))

end Tree

/-- The formal parameters of a function-like node: the single one of an arrow function without parentheses,
or those in its parameter list. -/
def formalParameters (func : Tree) : List Tree :=
  match func.childAt? .parameter with
  | some single => [single]
  | none =>
    match func.childAt? .parameters with
    | some params => params.namedChildren.filter Tree.isFormal
    | none => []

/-- The variable that stands for the parameter at a position in a test. -/
inductive StandsFor (src : SourceText) (func : Tree) : Nat → Tree → String → Prop where
  /-- The single parameter of an arrow function without parentheses is a name. -/
  | bare {single : Tree} (hbare : func.childAt? .parameter = some single) :
      StandsFor src func 0 single (single.text src)
  /-- A parameter that is known by a name keeps it. -/
  | named {i : Nat} {param : Tree} {name : String} (hlist : func.childAt? .parameter = none)
      (hname : param.formalPattern.KnownAs src name) : StandsFor src func i param name
  /-- Any other parameter is called after its position. -/
  | unnamed {i : Nat} {param : Tree} (hlist : func.childAt? .parameter = none)
      (hname : ¬param.formalPattern.IsNamed src) : StandsFor src func i param (placeholder i)

/-- The formal parameters for which a placeholder stands. -/
def unnamedParameters (src : SourceText) (func : Tree) : List Tree :=
  match func.childAt? .parameter with
  | some _ => []
  | none => (formalParameters func).filter fun param => ¬param.formalPattern.IsNamed src

/-! ## Computing the formal parameters -/

/-- A parameter that may have a type puts its pattern at a parameter position, unless that is `this`. -/
theorem formalPattern?_of_childAt? {param pattern : Tree}
    (hkind : param.kind = .requiredParameter ∨ param.kind = .optionalParameter)
    (hpattern : param.childAt? .pattern = some pattern) :
    formalPattern? param = if param.isFormal then some param.formalPattern else none := by
  rcases hkind with hkind | hkind <;>
    by_cases hthis : pattern.kind = .this <;>
      simp [formalPattern?, Tree.isFormal, Tree.isSelfParameter, Tree.formalPattern, hkind, hpattern, hthis]

/-- Any other child of a parameter list stands at a parameter position itself, unless it is a comment, a
decorator or `this`. -/
theorem formalPattern?_of_ne {param : Tree} (hrequired : param.kind ≠ .requiredParameter)
    (hoptional : param.kind ≠ .optionalParameter) :
    formalPattern? param = if param.isFormal then some param.formalPattern else none := by
  by_cases hcomment : param.kind = .comment
  · simp [formalPattern?, Tree.isFormal, hcomment]
  by_cases hdecorator : param.kind = .decorator
  · simp [formalPattern?, Tree.isFormal, hdecorator]
  by_cases hthis : param.kind = .this <;>
    simp [formalPattern?, Tree.isFormal, Tree.isSelfParameter, Tree.formalPattern, *]

/-- A child of a parameter list puts its pattern at a parameter position if it is a formal parameter. -/
theorem formalPattern?_eq {param : Tree}
    (h : param.kind = .requiredParameter ∨ param.kind = .optionalParameter →
      (param.childAt? .pattern).isSome = true) :
    formalPattern? param = if param.isFormal then some param.formalPattern else none := by
  by_cases hkind : param.kind = .requiredParameter ∨ param.kind = .optionalParameter
  · obtain ⟨pattern, hpattern⟩ := Option.isSome_iff_exists.1 (h hkind)
    exact formalPattern?_of_childAt? hkind hpattern
  · rw [not_or] at hkind
    exact formalPattern?_of_ne hkind.1 hkind.2

section Listed

variable {src : SourceText} {root func : Tree}

/-- The computed patterns are those of the formal parameters. -/
theorem formalPatterns_eq (hpatterns : root.HasPatterns) (hin : func ∈ root.preorder)
    (hlist : func.childAt? .parameter = none) :
    formalPatterns func = (formalParameters func).map Tree.formalPattern := by
  rw [formalParameters, hlist]
  unfold formalPatterns
  cases hparams : func.childAt? .parameters with
  | none => rfl
  | some params =>
    have hlistIn := Tree.mem_preorder_of_childAt? hin hparams
    dsimp only
    rw [← List.filterMap_eq_map, List.filterMap_filter]
    refine List.filterMap_congr fun param hparam => ?_
    exact formalPattern?_eq (hpatterns param (Tree.mem_preorder_of_mem_namedChildren hlistIn hparam))

/-- The names in a parameter list are those of the formal parameters, and placeholders for those without
one. -/
theorem parameterNames_eq (hpatterns : root.HasPatterns) (hin : func ∈ root.preorder)
    (hlist : func.childAt? .parameter = none) :
    parameterNames src func =
      (formalParameters func).mapIdx fun i param =>
        (formalName? src param.formalPattern).getD (placeholder i) := by
  rw [parameterNames, hlist]
  dsimp only
  rw [formalPatterns_eq hpatterns hin hlist, List.mapIdx_eq_zipIdx_map, List.zipIdx_map, List.map_map]
  rfl

/-- What a parameter is known by, or else its placeholder, stands for it. -/
theorem standsFor_getD {i : Nat} {param : Tree} (hlist : func.childAt? .parameter = none) :
    StandsFor src func i param ((formalName? src param.formalPattern).getD (placeholder i)) := by
  cases hname : formalName? src param.formalPattern with
  | some name => exact .named hlist (formalName?_eq_some_iff.1 hname)
  | none =>
    refine .unnamed hlist fun hnamed => ?_
    rw [← isSome_formalName?, hname] at hnamed
    cases hnamed

/-- There is a variable for every formal parameter. -/
theorem length_parameterNames_eq (hpatterns : root.HasPatterns) (hin : func ∈ root.preorder) :
    (parameterNames src func).length = (formalParameters func).length := by
  cases hbare : func.childAt? .parameter with
  | some single => rw [parameterNames, formalParameters, hbare]; rfl
  | none => rw [parameterNames_eq hpatterns hin hbare, List.length_mapIdx]

/-- The variable at a position stands for the formal parameter there. -/
theorem standsFor_of_getElem? (hpatterns : root.HasPatterns) (hin : func ∈ root.preorder) {i : Nat}
    {param : Tree} {name : String} (hparam : (formalParameters func)[i]? = some param)
    (hname : (parameterNames src func)[i]? = some name) : StandsFor src func i param name := by
  cases hbare : func.childAt? .parameter with
  | some single =>
    rw [formalParameters, hbare] at hparam
    rw [parameterNames, hbare] at hname
    cases i with
    | zero =>
      obtain rfl := Option.some.inj hparam
      obtain rfl := Option.some.inj hname
      exact .bare hbare
    | succ i => cases hparam
  | none =>
    rw [parameterNames_eq hpatterns hin hbare, List.getElem?_mapIdx, hparam] at hname
    obtain rfl := Option.some.inj hname
    exact standsFor_getD hbare

/-- The reports on the parameters of a node are those on its formal parameters without a name. -/
theorem parameterDiagnostics_eq (hpatterns : root.HasPatterns) (hin : func ∈ root.preorder) :
    parameterDiagnostics src func =
      (unnamedParameters src func).map fun param => ⟨.unpackedParameter, param.formalPattern.line src⟩ := by
  unfold parameterDiagnostics unnamedParameters
  cases hlist : func.childAt? .parameter with
  | some single => rfl
  | none =>
    dsimp only
    rw [formalPatterns_eq hpatterns hin hlist, List.filter_map, List.map_map]
    refine congrArg (List.map _) (List.filter_congr fun param _ => ?_)
    rw [Function.comp_apply, ← Option.not_isSome, Bool.eq_iff_iff, decide_eq_true_iff,
      Bool.not_eq_true', Bool.eq_false_iff, ne_eq, isSome_formalName?]

end Listed

/-! ## Tests and the parameters of their units -/

/-- What the body of a test has from the parameters of its node: below the observed calls, it declares one
variable for each formal parameter, in order, and passes these on. -/
structure FollowsParameters (src : SourceText) (m : Model) (s : SourcedTest) (names : List String) :
    Prop where
  /-- There is a variable for every formal parameter. -/
  length : names.length = (formalParameters s.node).length
  /-- The variables stand for the parameters at their positions. -/
  standsFor : ∀ i param name, (formalParameters s.node)[i]? = some param → names[i]? = some name →
    StandsFor src s.node i param name
  /-- The body declares the variables and passes them on. The result is kept if the unit returns. -/
  body : caseBody jest m s.case =
    Jest.spies s.case.calls m.requires m.imports s.case.receiver ++
      names.map (fun name => .line ("const " ++ name ++ " = null;")) ++
      [.line ((if (scopeFacts src s.node).returns then "const result = " else "") ++
        dotted s.case.chain ++ "(" ++ ", ".intercalate names ++ ");")]

section Tests

variable {src : SourceText} {specifier : String} {root : Tree}

/-- A test follows the parameters of its node. -/
theorem followsParameters_of_readsCallable {m : Model} {s : SourcedTest} (hpatterns : root.HasPatterns)
    (h : Tree.ReadsCallable src root s) : FollowsParameters src m s s.case.parameters where
  length := by rw [h.parameters, length_parameterNames_eq hpatterns h.mem]
  standsFor := by
    intro i param name hparam hname
    rw [h.parameters] at hname
    exact standsFor_of_getElem? hpatterns h.mem hparam hname
  body := by
    rw [← h.returns]
    simp only [caseBody, jest, nullDeclarations, TestCase.invocation, TestCase.call,
      parenthesized, commaSeparated, List.append_nil, String.append_assoc]
    rfl

/-- The suite of a model read off a tree holds its tests in order. -/
theorem suite_eq_map_sourcedTests {m : Model} (hm : m = (Findings.ofTree src specifier root).toModel) :
    suite jest m =
      Jest.callbackBlock ("describe(" ++ quoted (baseName m.specifier) ++ ", ")
        (suiteFrame jest m ++ (root.sourcedTests src specifier).map fun s =>
          Jest.callbackBlock ("test(" ++ quoted s.case.description ++ ", ") (caseBody jest m s.case)) := by
  have htests : (root.sourcedTests src specifier).map (fun s => caseBlock jest m s.case) =
      m.testCases.map (caseBlock jest m) := by
    rw [hm, ← Tree.map_case_sourcedTests, List.map_map]
    rfl
  rw [suite, ← htests]
  rfl

/-- **A module that is read has a scaffold that ends with its tests**: the suite holds the tests of its tree in
order. -/
theorem exists_suite_of_readModel {parser : Parser} {filename : String} {m : Model}
    (h : readModel parser src filename = .ok m) :
    ∃ root d, parseModule parser src filename = .ok root ∧ m = (Findings.ofTree src filename root).toModel ∧
      scaffold? jest m = some d ∧
      d.statements.getLast? = some
        (Jest.callbackBlock ("describe(" ++ quoted (baseName m.specifier) ++ ", ")
          (suiteFrame jest m ++ (root.sourcedTests src filename).map fun s =>
            Jest.callbackBlock ("test(" ++ quoted s.case.description ++ ", ") (caseBody jest m s.case))) := by
  obtain ⟨root, hparse, hm⟩ := exists_parseModule_of_readModel h
  obtain ⟨d, hd⟩ := exists_scaffold?_of_readModel jest h
  exact ⟨root, d, hparse, hm, hd, by rw [getLast?_statements hd, suite_eq_map_sourcedTests hm]⟩

end Tests

/-- **Tests follow the parameters of their units.** Let a tree be read in which every parameter with a type
has a pattern. Then the scaffold of its model ends with a suite that holds one test for each of certain
nodes, which are retained in that order. The body of a test declares a variable for each formal parameter of
its node and passes these on, and it keeps the result exactly if the node returns. The reports on parameters
are, up to their order, one for each formal parameter of a retained node that a placeholder stands for.

**Proof sketch.** The tests of the model, their nodes and the reports are those of the retained nodes. At a
node, both the names and the reports are computed from the patterns of the formal parameters, and a pattern
has a computed name exactly if it is known by one. -/
theorem tests_follow_parameters {src : SourceText} {specifier : String} {root : Tree} {m : Model}
    (hpatterns : root.HasPatterns) (hm : m = (Findings.ofTree src specifier root).toModel) :
    (∀ d, scaffold? jest m = some d → d.statements.getLast? = some
      (Jest.callbackBlock ("describe(" ++ quoted (baseName m.specifier) ++ ", ")
        (suiteFrame jest m ++ (root.sourcedTests src specifier).map fun s =>
          Jest.callbackBlock ("test(" ++ quoted s.case.description ++ ", ")
            (caseBody jest m s.case)))) ∧
      (∀ s ∈ root.sourcedTests src specifier, ∃ names, FollowsParameters src m s names) ∧
      ((root.sourcedTests src specifier).map (·.node)).Sublist (root.retainedCallables src specifier) ∧
      (m.diagnostics.filter (·.form == .unpackedParameter)).Perm
        ((root.retainedCallables src specifier).flatMap fun func =>
          (unnamedParameters src func).map fun param =>
            ⟨.unpackedParameter, param.formalPattern.line src⟩) := by
  refine ⟨fun d hd => ?_, fun s hs => ?_, Tree.sublist_node_sourcedTests, ?_⟩
  · rw [getLast?_statements hd, suite_eq_map_sourcedTests hm]
  · exact ⟨_, followsParameters_of_readsCallable hpatterns (Tree.readsCallable_of_mem_sourcedTests hs)⟩
  · have hreports : (root.retainedCallables src specifier).flatMap (parameterDiagnostics src) =
        (root.retainedCallables src specifier).flatMap fun func =>
          (unnamedParameters src func).map fun param =>
            ⟨.unpackedParameter, param.formalPattern.line src⟩ :=
      List.flatMap_congr fun func hfunc =>
        parameterDiagnostics_eq hpatterns (Tree.mem_preorder_of_mem_retainedCallables hfunc)
    rw [hm, ← hreports]
    exact Tree.perm_filter_diagnostics

/-- The listing of a module with a function that takes its first argument apart. -/
def unpackingListing : List Row :=
  [.make 0 1 "program" 0 40 none, .make 1 1 "export_statement" 0 40 none, .make 2 0 "export" 0 6 none,
    .make 2 1 "function_declaration" 7 40 "declaration", .make 3 0 "function" 7 15 none,
    .make 3 1 "identifier" 16 17 "name", .make 3 1 "formal_parameters" 17 37 "parameters",
    .make 4 0 "(" 17 18 none,
    .make 4 1 "required_parameter" 18 23 none, .make 5 1 "object_pattern" 18 23 "pattern",
    .make 6 0 "\x7b" 18 19 none, .make 6 1 "shorthand_property_identifier_pattern" 20 21 none,
    .make 6 0 "\x7d" 22 23 none, .make 4 0 "," 23 24 none,
    .make 4 1 "required_parameter" 25 30 none, .make 5 1 "identifier" 25 26 "pattern",
    .make 5 0 "=" 27 28 none, .make 5 1 "number" 29 30 "value", .make 4 0 "," 30 31 none,
    .make 4 1 "required_parameter" 32 36 none, .make 5 1 "rest_pattern" 32 36 "pattern",
    .make 6 0 "..." 32 35 none, .make 6 1 "identifier" 35 36 none, .make 4 0 ")" 36 37 none,
    .make 3 1 "statement_block" 38 40 "body", .make 4 0 "\x7b" 38 39 none, .make 4 0 "\x7d" 39 40 none]

/-- The text of that module. -/
def unpackingText : SourceText :=
  SourceText.ofString "export function f(\x7b a \x7d, b = 1, ...c) \x7b\x7d"

/-- The test of that function has the parameters `param0`, `b` and `c`. -/
theorem tests_follow_parameters_unpacking :
    ∃ root, Tree.ofRows? unpackingListing = some root ∧ root.HasPatterns ∧
      ((root.sourcedTests unpackingText "my-module.js").map (·.case.parameters)) =
        [["param0", "b", "c"]] ∧
      ∀ s ∈ root.sourcedTests unpackingText "my-module.js", ∃ names,
        FollowsParameters unpackingText
          (Findings.ofTree unpackingText "my-module.js" root).toModel s names := by
  refine ⟨_, rfl, ?_, ?_, ?_⟩
  · decide
  · decide
  · exact (tests_follow_parameters (by decide) rfl).2.1

end TestScaffold
