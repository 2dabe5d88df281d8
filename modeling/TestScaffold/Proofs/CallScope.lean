import Mathlib.Data.List.ReduceOption
import TestScaffold.Findings.Dependencies
import TestScaffold.Proofs.Formals
import TestScaffold.Proofs.TopLevelNames

set_option autoImplicit false

/-!
# Names declared in a test

The body of a test declares the arguments of a call, and `result` if the result is kept. The arguments are
called as in the source, except for those without a name, which are called after their positions. Nothing
keeps these names apart from each other or from what is called.

## Main definitions

* `TestScaffold.withPlaceholders` — names, with placeholders for those that are missing.
* `TestScaffold.PlaceholdersFree` — no name is the placeholder of another.
* `TestScaffold.parameterBindings` — the names that the parameters of a node bind.
* `TestScaffold.TestCase.declarations` — the lines of a test that declare names.
* `TestScaffold.TestCase.Hygienic` — a test declares no name twice, and not the one that its call begins
  with.
* `TestScaffold.BindsApart` — what this takes of the parameters of a node.

## Main results

* `TestScaffold.nodup_withPlaceholders` — when no name coincides with another or with a placeholder.
* `TestScaffold.reduceOption_parameterSlots_sublist` — parameters bind the names that they are known by.
* `TestScaffold.hygienic_iff_bindsApart` — when a test is hygienic.
-/

namespace TestScaffold

/-! ## Names with placeholders -/

/-- Names with a placeholder wherever one is missing. The positions are counted from `k`. -/
def withPlaceholders (k : Nat) (slots : List (Option String)) : List String :=
  (slots.zipIdx k).map fun (name, i) => name.getD (placeholder i)

/-- Different positions have different placeholders. -/
theorem placeholder_injective : Function.Injective placeholder := by
  intro i j h
  have hdigits := congrArg String.toList ((String.append_right_inj _).1 h)
  rw [Nat.toString_eq_repr, Nat.toString_eq_repr, Nat.toList_repr, Nat.toList_repr] at hdigits
  rw [← Nat.ofDigitChars_ten_toDigits (n := i), hdigits, Nat.ofDigitChars_ten_toDigits]

/-- No placeholder is called `result`. -/
theorem placeholder_ne_result (i : Nat) : placeholder i ≠ "result" := by
  intro h
  have hchars := congrArg String.toList h
  rw [placeholder, String.toList_append] at hchars
  have hfirst : some 'p' = some 'r' := congrArg List.head? hchars
  exact absurd hfirst (by decide)

/-- With its first entry, a list has the name there or its placeholder. -/
theorem withPlaceholders_cons (k : Nat) (slot : Option String) (slots : List (Option String)) :
    withPlaceholders k (slot :: slots) =
      slot.getD (placeholder k) :: withPlaceholders (k + 1) slots := by
  rw [withPlaceholders, List.zipIdx_cons]
  rfl

/-- The names are those that are given, and the placeholders of the others. -/
theorem mem_withPlaceholders {name : String} {slots : List (Option String)} :
    ∀ {k : Nat}, name ∈ withPlaceholders k slots ↔
      some name ∈ slots ∨ ∃ i, slots[i]? = some none ∧ name = placeholder (k + i) := by
  induction slots with
  | nil =>
    intro k
    simp [withPlaceholders]
  | cons slot slots ih =>
    intro k
    rw [withPlaceholders_cons, List.mem_cons, ih, List.mem_cons]
    have hshift : ∀ i, placeholder (k + 1 + i) = placeholder (k + (i + 1)) := fun i => by
      rw [Nat.add_assoc, Nat.add_comm 1]
    constructor
    · rintro (hfirst | hgiven | ⟨i, hi, hname⟩)
      · cases slot with
        | none => exact Or.inr ⟨0, rfl, hfirst⟩
        | some given => exact Or.inl (Or.inl (congrArg some hfirst))
      · exact Or.inl (Or.inr hgiven)
      · exact Or.inr ⟨i + 1, hi, hname.trans (hshift i)⟩
    · rintro ((hfirst | hgiven) | ⟨i, hi, hname⟩)
      · subst hfirst
        exact Or.inl rfl
      · exact Or.inr (Or.inl hgiven)
      · cases i with
        | zero =>
          obtain rfl := Option.some.inj hi
          exact Or.inl hname
        | succ i => exact Or.inr (Or.inr ⟨i, hi, hname.trans (hshift i).symm⟩)

/-- No given name is the placeholder of a missing one. The positions are counted from `k`. -/
def PlaceholdersFree (k : Nat) (slots : List (Option String)) : Prop :=
  ∀ i, slots[i]? = some none → some (placeholder (k + i)) ∉ slots

/-- If the first name is missing, its placeholder is to be free as well. -/
theorem placeholdersFree_cons_none {k : Nat} {slots : List (Option String)} :
    PlaceholdersFree k (none :: slots) ↔
      some (placeholder k) ∉ slots ∧ PlaceholdersFree (k + 1) slots := by
  have hshift : ∀ i, k + (i + 1) = k + 1 + i := fun i => by omega
  constructor
  · intro h
    refine ⟨fun hgiven => h 0 rfl (List.mem_cons_of_mem _ hgiven), fun i hi hgiven => ?_⟩
    exact h (i + 1) hi (List.mem_cons_of_mem _ (hshift i ▸ hgiven))
  · rintro ⟨hfirst, hrest⟩ i hi hmem
    have hgiven := (List.mem_cons.1 hmem).resolve_left (Option.some_ne_none _)
    cases i with
    | zero => exact hfirst hgiven
    | succ i => exact hrest i hi (hshift i ▸ hgiven)

/-- If the first name is given, it is to be no placeholder of a later one. -/
theorem placeholdersFree_cons_some {k : Nat} {given : String} {slots : List (Option String)} :
    PlaceholdersFree k (some given :: slots) ↔
      (∀ i, slots[i]? = some none → given ≠ placeholder (k + 1 + i)) ∧
        PlaceholdersFree (k + 1) slots := by
  have hshift : ∀ i, k + (i + 1) = k + 1 + i := fun i => by omega
  constructor
  · intro h
    refine ⟨fun i hi heq => h (i + 1) hi ?_, fun i hi hgiven => h (i + 1) hi ?_⟩
    · rw [hshift, ← heq]
      exact List.mem_cons_self
    · exact List.mem_cons_of_mem _ (hshift i ▸ hgiven)
  · rintro ⟨hfirst, hrest⟩ i hi hmem
    cases i with
    | zero => cases hi
    | succ i =>
      rw [hshift] at hmem
      rcases List.mem_cons.1 hmem with heq | hgiven
      · exact hfirst i hi (Option.some.inj heq).symm
      · exact hrest i hi hgiven

/-- **No name occurs twice** exactly if none of the given ones does, and none of them is the placeholder of
a missing one. -/
theorem nodup_withPlaceholders {slots : List (Option String)} :
    ∀ {k : Nat}, (withPlaceholders k slots).Nodup ↔
      slots.reduceOption.Nodup ∧ PlaceholdersFree k slots := by
  induction slots with
  | nil =>
    intro k
    simp [withPlaceholders, PlaceholdersFree]
  | cons slot slots ih =>
    intro k
    rw [withPlaceholders_cons, List.nodup_cons, ih, mem_withPlaceholders, not_or]
    cases slot with
    | none =>
      -- The placeholders behind the first one are different from it.
      have hlater : ¬∃ i, slots[i]? = some none ∧ placeholder k = placeholder (k + 1 + i) := by
        rintro ⟨i, -, heq⟩
        have hposition := placeholder_injective heq
        omega
      rw [List.reduceOption_cons_of_none, placeholdersFree_cons_none]
      exact ⟨fun ⟨⟨hfirst, _⟩, hnodup, hrest⟩ => ⟨hnodup, hfirst, hrest⟩,
        fun ⟨hnodup, hfirst, hrest⟩ => ⟨⟨hfirst, hlater⟩, hnodup, hrest⟩⟩
    | some given =>
      rw [List.reduceOption_cons_of_some, List.nodup_cons, List.reduceOption_mem_iff,
        placeholdersFree_cons_some]
      simp only [Option.getD_some, not_exists, not_and, ne_eq]
      exact ⟨fun ⟨⟨hnew, hfirst⟩, hnodup, hrest⟩ => ⟨⟨hnew, hnodup⟩, hfirst, hrest⟩,
        fun ⟨⟨hnew, hnodup⟩, hfirst, hrest⟩ => ⟨⟨hnew, hfirst⟩, hnodup, hrest⟩⟩

/-! ## The names that parameters bind -/

/-- The names of the parameters of a node, as far as they have one. -/
def parameterSlots (src : SourceText) (func : Tree) : List (Option String) :=
  match func.childAt? .parameter with
  | some single => [some (single.text src)]
  | none => (formalPatterns func).map (formalName? src)

/-- All names that the parameters of a node bind, those in patterns included. -/
def parameterBindings (src : SourceText) (func : Tree) : List String :=
  match func.childAt? .parameter with
  | some single => [single.text src]
  | none => (formalPatterns func).flatMap (patternNames src)

section Bindings

variable {src : SourceText}

/-- A name binds itself. -/
theorem patternNames_identifier {t : Tree} (h : t.kind = .identifier) :
    patternNames src t = [t.text src] := by
  obtain ⟨l, cs⟩ := t
  change l.kind = _ at h
  rw [patternNames, h]

/-- A pattern that is known by a name binds just that. -/
theorem patternNames_of_knownAs {t : Tree} {name : String} (h : t.KnownAs src name) :
    patternNames src t = [name] := by
  induction h with
  | @identifier t hkind => exact patternNames_identifier hkind
  | @default t target name hkind htarget hname ih =>
    obtain ⟨l, cs⟩ := t
    change l.kind = _ at hkind
    change cs.find? _ = _ at htarget
    rw [patternNames, hkind]
    dsimp only
    rw [patternNamesAt_eq, htarget]
    exact ih
  | @rest t first hkind hfirst hname =>
    obtain ⟨l, cs⟩ := t
    change l.kind = _ at hkind
    rw [patternNames, hkind]
    dsimp only
    change cs.find? _ = _ at hfirst
    rw [patternNamesOfFirst_eq, hfirst]
    exact patternNames_identifier hname

/-- The names of a node's parameters are its names for them, with placeholders for those without one. -/
theorem parameterNames_eq_withPlaceholders (func : Tree) :
    parameterNames src func = withPlaceholders 0 (parameterSlots src func) := by
  unfold parameterNames parameterSlots
  cases func.childAt? .parameter with
  | some single => rfl
  | none =>
    dsimp only
    rw [withPlaceholders, List.zipIdx_map, List.map_map]
    rfl

/-- The names that several patterns are known by are among the names that they bind, in order. -/
theorem reduceOption_map_formalName?_sublist (patterns : List Tree) :
    (patterns.map (formalName? src)).reduceOption.Sublist (patterns.flatMap (patternNames src)) := by
  induction patterns with
  | nil => exact List.Sublist.refl []
  | cons pattern patterns ih =>
    rw [List.map_cons, List.flatMap_cons]
    cases hname : formalName? src pattern with
    | none =>
      rw [List.reduceOption_cons_of_none]
      exact ih.trans (List.sublist_append_right _ _)
    | some name =>
      rw [List.reduceOption_cons_of_some,
        patternNames_of_knownAs (formalName?_eq_some_iff.1 hname)]
      exact ih.cons_cons name

/-- The names that parameters are known by are among the names that they bind, in order. -/
theorem reduceOption_parameterSlots_sublist (func : Tree) :
    (parameterSlots src func).reduceOption.Sublist (parameterBindings src func) := by
  unfold parameterSlots parameterBindings
  cases func.childAt? .parameter with
  | some single => exact List.Sublist.refl _
  | none => exact reduceOption_map_formalName?_sublist _

end Bindings

/-! ## The declarations of a test -/

/-- The line that declares a variable without a value. -/
def Declaration.null (name : String) : Declaration := ⟨"const " ++ name ++ " = null;", [name]⟩

/-- The lines of a test that follow the observed calls, with the names that they declare. -/
def TestCase.declarations (t : TestCase) : List Declaration :=
  t.parameters.map Declaration.null ++ [⟨t.invocation, if t.returns then ["result"] else []⟩]

/-- A test whose call begins with a name declares no name twice, and not that one. -/
structure TestCase.Hygienic (t : TestCase) (head : String) : Prop where
  /-- No name is declared twice. -/
  nodup : (namesDeclared t.declarations).Nodup
  /-- The name that the call begins with is not declared in the test. -/
  call : head ∉ namesDeclared t.declarations

/-- The names that a test takes from its node keep apart: those of the parameters, the placeholders of the
parameters without a name, the name of the result, and the name that the call begins with. -/
structure BindsApart (src : SourceText) (func : Tree) (head : String) : Prop where
  /-- No parameter is called like the placeholder of another. -/
  placeholders : PlaceholdersFree 0 (parameterSlots src func)
  /-- If the result is kept, no parameter is called like it. -/
  result : (scopeFacts src func).returns = true → some "result" ∉ parameterSlots src func
  /-- No parameter is called like what the call begins with. -/
  call : some head ∉ parameterSlots src func
  /-- The call does not begin with a placeholder. -/
  call_ne_placeholder : ∀ i, (parameterSlots src func)[i]? = some none → head ≠ placeholder i
  /-- If the result is kept, the call does not begin with its name. -/
  call_ne_result : (scopeFacts src func).returns = true → head ≠ "result"

/-- Variables without a value are declared by their lines. -/
theorem map_line_nulls (names : List String) :
    (names.map Declaration.null).map (fun d => Statement.line d.text) = nullDeclarations names := by
  rw [List.map_map]
  rfl

/-- Variables without a value have their names. -/
theorem namesDeclared_nulls (names : List String) :
    namesDeclared (names.map Declaration.null) = names := by
  rw [namesDeclared, List.flatMap_map]
  exact List.flatMap_singleton' names

/-- The body of a test is the observed calls, then its declarations. -/
theorem caseBody_jest (m : Model) (t : TestCase) :
    caseBody jest m t =
      Jest.spies t.calls m.requires m.imports t.receiver ++
        t.declarations.map fun d => .line d.text := by
  rw [TestCase.declarations, List.map_append, map_line_nulls]
  simp only [caseBody, jest, List.append_nil, List.append_assoc]
  rfl

/-- A test declares its arguments, and the result if it is kept. -/
theorem namesDeclared_testDeclarations (t : TestCase) :
    namesDeclared t.declarations = t.parameters ++ if t.returns then ["result"] else [] := by
  rw [TestCase.declarations, namesDeclared_append, namesDeclared_nulls, namesDeclared,
    List.flatMap_singleton]

/-- The call of a test begins with some name. -/
theorem exists_head_of_mem_testCases {m : Model} {t : TestCase} (h : t ∈ m.testCases) :
    ∃ head, t.chain.head? = some head := by
  rcases List.mem_append.1 h with h | h
  · obtain ⟨c, -, h⟩ := List.mem_flatMap.1 h
    obtain ⟨method, -, rfl⟩ := List.mem_map.1 h
    exact ⟨_, rfl⟩
  · obtain ⟨f, -, rfl⟩ := List.mem_map.1 h
    have hne : f.callQualifier ++ [f.name] ≠ [] := List.append_ne_nil_of_right_ne_nil _ (List.cons_ne_nil _ _)
    exact ⟨_, List.head?_eq_some_head hne⟩

section Hygiene

variable {src : SourceText} {root : Tree} {s : SourcedTest} {head : String}

/-- The names that a test declares are those in the slots of its parameters, the placeholders of the empty
slots, and that of the result if its node returns. -/
theorem mem_namesDeclared_testDeclarations (h : Tree.ReadsCallable src root s) {name : String} :
    name ∈ namesDeclared s.case.declarations ↔
      (some name ∈ parameterSlots src s.node ∨
        ∃ i, (parameterSlots src s.node)[i]? = some none ∧ name = placeholder i) ∨
      ((scopeFacts src s.node).returns = true ∧ name = "result") := by
  rw [namesDeclared_testDeclarations, List.mem_append, h.parameters, h.returns,
    parameterNames_eq_withPlaceholders, mem_withPlaceholders]
  simp only [Nat.zero_add]
  refine or_congr Iff.rfl ?_
  cases (scopeFacts src s.node).returns <;> simp

/-- A test declares no name twice if the names that it takes from its node keep apart, given that the
parameters of the node do. -/
theorem nodup_namesDeclared_testDeclarations (h : Tree.ReadsCallable src root s)
    (hbindings : (parameterBindings src s.node).Nodup) :
    (namesDeclared s.case.declarations).Nodup ↔
      PlaceholdersFree 0 (parameterSlots src s.node) ∧
      ((scopeFacts src s.node).returns = true → some "result" ∉ parameterSlots src s.node) := by
  have hnames := hbindings.sublist (reduceOption_parameterSlots_sublist s.node)
  have hresult : "result" ∉ withPlaceholders 0 (parameterSlots src s.node) ↔
      some "result" ∉ parameterSlots src s.node := by
    rw [mem_withPlaceholders, not_or]
    exact and_iff_left fun ⟨i, _, heq⟩ => placeholder_ne_result _ heq.symm
  rw [namesDeclared_testDeclarations, h.parameters, h.returns, parameterNames_eq_withPlaceholders]
  cases (scopeFacts src s.node).returns with
  | true =>
    rw [if_pos rfl, List.nodup_append_comm, List.singleton_append, List.nodup_cons, hresult,
      nodup_withPlaceholders, and_iff_right hnames, and_comm]
    simp only [forall_const]
  | false =>
    rw [if_neg Bool.false_ne_true, List.append_nil, nodup_withPlaceholders, and_iff_right hnames]
    simp only [Bool.false_eq_true, false_implies, and_true]

/-- **When a test is hygienic.** A test of a model read off a tree is for a node of the tree. If the
parameters of that node bind distinct names, then the lines of the test that follow the observed calls
declare no name twice, and not the one that the call begins with, exactly if the names that they take from
the node keep apart. -/
theorem hygienic_iff_bindsApart {specifier : String} {m : Model}
    (hm : m = (Findings.ofTree src specifier root).toModel) (hs : s ∈ root.sourcedTests src specifier)
    (hbindings : (parameterBindings src s.node).Nodup) :
    s.case ∈ m.testCases ∧ s.node ∈ root.preorder ∧
      caseBody jest m s.case =
        Jest.spies s.case.calls m.requires m.imports s.case.receiver ++
          (s.case.declarations.map fun d => .line d.text) ∧
      ∃ head, s.case.chain.head? = some head ∧
        (s.case.Hygienic head ↔ BindsApart src s.node head) := by
  have hreads := Tree.readsCallable_of_mem_sourcedTests hs
  have hcase : s.case ∈ m.testCases := by
    rw [hm, ← Tree.map_case_sourcedTests]
    exact List.mem_map_of_mem hs
  obtain ⟨head, hhead⟩ := exists_head_of_mem_testCases hcase
  refine ⟨hcase, hreads.mem, caseBody_jest m s.case, head, hhead, ?_⟩
  constructor
  · rintro ⟨hnodup, hcall⟩
    obtain ⟨hplaceholders, hresult⟩ := (nodup_namesDeclared_testDeclarations hreads hbindings).1 hnodup
    rw [mem_namesDeclared_testDeclarations hreads, not_or, not_or] at hcall
    exact
      { placeholders := hplaceholders
        result := hresult
        call := hcall.1.1
        call_ne_placeholder := fun i hi heq => hcall.1.2 ⟨i, hi, heq⟩
        call_ne_result := fun hreturns heq => hcall.2 ⟨hreturns, heq⟩ }
  · intro hapart
    refine ⟨(nodup_namesDeclared_testDeclarations hreads hbindings).2
      ⟨hapart.placeholders, hapart.result⟩, ?_⟩
    rw [mem_namesDeclared_testDeclarations hreads]
    rintro ((hparameter | ⟨i, hi, heq⟩) | ⟨hreturns, heq⟩)
    · exact hapart.call hparameter
    · exact hapart.call_ne_placeholder i hi heq
    · exact hapart.call_ne_result hreturns heq

end Hygiene

/-- The condition applies to a function that takes its first argument apart. -/
theorem hygienic_iff_bindsApart_unpacking :
    ∃ root, Tree.ofRows? unpackingListing = some root ∧
      (root.sourcedTests unpackingText "my-module.js").length = 1 ∧
      ∀ s ∈ root.sourcedTests unpackingText "my-module.js",
        (parameterBindings unpackingText s.node).Nodup ∧
        ∃ head, s.case.chain.head? = some head ∧
          (s.case.Hygienic head ↔ BindsApart unpackingText s.node head) := by
  refine ⟨_, rfl, by decide, fun s hs => ?_⟩
  have hbindings : (parameterBindings unpackingText s.node).Nodup := by
    revert s
    decide
  exact ⟨hbindings, (hygienic_iff_bindsApart rfl hs hbindings).2.2.2⟩

/-- The listing of a module with a function whose first parameter is called like the placeholder of its
second. -/
def placeholderListing : List Row :=
  [.make 0 1 "program" 0 35 none, .make 1 1 "export_statement" 0 35 none, .make 2 0 "export" 0 6 none,
    .make 2 1 "function_declaration" 7 35 "declaration", .make 3 0 "function" 7 15 none,
    .make 3 1 "identifier" 16 17 "name", .make 3 1 "formal_parameters" 17 32 "parameters",
    .make 4 0 "(" 17 18 none,
    .make 4 1 "required_parameter" 18 24 none, .make 5 1 "identifier" 18 24 "pattern",
    .make 4 0 "," 24 25 none,
    .make 4 1 "required_parameter" 26 31 none, .make 5 1 "object_pattern" 26 31 "pattern",
    .make 6 0 "\x7b" 26 27 none, .make 6 1 "shorthand_property_identifier_pattern" 28 29 none,
    .make 6 0 "\x7d" 30 31 none, .make 4 0 ")" 31 32 none,
    .make 3 1 "statement_block" 33 35 "body", .make 4 0 "\x7b" 33 34 none, .make 4 0 "\x7d" 34 35 none]

/-- The text of that module. -/
def placeholderText : SourceText :=
  SourceText.ofString "export function f(param1, \x7b a \x7d) \x7b\x7d"

/-- The test of that function declares `param1` twice, although its parameters bind distinct names. -/
theorem declaresTwice_placeholder :
    ∃ root, readModel (Parser.ofListing placeholderListing) placeholderText "my-module.js" =
        .ok (Findings.ofTree placeholderText "my-module.js" root).toModel ∧
      ∃ s ∈ root.sourcedTests placeholderText "my-module.js",
        (parameterBindings placeholderText s.node).Nodup ∧
          ¬(namesDeclared s.case.declarations).Nodup := by
  refine ⟨_, rfl, ?_⟩
  decide

end TestScaffold
