import TestScaffold.Proofs.CallHead
import TestScaffold.Proofs.FoundUnits

set_option autoImplicit false

/-!
# Where units are declared

Classes and functions are found at every depth of a syntax tree, and a model keeps those whose names are on
the surface of the module. So a unit that stands inside a body is kept too if it bears such a name, and only
then is a unit of the model not declared at module level.

## Main definitions

* `TestScaffold.Locus.AtModuleLevel` — no body of a function, method or class is around a place.
* `TestScaffold.Tree.placed`, `TestScaffold.Tree.placedUnits` — readings and units with their places.
* `TestScaffold.Placement` — the places of the units of a model.

## Main results

* `TestScaffold.Tree.placement` — the units of a model have places, those that declare a name on the
  surface.
* `TestScaffold.Placement.atModuleLevel_iff` — when all these places are at module level.
* `TestScaffold.model_units_placed` — the units of a model are at module level but for nested namesakes.
-/

namespace TestScaffold

/-! ## Module level -/

/-- Whether a step leads into the body of a function, method or class. -/
def Crumb.entersBody (c : Crumb) : Bool := c.parent.kind.opensScope && c.fills .body

namespace Locus

/-- A place is at module level if it is not inside the body of a function, method or class. -/
def AtModuleLevel (p : Locus) : Prop := ∀ c ∈ p.above, c.entersBody = false

instance : DecidablePred AtModuleLevel := fun p =>
  inferInstanceAs (Decidable (∀ c ∈ p.above, c.entersBody = false))

end Locus

/-! ## Readings with their places -/

namespace Tree

/-- The findings of one sort in a tree, with the places they are made at. -/
def placed {α : Type} (src : SourceText) (sort : Finding → Option (Reading α)) (root : Tree) :
    List (Locus × Reading α) :=
  (root.loci []).flatMap fun p => ((p.findings src).filterMap sort).map fun r => (p, r)

/-- The units of one sort that are to be kept, with their places. -/
def placedUnits {α : Type} (src : SourceText) (sort : Finding → Option (Reading α)) (keep : α → Bool)
    (root : Tree) : List (Locus × α) :=
  ((root.placed src sort).filter fun e => keep e.2.unit).map fun e => (e.1, e.2.unit)

section Placed

variable {α : Type} {src : SourceText} {sort : Finding → Option (Reading α)} {keep : α → Bool}
  {root : Tree} {p : Locus}

/-- Without their places, the placed findings of one sort are all findings of that sort. -/
theorem map_snd_placed :
    (root.placed src sort).map (·.2) = ((root.loci []).flatMap (Locus.findings src)).filterMap sort := by
  rw [placed, List.map_flatMap, List.filterMap_flatMap]
  refine List.flatMap_congr fun p _ => ?_
  rw [List.map_map]
  exact List.map_id _

/-- A reading is placed where it is found. -/
theorem mem_placed {r : Reading α} :
    (p, r) ∈ root.placed src sort ↔ p ∈ root.loci [] ∧ ∃ x ∈ p.findings src, sort x = some r := by
  simp only [placed, List.mem_flatMap, List.mem_map, List.mem_filterMap, Prod.mk.injEq]
  constructor
  · rintro ⟨q, hq, r', hx, rfl, rfl⟩
    exact ⟨hq, hx⟩
  · rintro ⟨hp, hx⟩
    exact ⟨p, hp, r, hx, rfl, rfl⟩

/-- Readings are placed in document order, and one at a place. -/
theorem sublist_map_fst_placed (hsort : ∀ x : Finding, x.IsAside → sort x = none) :
    ((root.placed src sort).map (·.1)).Sublist (root.loci []) := by
  rw [placed, List.map_flatMap]
  conv_rhs => rw [← List.flatMap_singleton' (root.loci [])]
  refine List.Sublist.flatMap_right _ fun p _ => ?_
  obtain ⟨o, ho⟩ := Locus.exists_filterMap_findings_eq_toList src p hsort
  rw [ho]
  cases o with
  | none => exact List.nil_sublist _
  | some r => exact List.Sublist.refl _

/-- A unit is placed where it is found if it is to be kept. -/
theorem mem_placedUnits {u : α} :
    (p, u) ∈ root.placedUnits src sort keep ↔
      p ∈ root.loci [] ∧ keep u = true ∧ ∃ r, (∃ x ∈ p.findings src, sort x = some r) ∧ r.unit = u := by
  simp only [placedUnits, List.mem_map, List.mem_filter, Prod.mk.injEq]
  constructor
  · rintro ⟨⟨q, r⟩, ⟨hplaced, hkeep⟩, rfl, rfl⟩
    obtain ⟨hp, hx⟩ := mem_placed.1 hplaced
    exact ⟨hp, hkeep, r, hx, rfl⟩
  · rintro ⟨hp, hkeep, r, hx, rfl⟩
    exact ⟨(p, r), ⟨mem_placed.2 ⟨hp, hx⟩, hkeep⟩, rfl, rfl⟩

/-- Without their places, the placed units are the kept ones. -/
theorem map_snd_placedUnits :
    (root.placedUnits src sort keep).map (·.2) =
      keptUnits keep (((root.loci []).flatMap (Locus.findings src)).filterMap sort) := by
  rw [← map_snd_placed, keptUnits, keptReadings, List.filter_map, placedUnits, List.map_map, List.map_map]
  rfl

/-- Units are placed in document order, and one at a place. -/
theorem sublist_map_fst_placedUnits (hsort : ∀ x : Finding, x.IsAside → sort x = none) :
    ((root.placedUnits src sort keep).map (·.1)).Sublist (root.loci []) := by
  rw [placedUnits, List.map_map]
  exact (List.filter_sublist.map _).trans (sublist_map_fst_placed hsort)

end Placed

end Tree

/-! ## The places of the units of a model -/

/-- **The places of the units of a model**: every class and function of the model is what is read at a place
that declares it, and the places are those that declare a name on the surface, in document order. -/
structure Placement (src : SourceText) (root : Tree) (m : Model) where
  /-- The classes with their places. -/
  classes : List (Locus × ClassUnit)
  /-- The functions with their places. -/
  functions : List (Locus × FunctionUnit)
  /-- All classes of the model have a place. -/
  map_classes : classes.map (·.2) = m.classes
  /-- All functions of the model have a place. -/
  map_functions : functions.map (·.2) = m.functions
  /-- The places of classes are places of the tree in document order. -/
  sublist_classes : (classes.map (·.1)).Sublist (root.loci [])
  /-- The places of functions are places of the tree in document order. -/
  sublist_functions : (functions.map (·.1)).Sublist (root.loci [])
  /-- A class is declared at its place. -/
  declares_class : ∀ e ∈ classes, e.1.DeclaresClass src e.2.name
  /-- A function is declared at its place. -/
  declares_function : ∀ e ∈ functions, e.1.DeclaresFunction src e.2.boundTo
  /-- A class is read off the node at its place. -/
  reads_class : ∀ e ∈ classes, e.2 = (classReading src e.1.node e.2.name).unit
  /-- A function is read off the node at its place, up to promotion. -/
  reads_function : ∀ e ∈ functions,
    { e.2 with role := .function } = (functionReading src e.1.node e.2.boundTo).unit
  /-- A class that is declared has a place if its name is on the surface. -/
  mem_classes : ∀ p ∈ root.loci [], ∀ name, p.DeclaresClass src name →
    (p ∈ classes.map (·.1) ↔ name ∈ m.surface.names)
  /-- A function that is declared has a place if its name is on the surface, or one that it is reached
  through. -/
  mem_functions : ∀ p ∈ root.loci [], ∀ n, p.DeclaresFunction src n →
    (p ∈ functions.map (·.1) ↔ n.name ∈ m.surface.names ∨ ∃ segment ∈ n.qualifier, segment ∈ m.surface.names)

namespace Tree

section Placement

variable (src : SourceText) (specifier : String) (root : Tree)

/-- The classes of the model of a tree with their places. -/
def placedClasses : List (Locus × ClassUnit) :=
  root.placedUnits src Finding.class? (Findings.ofTree src specifier root).keepsClass

/-- The functions that the model of a tree keeps with their places, before one of them is promoted. -/
def keptFunctions : List (Locus × FunctionUnit) :=
  root.placedUnits src Finding.function? (Findings.ofTree src specifier root).surface.publishes

/-- The functions of the model of a tree with their places. -/
def placedFunctions : List (Locus × FunctionUnit) :=
  ((root.keptFunctions src specifier).map (·.1)).zip (Findings.ofTree src specifier root).publishedFunctions

variable {src specifier root} {p : Locus}

/-- A class has a place if it is declared there under a name on the surface. -/
theorem mem_placedClasses {c : ClassUnit} :
    (p, c) ∈ root.placedClasses src specifier ↔
      p ∈ root.loci [] ∧ c.name ∈ (Findings.ofTree src specifier root).surface.names ∧
        p.DeclaresClass src c.name ∧ c = (classReading src p.node c.name).unit := by
  rw [placedClasses, mem_placedUnits, Findings.keepsClass, Surface.contains_eq_true]
  refine and_congr_right fun _ => and_congr_right fun _ => ?_
  constructor
  · rintro ⟨r, ⟨x, hx, hsort⟩, rfl⟩
    cases x with
    | classFound r' =>
      obtain rfl := Option.some.inj hsort
      obtain ⟨name, hname, rfl⟩ := Locus.classFound_mem_findings.1 hx
      exact ⟨hname, rfl⟩
    | _ => cases hsort
  · rintro ⟨hname, hc⟩
    exact ⟨_, ⟨_, Locus.classFound_mem_findings.2 ⟨c.name, hname, rfl⟩, rfl⟩, hc.symm⟩

/-- A function is kept if it is published and declared at its place. -/
theorem mem_keptFunctions {g : FunctionUnit} :
    (p, g) ∈ root.keptFunctions src specifier ↔
      p ∈ root.loci [] ∧ (Findings.ofTree src specifier root).surface.publishes g = true ∧
        p.DeclaresFunction src g.boundTo ∧ g = (functionReading src p.node g.boundTo).unit := by
  rw [keptFunctions, mem_placedUnits]
  refine and_congr_right fun _ => and_congr_right fun _ => ?_
  constructor
  · rintro ⟨r, ⟨x, hx, hsort⟩, rfl⟩
    cases x with
    | functionFound r' =>
      obtain rfl := Option.some.inj hsort
      obtain ⟨n, hn, rfl⟩ := Locus.functionFound_mem_findings.1 hx
      exact ⟨hn, rfl⟩
    | _ => cases hsort
  · rintro ⟨hn, hg⟩
    exact ⟨_, ⟨_, Locus.functionFound_mem_findings.2 ⟨g.boundTo, hn, rfl⟩, rfl⟩, hg.symm⟩

/-- What does not look at roles is the same for the functions of the model and the kept functions. -/
theorem map_publishedFunctions (src : SourceText) (specifier : String) (root : Tree) {β : Type}
    (f : FunctionUnit → β) (hf : ∀ u : FunctionUnit, f { u with role := .constructor } = f u) :
    (Findings.ofTree src specifier root).publishedFunctions.map f =
      (root.keptFunctions src specifier).map fun e => f e.2 := by
  rw [Findings.map_publishedFunctions f hf]
  show (keptUnits _ (((root.loci []).flatMap (Locus.findings src)).filterMap Finding.function?)).map f = _
  rw [← map_snd_placedUnits, List.map_map]
  rfl

/-- There is a place for each function of the model. -/
theorem length_keptFunctions :
    (Findings.ofTree src specifier root).publishedFunctions.length =
      ((root.keptFunctions src specifier).map (·.1)).length := by
  have h := congrArg List.length (map_publishedFunctions src specifier root (fun _ => ()) fun _ => rfl)
  simpa using h

/-- A function of the model is the one that is kept at its place, up to promotion. -/
theorem mem_keptFunctions_of_mem_placedFunctions {g : FunctionUnit}
    (h : (p, g) ∈ root.placedFunctions src specifier) :
    (p, { g with role := .function }) ∈ root.keptFunctions src specifier := by
  obtain ⟨i, hi⟩ := List.mem_iff_getElem?.1 h
  obtain ⟨hplace, hg⟩ := List.getElem?_zip_eq_some.1 hi
  rw [List.getElem?_map] at hplace
  obtain ⟨⟨q, k⟩, hk, rfl⟩ := Option.map_eq_some_iff.1 hplace
  have hkept := List.mem_of_getElem? hk
  have hrole : { k with role := .function } = k := by
    rw [(mem_keptFunctions.1 hkept).2.2.2]
    rfl
  have hsame := congrArg (·[i]?) (map_publishedFunctions src specifier root
    (fun u => { u with role := .function }) fun _ => rfl)
  simp only [List.getElem?_map, hg, hk, Option.map_some, Option.some.injEq] at hsame
  rw [hsame, hrole]
  exact hkept

/-- The places of functions are those where one is kept. -/
theorem map_fst_placedFunctions :
    (root.placedFunctions src specifier).map (·.1) = (root.keptFunctions src specifier).map (·.1) :=
  List.map_fst_zip length_keptFunctions.ge

/-- A class that is declared has a place if its name is on the surface. -/
theorem mem_map_fst_placedClasses {name : String} (hp : p ∈ root.loci []) (h : p.DeclaresClass src name) :
    p ∈ (root.placedClasses src specifier).map (·.1) ↔
      name ∈ (Findings.ofTree src specifier root).surface.names := by
  rw [List.mem_map]
  constructor
  · rintro ⟨⟨q, c⟩, hc, rfl⟩
    obtain ⟨-, hname, hdeclares, -⟩ := mem_placedClasses.1 hc
    rwa [h.unique hdeclares] at hname
  · intro hname
    exact ⟨(p, (classReading src p.node name).unit), mem_placedClasses.2 ⟨hp, hname, h, rfl⟩, rfl⟩

/-- A function that is declared has a place if it is published. -/
theorem mem_map_fst_placedFunctions {n : FunctionName} (hp : p ∈ root.loci [])
    (h : p.DeclaresFunction src n) :
    p ∈ (root.placedFunctions src specifier).map (·.1) ↔
      n.name ∈ (Findings.ofTree src specifier root).surface.names ∨
        ∃ segment ∈ n.qualifier, segment ∈ (Findings.ofTree src specifier root).surface.names := by
  rw [map_fst_placedFunctions, List.mem_map]
  constructor
  · rintro ⟨⟨q, g⟩, hg, rfl⟩
    obtain ⟨-, hpublished, hdeclares, -⟩ := mem_keptFunctions.1 hg
    rw [← h.unique hdeclares]
    exact Surface.publishes_eq_true.1 hpublished
  · intro hpublished
    exact ⟨(p, (functionReading src p.node n).unit),
      mem_keptFunctions.2 ⟨hp, Surface.publishes_eq_true.2 hpublished, h, rfl⟩, rfl⟩

/-- The units of the model of a tree have their places. -/
def placement (src : SourceText) (specifier : String) (root : Tree) :
    Placement src root (Findings.ofTree src specifier root).toModel where
  classes := root.placedClasses src specifier
  functions := root.placedFunctions src specifier
  map_classes := map_snd_placedUnits
  map_functions := List.map_snd_zip length_keptFunctions.le
  sublist_classes := sublist_map_fst_placedUnits Locus.class?_eq_none_of_isAside
  sublist_functions := by
    rw [map_fst_placedFunctions]
    exact sublist_map_fst_placedUnits Locus.function?_eq_none_of_isAside
  declares_class _ he := (mem_placedClasses.1 he).2.2.1
  declares_function _ he := (mem_keptFunctions.1 (mem_keptFunctions_of_mem_placedFunctions he)).2.2.1
  reads_class _ he := (mem_placedClasses.1 he).2.2.2
  reads_function _ he := (mem_keptFunctions.1 (mem_keptFunctions_of_mem_placedFunctions he)).2.2.2
  mem_classes _ hp _ h := mem_map_fst_placedClasses hp h
  mem_functions _ hp _ h := mem_map_fst_placedFunctions hp h

end Placement

end Tree

namespace Placement

variable {src : SourceText} {root : Tree} {m : Model}

/-- **The units of a model are at module level but for nested namesakes**: the classes, and the functions
that are reached through nothing else, are all at module level exactly if no such unit inside a body is
declared under a name on the surface. -/
theorem atModuleLevel_iff (placed : Placement src root m) :
    ((∀ e ∈ placed.classes, e.1.AtModuleLevel) ∧
        ∀ e ∈ placed.functions, e.2.qualifier = [] → e.1.AtModuleLevel) ↔
      ∀ p ∈ root.loci [], ∀ name ∈ m.surface.names, p.Declares src name → p.AtModuleLevel := by
  constructor
  · rintro ⟨hclasses, hfunctions⟩ p hp name hname (hdeclares | ⟨owner, hdeclares⟩)
    · obtain ⟨e, he, rfl⟩ := List.mem_map.1 ((placed.mem_classes p hp name hdeclares).2 hname)
      exact hclasses e he
    · obtain ⟨e, he, rfl⟩ := List.mem_map.1 ((placed.mem_functions p hp _ hdeclares).2 (Or.inl hname))
      exact hfunctions e he (congrArg FunctionName.qualifier (hdeclares.unique (placed.declares_function e he)))
  · intro h
    refine ⟨fun e he => ?_, fun e he hbare => ?_⟩
    · have hp := placed.sublist_classes.subset (List.mem_map_of_mem he)
      have hdeclares := placed.declares_class e he
      exact h e.1 hp e.2.name ((placed.mem_classes e.1 hp _ hdeclares).1 (List.mem_map_of_mem he))
        (Or.inl hdeclares)
    · have hp := placed.sublist_functions.subset (List.mem_map_of_mem he)
      have hdeclares := placed.declares_function e he
      have hpublished := (placed.mem_functions e.1 hp _ hdeclares).1 (List.mem_map_of_mem he)
      rw [FunctionUnit.boundTo, hbare] at hdeclares hpublished
      have hname := hpublished.resolve_right fun ⟨_, hsegment, _⟩ => List.not_mem_nil hsegment
      exact h e.1 hp e.2.name hname (Or.inr ⟨_, hdeclares⟩)

end Placement

/-- **The units of a model by their places.** Every class and function of a model has its place in the tree
that is parsed. A class is kept if its name is on the surface, and a function if its name is, or one that it
is reached through; at what depth they are declared does not matter. So the classes of a model, and the
functions that are reached through nothing else, are at module level exactly if no namesake of what the module
publishes is declared inside the body of a function, method or class.

**Proof sketch.** A place holds one unit at most, and this is read off the node there. The units of a model
are those that selection keeps by their names, in document order, and promotion changes a role only. -/
theorem model_units_placed {parser : Parser} {src : SourceText} {filename : String} {m : Model}
    (hread : readModel parser src filename = .ok m) :
    ∃ root, parseModule parser src filename = .ok root ∧
      ∃ placed : Placement src root m,
        ((∀ e ∈ placed.classes, e.1.AtModuleLevel) ∧
            ∀ e ∈ placed.functions, e.2.qualifier = [] → e.1.AtModuleLevel) ↔
          ∀ p ∈ root.loci [], ∀ name ∈ m.surface.names, p.Declares src name → p.AtModuleLevel := by
  obtain ⟨root, hparse, rfl⟩ := exists_parseModule_of_readModel hread
  exact ⟨root, hparse, root.placement src filename, Placement.atModuleLevel_iff _⟩

/-- The listing of a module in which a function has a namesake inside another one. -/
def nestedListing : List Row :=
  [.make 0 1 "program" 0 56 none, .make 1 1 "export_statement" 0 22 none, .make 2 0 "export" 0 6 none,
    .make 2 1 "function_declaration" 7 22 "declaration", .make 3 0 "function" 7 15 none,
    .make 3 1 "identifier" 16 17 "name", .make 3 1 "formal_parameters" 17 19 "parameters",
    .make 4 0 "(" 17 18 none, .make 4 0 ")" 18 19 none, .make 3 1 "statement_block" 20 22 "body",
    .make 4 0 "\x7b" 20 21 none, .make 4 0 "\x7d" 21 22 none, .make 1 1 "function_declaration" 23 56 none,
    .make 2 0 "function" 23 31 none, .make 2 1 "identifier" 32 33 "name",
    .make 2 1 "formal_parameters" 33 35 "parameters", .make 3 0 "(" 33 34 none, .make 3 0 ")" 34 35 none,
    .make 2 1 "statement_block" 36 56 "body", .make 3 0 "\x7b" 36 37 none,
    .make 3 1 "function_declaration" 38 54 none, .make 4 0 "function" 38 46 none,
    .make 4 1 "identifier" 47 48 "name", .make 4 1 "formal_parameters" 48 51 "parameters",
    .make 5 0 "(" 48 49 none, .make 5 1 "required_parameter" 49 50 none,
    .make 6 1 "identifier" 49 50 "pattern", .make 5 0 ")" 50 51 none,
    .make 4 1 "statement_block" 52 54 "body", .make 5 0 "\x7b" 52 53 none, .make 5 0 "\x7d" 53 54 none,
    .make 3 0 "\x7d" 55 56 none]

/-- The text of that module. -/
def nestedText : SourceText :=
  SourceText.ofString "export function f() \x7b\x7d\nfunction g() \x7b function f(a) \x7b\x7d \x7d"

/-- The units of that module have their places. -/
theorem model_units_placed_nested :
    ∃ m, readModel (Parser.ofListing nestedListing) nestedText "my-module.js" = .ok m ∧
      ∃ root, parseModule (Parser.ofListing nestedListing) nestedText "my-module.js" = .ok root ∧
        ∃ placed : Placement nestedText root m,
          ((∀ e ∈ placed.classes, e.1.AtModuleLevel) ∧
              ∀ e ∈ placed.functions, e.2.qualifier = [] → e.1.AtModuleLevel) ↔
            ∀ p ∈ root.loci [], ∀ name ∈ m.surface.names, p.Declares nestedText name → p.AtModuleLevel := by
  have hread : readModel (Parser.ofListing nestedListing) nestedText "my-module.js" = .ok _ := rfl
  exact ⟨_, hread, model_units_placed hread⟩

/-- The namesake inside the other function is kept, so the module has two tests of one name. -/
theorem nested_namesake_retained :
    ∃ root m, parseModule (Parser.ofListing nestedListing) nestedText "my-module.js" = .ok root ∧
      readModel (Parser.ofListing nestedListing) nestedText "my-module.js" = .ok m ∧
      (∀ placed : Placement nestedText root m,
        ∃ e ∈ placed.functions, e.2.qualifier = [] ∧ ¬e.1.AtModuleLevel) ∧
      m.testCases.map (·.description) = ["f", "f"] := by
  refine ⟨(Tree.ofRows? nestedListing).get rfl, _, rfl, rfl, fun placed => ?_, by decide⟩
  by_contra! hnone
  have hclasses : placed.classes = [] := List.map_eq_nil_iff.1 placed.map_classes
  have hlevel := placed.atModuleLevel_iff.1 ⟨by simp [hclasses], hnone⟩
  obtain ⟨p, hp, ⟨hnamed, hkind⟩, ⟨nameNode, hname, htext⟩, hnested⟩ :
      ∃ p ∈ ((Tree.ofRows? nestedListing).get rfl).loci [],
        (p.node.isNamed = true ∧ p.node.kind ∈ functionDeclarationKinds) ∧
          (∃ nameNode ∈ p.node.childAt? .name, nameNode.text nestedText = "f") ∧ ¬p.AtModuleLevel := by
    decide
  exact hnested (hlevel p hp "f" (by decide) (Or.inr ⟨none, htext ▸ .declaration ⟨hnamed, hkind⟩ hname⟩))

end TestScaffold
