import TestScaffold.Findings.Collection

set_option autoImplicit false

/-!
# Units and the places they are found at

At a place where a class or a function is declared, this unit is found and nothing else. What is found
elsewhere is beside the units.

## Main definitions

* `TestScaffold.Finding.IsAside` — a finding beside the units.
* `TestScaffold.Locus.DeclaresClass`, `TestScaffold.Locus.DeclaresFunction` — what a place declares.

## Main results

* `TestScaffold.Locus.findings_cases` — what is found at a place.
* `TestScaffold.Locus.classFound_mem_findings`, `TestScaffold.Locus.functionFound_mem_findings` — a unit is
  found where it is declared.
-/

namespace TestScaffold

/-! ## Beside the units -/

/-- A finding beside the units: it is none, and no report on a parameter. -/
def Finding.IsAside : Finding → Prop
  | .classFound _ | .functionFound _ => False
  | .flagged d => d.form ≠ .unpackedParameter
  | .imported _ | .required _ | .slotExported _ | .exported _ => True

section Aside

variable {src : SourceText} {x : Finding}

/-- A finding that stands alone is beside the units if the one in its place is. -/
theorem Finding.IsAside.of_mem_singleton {y : Finding} (h : x ∈ [y]) (hy : y.IsAside) : x.IsAside := by
  obtain rfl := List.mem_singleton.1 h
  exact hy

/-- The findings at an `export` statement are beside the units. -/
theorem isAside_of_mem_exportFindings {statement : Tree} (h : x ∈ exportFindings src statement) :
    x.IsAside := by
  unfold exportFindings at h
  split at h
  · obtain ⟨name, -, rfl⟩ := List.mem_map.1 h
    trivial
  · split at h
    · obtain ⟨name, -, rfl⟩ := List.mem_map.1 h
      trivial
    · split at h
      · split at h
        · exact .of_mem_singleton h trivial
        · exact .of_mem_singleton h UndescribedForm.noConfusion
      · obtain ⟨spec, -, hspec⟩ := List.mem_filterMap.1 h
        obtain ⟨nameNode, -, rfl⟩ := Option.map_eq_some_iff.1 hspec
        trivial

/-- The findings at one property of an exported object are beside the units. -/
theorem isAside_of_mem_objectPropertyFindings {prop : Tree} (h : x ∈ objectPropertyFindings src prop) :
    x.IsAside := by
  unfold objectPropertyFindings at h
  split at h
  · exact .of_mem_singleton h trivial
  · split at h
    · split at h
      · exact .of_mem_singleton h trivial
      · split at h
        · exact .of_mem_singleton h UndescribedForm.noConfusion
        · cases h
    · cases h
  · exact .of_mem_singleton h UndescribedForm.noConfusion
  · cases h

/-- The findings at an assignment to the whole export slot are beside the units. -/
theorem isAside_of_mem_wholeSlotFindings {assignment value : Tree}
    (h : x ∈ wholeSlotFindings src assignment value) : x.IsAside := by
  unfold wholeSlotFindings at h
  split at h
  · exact .of_mem_singleton h trivial
  · obtain ⟨prop, -, hprop⟩ := List.mem_flatMap.1 h
    exact isAside_of_mem_objectPropertyFindings hprop
  · split at h
    · exact .of_mem_singleton h UndescribedForm.noConfusion
    · cases h

/-- The findings at an assignment to a property of the export slot are beside the units. -/
theorem isAside_of_mem_propertySlotFindings {assignment property value : Tree}
    (h : x ∈ propertySlotFindings src assignment property value) : x.IsAside := by
  unfold propertySlotFindings at h
  split at h
  · exact .of_mem_singleton h trivial
  · split at h
    · exact .of_mem_singleton h UndescribedForm.noConfusion
    · cases h

/-- The findings at an assignment are beside the units. -/
theorem isAside_of_mem_slotFindings {assignment : Tree} (h : x ∈ slotFindings src assignment) :
    x.IsAside := by
  unfold slotFindings at h
  split at h
  · split at h
    · cases h
    · split at h
      · exact isAside_of_mem_wholeSlotFindings h
      · split at h
        · split at h
          · exact isAside_of_mem_propertySlotFindings h
          · cases h
        · cases h
  · cases h

/-- The findings at a call are beside the units. -/
theorem isAside_of_mem_requireFindings {p : Locus} (h : x ∈ requireFindings src p) :
    x.IsAside := by
  unfold requireFindings at h
  split at h
  · cases h
  · split at h
    · cases h
    · split at h
      · cases h
      · split at h
        · exact .of_mem_singleton h UndescribedForm.noConfusion
        · dsimp only at h
          split at h
          · exact .of_mem_singleton h UndescribedForm.noConfusion
          · obtain ⟨name, -, rfl⟩ := List.mem_map.1 h
            trivial

end Aside

/-! ## Declarations -/

/-- The kinds of classes. -/
def classKinds : List Kind := [.classDeclaration, .abstractClassDeclaration, .classExpression]

/-- The kinds of function declarations. -/
def functionDeclarationKinds : List Kind := [.functionDeclaration, .generatorFunctionDeclaration]

/-- The kinds of function expressions. -/
def functionExpressionKinds : List Kind :=
  [.functionExpression, .function, .generatorFunction, .arrowFunction]

/-- The name that a function is bound to. -/
def FunctionUnit.boundTo (g : FunctionUnit) : FunctionName := ⟨g.name, g.qualifier, g.ownerIndex⟩

namespace Locus

/-- A node of one of the given kinds stands at a place. -/
structure Holds (p : Locus) (kinds : List Kind) : Prop where
  /-- The node is no keyword. -/
  named : p.node.isNamed = true
  /-- The node is of such a kind. -/
  kind : p.node.kind ∈ kinds

/-- A class is declared at a place under the name that it is known by. -/
structure DeclaresClass (src : SourceText) (p : Locus) (name : String) : Prop where
  /-- A class stands there. -/
  holds : p.Holds classKinds
  /-- This is the name that it is known by. -/
  reachable : reachableName? src p = some name

/-- A function is declared at a place under a name. -/
inductive DeclaresFunction (src : SourceText) (p : Locus) : FunctionName → Prop where
  /-- A function declaration declares its own name. -/
  | declaration {nameNode : Tree} (holds : p.Holds functionDeclarationKinds)
      (hname : p.node.childAt? .name = some nameNode) :
    DeclaresFunction src p ⟨nameNode.text src, [], none⟩
  /-- A function expression declares the name that it is bound to. -/
  | expression {n : FunctionName} (holds : p.Holds functionExpressionKinds)
      (hname : boundName? src p = some n) :
    DeclaresFunction src p n

/-- A class, or a function that is reached through nothing else, is declared at a place under a name. -/
def Declares (src : SourceText) (p : Locus) (name : String) : Prop :=
  p.DeclaresClass src name ∨ ∃ owner, p.DeclaresFunction src ⟨name, [], owner⟩

variable {src : SourceText} {p : Locus} {name : String} {n n' : FunctionName}

/-- What is found at a class. -/
theorem findings_eq_classFindings (h : p.Holds classKinds) : p.findings src = classFindings src p := by
  obtain ⟨hnamed, hkind⟩ := h
  simp only [classKinds, List.mem_cons, List.not_mem_nil, or_false] at hkind
  rcases hkind with hkind | hkind | hkind <;> simp [findings, hnamed, hkind]

/-- What is found at a function declaration. -/
theorem findings_eq_declarationFindings (h : p.Holds functionDeclarationKinds) :
    p.findings src = declarationFindings src p.node := by
  obtain ⟨hnamed, hkind⟩ := h
  simp only [functionDeclarationKinds, List.mem_cons, List.not_mem_nil, or_false] at hkind
  rcases hkind with hkind | hkind <;> simp [findings, hnamed, hkind]

/-- What is found at a function expression. -/
theorem findings_eq_functionExpressionFindings (h : p.Holds functionExpressionKinds) :
    p.findings src = functionExpressionFindings src p := by
  obtain ⟨hnamed, hkind⟩ := h
  simp only [functionExpressionKinds, List.mem_cons, List.not_mem_nil, or_false] at hkind
  rcases hkind with hkind | hkind | hkind | hkind <;> simp [findings, hnamed, hkind]

/-- Where something is found: at a unit, or at a statement or a call of one of four forms. -/
theorem source_of_mem_findings {x : Finding} (hx : x ∈ p.findings src) :
    (p.Holds classKinds ∨ p.Holds functionDeclarationKinds ∨ p.Holds functionExpressionKinds) ∨
      (∃ d, x = .imported d) ∨ x ∈ exportFindings src p.node ∨ x ∈ requireFindings src p ∨
        x ∈ slotFindings src p.node := by
  unfold findings at hx
  split at hx
  · cases hx
  · next hnamed =>
    replace hnamed : p.node.isNamed = true := by simpa using hnamed
    split at hx
    · rw [Option.mem_toList] at hx
      obtain ⟨d, -, rfl⟩ := Option.map_eq_some_iff.1 hx
      exact Or.inr (Or.inl ⟨d, rfl⟩)
    · exact Or.inr (Or.inr (Or.inl hx))
    · next hkind => exact Or.inl (Or.inl ⟨hnamed, by rw [hkind]; decide⟩)
    · next hkind => exact Or.inl (Or.inl ⟨hnamed, by rw [hkind]; decide⟩)
    · next hkind => exact Or.inl (Or.inl ⟨hnamed, by rw [hkind]; decide⟩)
    · next hkind => exact Or.inl (Or.inr (Or.inl ⟨hnamed, by rw [hkind]; decide⟩))
    · next hkind => exact Or.inl (Or.inr (Or.inl ⟨hnamed, by rw [hkind]; decide⟩))
    · next hkind => exact Or.inl (Or.inr (Or.inr ⟨hnamed, by rw [hkind]; decide⟩))
    · next hkind => exact Or.inl (Or.inr (Or.inr ⟨hnamed, by rw [hkind]; decide⟩))
    · next hkind => exact Or.inl (Or.inr (Or.inr ⟨hnamed, by rw [hkind]; decide⟩))
    · next hkind => exact Or.inl (Or.inr (Or.inr ⟨hnamed, by rw [hkind]; decide⟩))
    · exact Or.inr (Or.inr (Or.inr (Or.inl hx)))
    · exact Or.inr (Or.inr (Or.inr (Or.inr hx)))
    · cases hx

/-- What is found elsewhere is beside the units. -/
theorem isAside_of_mem_findings (hclass : ¬p.Holds classKinds)
    (hdeclaration : ¬p.Holds functionDeclarationKinds) (hexpression : ¬p.Holds functionExpressionKinds)
    {x : Finding} (hx : x ∈ p.findings src) : x.IsAside := by
  rcases source_of_mem_findings hx with (h | h | h) | ⟨d, rfl⟩ | h | h | h
  · exact absurd h hclass
  · exact absurd h hdeclaration
  · exact absurd h hexpression
  · trivial
  · exact isAside_of_mem_exportFindings h
  · exact isAside_of_mem_requireFindings h
  · exact isAside_of_mem_slotFindings h

/-- **What is found at a place**: the class or the function that is declared there and nothing else, or only
what is beside the units. -/
theorem findings_cases (src : SourceText) (p : Locus) :
    (∃ name, p.DeclaresClass src name ∧ p.findings src = [.classFound (classReading src p.node name)]) ∨
      (∃ n, p.DeclaresFunction src n ∧ p.findings src = [.functionFound (functionReading src p.node n)]) ∨
      ∀ x ∈ p.findings src, x.IsAside := by
  by_cases hclass : p.Holds classKinds
  · rw [findings_eq_classFindings hclass, classFindings]
    split
    · next name hname => exact Or.inl ⟨name, ⟨hclass, hname⟩, rfl⟩
    · exact Or.inr (Or.inr fun x hx => .of_mem_singleton hx UndescribedForm.noConfusion)
  by_cases hdeclaration : p.Holds functionDeclarationKinds
  · rw [findings_eq_declarationFindings hdeclaration, declarationFindings]
    split
    · next hname => exact Or.inr (Or.inl ⟨_, .declaration hdeclaration hname, rfl⟩)
    · exact Or.inr (Or.inr nofun)
  by_cases hexpression : p.Holds functionExpressionKinds
  · rw [findings_eq_functionExpressionFindings hexpression, functionExpressionFindings]
    split
    · next n hname => exact Or.inr (Or.inl ⟨n, .expression hexpression hname, rfl⟩)
    · exact Or.inr (Or.inr nofun)
  · exact Or.inr (Or.inr fun x hx => isAside_of_mem_findings hclass hdeclaration hexpression hx)

/-- A class is found where one is declared. -/
theorem classFound_mem_findings {r : Reading ClassUnit} :
    Finding.classFound r ∈ p.findings src ↔
      ∃ name, p.DeclaresClass src name ∧ r = classReading src p.node name := by
  constructor
  · intro hr
    rcases findings_cases src p with ⟨name, hname, hfound⟩ | ⟨n, hn, hfound⟩ | haside
    · rw [hfound, List.mem_singleton] at hr
      exact ⟨name, hname, Finding.classFound.inj hr⟩
    · rw [hfound, List.mem_singleton] at hr
      cases hr
    · cases haside _ hr
  · rintro ⟨name, hname, rfl⟩
    rw [findings_eq_classFindings hname.holds, classFindings, hname.reachable]
    exact List.mem_singleton_self _

/-- A function is found where one is declared. -/
theorem functionFound_mem_findings {r : Reading FunctionUnit} :
    Finding.functionFound r ∈ p.findings src ↔
      ∃ n, p.DeclaresFunction src n ∧ r = functionReading src p.node n := by
  constructor
  · intro hr
    rcases findings_cases src p with ⟨name, hname, hfound⟩ | ⟨n, hn, hfound⟩ | haside
    · rw [hfound, List.mem_singleton] at hr
      cases hr
    · rw [hfound, List.mem_singleton] at hr
      exact ⟨n, hn, Finding.functionFound.inj hr⟩
    · cases haside _ hr
  · rintro ⟨n, hn, rfl⟩
    cases hn with
    | declaration holds hname =>
      rw [findings_eq_declarationFindings holds, declarationFindings, hname]
      exact List.mem_singleton_self _
    | expression holds hname =>
      rw [findings_eq_functionExpressionFindings holds, functionExpressionFindings, hname]
      exact List.mem_singleton_self _

/-- Sorting out of a single finding gives one thing at most. -/
theorem filterMap_singleton_eq_toList {α : Type} (sort : Finding → Option α) (x : Finding) :
    [x].filterMap sort = (sort x).toList := by
  cases hx : sort x with
  | none => exact List.filterMap_cons_none hx
  | some y => exact List.filterMap_cons_some hx

/-- A place holds one unit at most. -/
theorem exists_filterMap_findings_eq_toList (src : SourceText) (p : Locus) {α : Type}
    {sort : Finding → Option α} (hsort : ∀ x : Finding, x.IsAside → sort x = none) :
    ∃ o : Option α, (p.findings src).filterMap sort = o.toList := by
  rcases findings_cases src p with ⟨name, -, hfound⟩ | ⟨n, -, hfound⟩ | haside
  · exact ⟨_, hfound ▸ filterMap_singleton_eq_toList sort _⟩
  · exact ⟨_, hfound ▸ filterMap_singleton_eq_toList sort _⟩
  · exact ⟨none, List.filterMap_eq_nil_iff.2 fun x hx => hsort x (haside x hx)⟩

/-- No class is beside the units. -/
theorem class?_eq_none_of_isAside (x : Finding) (h : x.IsAside) : x.class? = none := by
  cases x with
  | classFound r => cases h
  | _ => rfl

/-- No function is beside the units. -/
theorem function?_eq_none_of_isAside (x : Finding) (h : x.IsAside) : x.function? = none := by
  cases x with
  | functionFound r => cases h
  | _ => rfl

/-- A place declares one class at most. -/
theorem DeclaresClass.unique {name' : String} (h : p.DeclaresClass src name)
    (h' : p.DeclaresClass src name') : name' = name :=
  Option.some.inj (h'.reachable.symm.trans h.reachable)

/-- A place declares one function at most. -/
theorem DeclaresFunction.unique (h : p.DeclaresFunction src n) (h' : p.DeclaresFunction src n') :
    n' = n := by
  obtain ⟨o, ho⟩ := exists_filterMap_findings_eq_toList src p function?_eq_none_of_isAside
  have hreading : ∀ {k}, p.DeclaresFunction src k → o = some (functionReading src p.node k) := by
    intro k hk
    rw [← Option.mem_toList, ← ho]
    exact List.mem_filterMap.2 ⟨_, functionFound_mem_findings.2 ⟨k, hk, rfl⟩, rfl⟩
  have heq := Option.some.inj ((hreading h').symm.trans (hreading h))
  exact congrArg (·.unit.boundTo) heq

end Locus

end TestScaffold
