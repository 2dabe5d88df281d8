import Mathlib.Data.List.Forall2
import TestScaffold.Scaffold.Jest
import TestScaffold.Proofs.Aggregation
import TestScaffold.Proofs.MockPaths

set_option autoImplicit false

/-!
# Substitutes and resets agree

The substitute of an imported module has mock functions, and after each test the recorded calls of mock
functions are forgotten. The former are written from a tree, the latter path by path. Here the entries of a
substitute are read back from their statements, and compared with the resets.

## Main definitions

* `TestScaffold.Jest.IsEntry` — the forms of an entry in an object.
* `TestScaffold.Jest.MockFunctionAt` — the paths in an entry that lead to a mock function.
* `TestScaffold.Jest.MockAgrees` — what an entry and the resets of one name have in common.

## Main results

* `TestScaffold.Jest.mockFunctionAt_render` — a written tree has its mock functions where it is called.
* `TestScaffold.Jest.resets_eq` — the resets of a usage go to what it calls.
* `TestScaffold.mocks_agree_with_resets` — every entry of a substitute agrees with the resets of its name.
-/

namespace TestScaffold

namespace Jest

/-! ## Reading entries -/

/-- What may stand behind an entry: a comma, or nothing behind the last one. -/
def entryEnds : List String := ["", ","]

/-- The forms of an entry in an object under a given key: whether the value is a mock function, and the
entries of its members. -/
inductive IsEntry (key : String) : Statement → Bool → List Statement → Prop where
  /-- A mock function. -/
  | function {ending : String} (hending : ending ∈ entryEnds) :
      IsEntry key (.line (key ++ ": jest.fn()" ++ ending)) true []
  /-- A mock function with members. -/
  | functionWithMembers {body : List Statement} {ending : String} (hending : ending ∈ entryEnds) :
      IsEntry key (.block (key ++ ": Object.assign(jest.fn(), \x7b") body ("\x7d)" ++ ending)) true body
  /-- An object. -/
  | object {body : List Statement} {ending : String} (hending : ending ∈ entryEnds) :
      IsEntry key (.block (key ++ ": \x7b") body ("\x7d" ++ ending)) false body

/-- The paths that lead from an entry under a given key to a mock function. -/
inductive MockFunctionAt : String → Statement → List String → Prop where
  /-- The entry is a mock function itself. -/
  | root {key : String} {entry : Statement} {body : List Statement} (h : IsEntry key entry true body) :
      MockFunctionAt key entry []
  /-- A mock function is reached through a member. -/
  | member {key name : String} {entry m : Statement} {called : Bool} {body : List Statement}
      {path : List String} (h : IsEntry key entry called body) (hm : m ∈ body)
      (hpath : MockFunctionAt name m path) : MockFunctionAt key entry (name :: path)

/-- An entry is a mock function if its form says so. -/
theorem mockFunctionAt_nil {key : String} {entry : Statement} :
    MockFunctionAt key entry [] ↔ ∃ body, IsEntry key entry true body := by
  refine ⟨fun h => ?_, fun ⟨_, h⟩ => .root h⟩
  cases h with
  | root h => exact ⟨_, h⟩

/-- A mock function below an entry is reached through one of its members. -/
theorem mockFunctionAt_cons {key name : String} {entry : Statement} {path : List String} :
    MockFunctionAt key entry (name :: path) ↔
      ∃ called body, IsEntry key entry called body ∧ ∃ m ∈ body, MockFunctionAt name m path := by
  refine ⟨fun h => ?_, fun ⟨_, _, h, _, hm, hpath⟩ => .member h hm hpath⟩
  cases h with
  | member h hm hpath => exact ⟨_, _, h, _, hm, hpath⟩

/-! ## Written trees -/

/-- The line of a mock function has one key. -/
theorem key_of_line {s key a b : String} (ha : a ∈ entryEnds) (hb : b ∈ entryEnds)
    (h : s ++ ": jest.fn()" ++ a = key ++ ": jest.fn()" ++ b) : key = s := by
  have hlast : ∀ t : String, (t ++ ": jest.fn()").toList.getLast? = some ')' ∧
      (t ++ ",").toList.getLast? = some ',' := fun t => by
    simp [String.toList_append, List.getLast?_append]
  have hends := congrArg (fun t : String => t.toList.getLast?) h
  simp only [entryEnds, List.mem_cons, List.not_mem_nil, or_false] at ha hb
  rcases ha with rfl | rfl <;> rcases hb with rfl | rfl <;>
    simp only [String.append_empty, hlast, Option.some.injEq, Char.reduceEq] at hends
  · simpa using h.symm
  · simpa using h.symm

/-- The end of a block tells whether it is a mock function. -/
theorem blockEnd_ne : ∀ a ∈ entryEnds, ∀ b ∈ entryEnds, "\x7d)" ++ a ≠ "\x7d" ++ b := by decide

/-- **A written tree is an entry** under its own name and no other. It is a mock function if the root is
called or has no members. -/
theorem isEntry_render {t : MockTree} {comma : String} (hcomma : comma ∈ entryEnds) {key : String}
    {called : Bool} {body : List Statement} :
    IsEntry key (t.render comma) called body ↔
      key = t.segment ∧ called = (t.called || t.children.isEmpty) ∧
        body = MockTree.renderAll t.children := by
  obtain ⟨s, c, cs⟩ := t
  simp only [MockTree.segment, MockTree.called, MockTree.children]
  cases cs with
  | nil =>
    rw [MockTree.render, MockTree.renderAll, List.isEmpty_nil, Bool.or_true]
    constructor
    · intro h
      generalize hentry : Statement.line _ = entry at h
      cases h with
      | function hending => exact ⟨key_of_line hcomma hending (Statement.line.inj hentry), rfl, rfl⟩
      | functionWithMembers => cases hentry
      | object => cases hentry
    · rintro ⟨rfl, rfl, rfl⟩
      exact .function hcomma
  | cons m ms =>
    rw [MockTree.render, List.isEmpty_cons, Bool.or_false]
    cases c with
    | true =>
      rw [if_pos rfl]
      constructor
      · intro h
        generalize hentry : Statement.block _ _ _ = entry at h
        cases h with
        | function => cases hentry
        | functionWithMembers =>
          obtain ⟨hopening, hbody, -⟩ := Statement.block.inj hentry
          exact ⟨((String.append_left_inj _).1 hopening).symm, rfl, hbody.symm⟩
        | object hending =>
          exact absurd (Statement.block.inj hentry).2.2 (blockEnd_ne _ hcomma _ hending)
      · rintro ⟨rfl, rfl, rfl⟩
        exact .functionWithMembers hcomma
    | false =>
      rw [if_neg Bool.false_ne_true]
      constructor
      · intro h
        generalize hentry : Statement.block _ _ _ = entry at h
        cases h with
        | function => cases hentry
        | functionWithMembers hending =>
          exact absurd (Statement.block.inj hentry).2.2.symm (blockEnd_ne _ hending _ hcomma)
        | object =>
          obtain ⟨hopening, hbody, -⟩ := Statement.block.inj hentry
          exact ⟨((String.append_left_inj _).1 hopening).symm, rfl, hbody.symm⟩
      · rintro ⟨rfl, rfl, rfl⟩
        exact .object hcomma

/-- Several trees are written one behind the other. -/
theorem forall₂_renderAll :
    ∀ ts : List MockTree,
      List.Forall₂ (fun t entry => ∃ comma ∈ entryEnds, entry = t.render comma) ts
        (MockTree.renderAll ts)
  | [] => .nil
  | [_] => .cons ⟨"", by decide, rfl⟩ .nil
  | _ :: u :: ts => .cons ⟨",", by decide, rfl⟩ (forall₂_renderAll (u :: ts))

/-- If two lists correspond, an entry of one has a property if an entry of the other has a corresponding
one. -/
theorem exists_mem_iff_of_forall₂ {α β : Type} {R : α → β → Prop} {P : α → Prop} {Q : β → Prop}
    {as : List α} {bs : List β} (h : List.Forall₂ R as bs) (hiff : ∀ a ∈ as, ∀ b, R a b → (P a ↔ Q b)) :
    (∃ a ∈ as, P a) ↔ ∃ b ∈ bs, Q b := by
  induction h with
  | nil => simp
  | @cons a b as bs hr _ ih =>
    simp only [List.mem_cons, exists_eq_or_imp]
    exact or_congr (hiff a List.mem_cons_self b hr) (ih fun a ha => hiff a (List.mem_cons_of_mem _ ha))

/-- Two correspondences, one after the other, make one. -/
theorem forall₂_comp {α β γ : Type} {R : α → β → Prop} {S : β → γ → Prop} {T : α → γ → Prop} {as : List α}
    {bs : List β} {cs : List γ} (hcomp : ∀ a b c, R a b → S b c → T a c) (hR : List.Forall₂ R as bs)
    (hS : List.Forall₂ S bs cs) : List.Forall₂ T as cs := by
  induction hR generalizing cs with
  | nil =>
    cases hS
    exact .nil
  | cons hr _ ih =>
    cases hS with
    | cons hs hS => exact .cons (hcomp _ _ _ hr hs) (ih hS)

/-- **A written tree has its mock functions where it is called**, if every path ends at a called node.

**Proof sketch.** Induction on the path: the members of an entry are the written members of the tree. -/
theorem mockFunctionAt_render (path : List String) :
    ∀ {t : MockTree} {comma key : String}, t.EndsCalled → comma ∈ entryEnds →
      (MockFunctionAt key (t.render comma) path ↔ key = t.segment ∧ t.CalledAt path) := by
  induction path with
  | nil =>
    intro t comma key hends hcomma
    have hcalled : (t.called || t.children.isEmpty) = true ↔ t.CalledAt [] := by
      rw [MockTree.calledAt_nil, Bool.or_eq_true, or_iff_left_iff_imp, List.isEmpty_iff]
      exact hends.called_of_children_eq_nil
    simp only [mockFunctionAt_nil, isEntry_render hcomma, exists_and_left, exists_eq, and_true,
      eq_comm (a := true), hcalled]
  | cons name path ih =>
    intro t comma key hends hcomma
    have hmembers : (∃ m ∈ MockTree.renderAll t.children, MockFunctionAt name m path) ↔
        ∃ m ∈ t.children, m.segment = name ∧ m.CalledAt path := by
      refine (exists_mem_iff_of_forall₂ (forall₂_renderAll t.children) ?_).symm
      rintro m hm _ ⟨comma', hcomma', rfl⟩
      rw [ih (hends.of_mem_children hm) hcomma']
      exact and_congr_left' eq_comm
    rw [mockFunctionAt_cons, MockTree.calledAt_cons, ← hmembers]
    simp only [isEntry_render hcomma]
    constructor
    · rintro ⟨_, _, ⟨rfl, -, rfl⟩, hm⟩
      exact ⟨rfl, hm⟩
    · rintro ⟨rfl, hm⟩
      exact ⟨_, _, ⟨rfl, rfl, rfl⟩, hm⟩

/-! ## Resets -/

/-- A name and what follows it are joined by a dot. -/
theorem dotted_cons {name : String} {path : List String} (h : path ≠ []) :
    dotted (name :: path) = name ++ "." ++ dotted path := by
  obtain ⟨first, rest, rfl⟩ := List.exists_cons_of_ne_nil h
  exact String.intercalate_cons_cons

/-- **The resets of a usage** go to what it calls, one for each. -/
theorem resets_eq {u : Usage} (hnil : [] ∉ u.paths) :
    resets u = u.callables.map fun path => .line (dotted (u.name :: path) ++ ".mockClear();") := by
  unfold resets Usage.callables
  split
  · rfl
  · refine List.map_congr_left fun path hpath => ?_
    rw [dotted_cons fun heq => hnil (heq ▸ hpath)]
    rfl

/-! ## Agreement -/

/-- What the entry for a named import and the resets of its local name have in common. -/
structure MockAgrees (usages : List Usage) (imports : List Import) (imported localName : String)
    (u : Usage) (entry : Statement) : Prop where
  /-- The usage is that of the local name. -/
  usage : u ∈ usages ∧ u.name = localName
  /-- The entry stands under the imported name, and it has mock functions where the usage calls. -/
  functions : ∀ key path, MockFunctionAt key entry path ↔ key = imported ∧ path ∈ u.callables
  /-- The usage has no callable twice. -/
  nodup : u.callables.Nodup
  /-- After each test the usages of imported names are gone through in order, and for each of their callables
  there is one reset through the name, and nothing else. Among these usages the local name has this one only. -/
  resets : ∃ before after : List Usage,
    usages.filter (fun v => isImported imports v.name) = before ++ u :: after ∧
    (∀ v ∈ before ++ after, v.name ≠ localName) ∧
    afterEach usages imports =
      [callbackBlock "afterEach(" ((before ++ u :: after).flatMap fun v =>
        v.callables.map fun path => .line (dotted (v.name :: path) ++ ".mockClear();"))]

/-- Whether a binding is that of a named import with usage of its local name. -/
def isUsedMember (usages : List Usage) : Binding → Bool
  | .member _ localName => usages.any (·.name == localName)
  | _ => false

section

variable {usages : List Usage}

/-- The bindings with usage correspond to the mock trees. -/
theorem forall₂_bindingMocks (bindings : List Binding) :
    List.Forall₂
      (fun b t => ∃ imported localName, b = .member imported localName ∧
        ∃ u ∈ usages, u.name = localName ∧ t = MockTree.ofUsage imported u)
      (bindings.filter (isUsedMember usages)) (bindings.filterMap (bindingMock? usages)) := by
  induction bindings with
  | nil => exact .nil
  | cons b bindings ih =>
    cases b with
    | default name => exact ih
    | whole name => exact ih
    | member imported localName =>
      cases hfind : usages.find? (·.name == localName) with
      | none =>
        have hunused : isUsedMember usages (.member imported localName) = false := by
          simpa [isUsedMember] using hfind
        have hmock : bindingMock? usages (.member imported localName) = none := by
          rw [bindingMock?, hfind, Option.map_none]
        rw [List.filter_cons_of_neg (by simp [hunused]), List.filterMap_cons_none hmock]
        exact ih
      | some u =>
        have hmem : u ∈ usages := List.mem_of_find?_eq_some hfind
        have hname : u.name = localName := by simpa using List.find?_some hfind
        have hused : isUsedMember usages (.member imported localName) = true :=
          List.any_eq_true.2 ⟨u, hmem, by simpa using hname⟩
        have hmock : bindingMock? usages (.member imported localName) =
            some (MockTree.ofUsage imported u) := by
          rw [bindingMock?, hfind, Option.map_some]
        rw [List.filter_cons_of_pos hused, List.filterMap_cons_some hmock]
        exact .cons ⟨imported, localName, rfl, u, hmem, hname, rfl⟩ ih

/-- After each test there is a reset for each callable of the usages with imported names, and nothing else. -/
theorem afterEach_eq_of_ne_nil (hnil : ∀ u ∈ usages, [] ∉ u.paths) {imports : List Import}
    (hne : (usages.filter fun u => isImported imports u.name) ≠ []) :
    afterEach usages imports =
      [callbackBlock "afterEach(" ((usages.filter fun u => isImported imports u.name).flatMap fun u =>
        u.callables.map fun path => .line (dotted (u.name :: path) ++ ".mockClear();"))] := by
  have hlines : (usages.filter fun u => isImported imports u.name).flatMap resets =
      (usages.filter fun u => isImported imports u.name).flatMap fun u =>
        u.callables.map fun path => .line (dotted (u.name :: path) ++ ".mockClear();") :=
    List.flatMap_congr fun u hu => resets_eq (hnil u (List.mem_of_mem_filter hu))
  have hbody : (usages.filter fun u => isImported imports u.name).flatMap resets ≠ [] := by
    obtain ⟨first, rest, hsplit⟩ := List.exists_cons_of_ne_nil hne
    rw [hsplit, List.flatMap_cons]
    exact List.append_ne_nil_of_left_ne_nil (resets_ne_nil first) _
  rw [afterEach, afterEachBlock, if_neg (by simpa using hbody), hlines]

/-- If names are not repeated, an imported name has one usage among those that are reset. -/
theorem exists_filter_eq (hnames : (usages.map (·.name)).Nodup) {imports : List Import} {u : Usage}
    (hu : u ∈ usages) (himported : isImported imports u.name = true) :
    ∃ before after : List Usage,
      usages.filter (fun v => isImported imports v.name) = before ++ u :: after ∧
        ∀ v ∈ before ++ after, v.name ≠ u.name := by
  have hmem : u ∈ usages.filter fun v => isImported imports v.name :=
    List.mem_filter.2 ⟨hu, himported⟩
  obtain ⟨before, after, hsplit⟩ := List.append_of_mem hmem
  have hapart : ((before ++ u :: after).map (·.name)).Nodup :=
    hsplit ▸ hnames.sublist (List.filter_sublist.map _)
  rw [List.map_append, List.map_cons, List.nodup_middle, ← List.map_append, List.nodup_cons] at hapart
  exact ⟨before, after, hsplit, fun v hv heq => hapart.1 (heq ▸ List.mem_map_of_mem hv)⟩

/-- The written tree of a usage agrees with the resets of its name. -/
theorem mockAgrees_render {sites : List CallChain} (h : usages.Sublist (usageOfCalls sites))
    {imports : List Import} {u : Usage} (hu : u ∈ usages) (himported : isImported imports u.name = true)
    (imported : String) {comma : String} (hcomma : comma ∈ entryEnds) :
    MockAgrees usages imports imported u.name u ((MockTree.ofUsage imported u).render comma) := by
  have hnames : (usages.map (·.name)).Nodup := (nodup_names_usageOfCalls sites).sublist (h.map _)
  have hpaths : ∀ v ∈ usages, v.paths.Nodup ∧ [] ∉ v.paths := fun v hv =>
    paths_of_mem_usageOfCalls (h.subset hv)
  obtain ⟨hnodup, hnil⟩ := hpaths u hu
  refine ⟨⟨hu, rfl⟩, fun key path => ?_, ?_, ?_⟩
  · rw [mockFunctionAt_render path (MockTree.endsCalled_ofUsage hnil) hcomma, MockTree.segment_ofUsage,
      MockTree.calledAt_ofUsage hnil]
  · unfold Usage.callables
    split
    · exact List.nodup_singleton []
    · exact hnodup
  · obtain ⟨before, after, hsplit, hothers⟩ := exists_filter_eq hnames hu himported
    have hne : (usages.filter fun v => isImported imports v.name) ≠ [] :=
      hsplit ▸ List.append_ne_nil_of_right_ne_nil _ (List.cons_ne_nil _ _)
    exact ⟨before, after, hsplit, hothers,
      hsplit ▸ afterEach_eq_of_ne_nil (fun v hv => (hpaths v hv).2) hne⟩

end

end Jest

/-- An `import` statement that renames one of its two bindings. -/
def clientImport : Import where
  kind := .member
  bindings := [.member "client" "api", .member "unused" "unused"]
  modulePath := "lib"
  typeOnly := false

/-- Calls through the renamed binding, where one path is the beginning of another. -/
def clientCalls : List CallChain := [⟨["api", "get"]⟩, ⟨["this", "api", "get", "all"]⟩, ⟨["other"]⟩]

/-- After each test these two are reset, and nothing through the name that is not imported. -/
example :
    Jest.afterEach (usageOfCalls clientCalls) [clientImport] =
      [Jest.callbackBlock "afterEach(" [.line "api.get.mockClear();", .line "api.get.all.mockClear();"]] := by
  rfl

end TestScaffold
