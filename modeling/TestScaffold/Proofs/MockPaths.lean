import TestScaffold.Scaffold.Jest.MockTree

set_option autoImplicit false

/-!
# Paths in mock trees

A mock tree is grown path by path, and paths with a common beginning share it. Here is what the grown tree
says about single paths: exactly the inserted ones lead to a node that is called.

## Main definitions

* `TestScaffold.MockTree.CalledAt` — the paths that lead to a node that is called.
* `TestScaffold.MockTree.EndsCalled` — every path ends at a node that is called.
* `TestScaffold.Usage.callables` — what a usage calls, as paths from its name.

## Main results

* `TestScaffold.MockTree.calledAt_insertAll` — inserting paths marks these paths and no others.
* `TestScaffold.MockTree.calledAt_ofUsage` — the tree of a usage is called where the usage is.
* `TestScaffold.MockTree.endsCalled_ofUsage` — no path of that tree ends at a node that is not called.
-/

namespace TestScaffold

namespace MockTree

/-- The paths from the root of a tree to a node that is called. The root has no name on its paths. -/
inductive CalledAt : MockTree → List String → Prop where
  /-- The root is called. -/
  | root {s : String} {cs : List MockTree} : CalledAt (node s true cs) []
  /-- A node below a member is called. -/
  | member {s : String} {c : Bool} {cs : List MockTree} {t : MockTree} {path : List String} (ht : t ∈ cs)
      (hpath : CalledAt t path) : CalledAt (node s c cs) (t.segment :: path)

/-- The root is called if it is marked. -/
@[simp] theorem calledAt_nil {t : MockTree} : t.CalledAt [] ↔ t.called = true := by
  cases t with
  | node s c cs =>
    refine ⟨fun h => ?_, fun h => ?_⟩
    · cases h
      rfl
    · change c = true at h
      subst h
      exact .root

/-- A node below the root is called if it is below a member of the first name on its path. -/
theorem calledAt_cons {t : MockTree} {name : String} {path : List String} :
    t.CalledAt (name :: path) ↔ ∃ m ∈ t.children, m.segment = name ∧ m.CalledAt path := by
  cases t with
  | node s c cs =>
    refine ⟨fun h => ?_, ?_⟩
    · cases h with
      | member ht hpath => exact ⟨_, ht, rfl, hpath⟩
    · rintro ⟨m, hm, rfl, hpath⟩
      exact .member hm hpath

/-- No path leads to a called node from a root that is not called and has no members. -/
theorem not_calledAt_leaf (name : String) (path : List String) : ¬(node name false []).CalledAt path := by
  cases path with
  | nil => simp [called]
  | cons => simp [calledAt_cons, children]

/-! ## Inserting paths -/

/-- Inserting a path keeps the name of the root. -/
@[simp] theorem segment_insert (path : List String) (t : MockTree) :
    (t.insert path).segment = t.segment := by
  cases t
  cases path <;> rfl

/-- If a change adds one called path to every tree, changing the first tree of a name adds this path below
that name. -/
theorem exists_mem_updateFirst {f : MockTree → MockTree} {added : List String}
    (hsegment : ∀ t, (f t).segment = t.segment)
    (hcalled : ∀ t path, (f t).CalledAt path ↔ t.CalledAt path ∨ path = added) (name : String)
    (ts : List MockTree) {s : String} {path : List String} :
    (∃ t ∈ updateFirst f name ts, t.segment = s ∧ t.CalledAt path) ↔
      (∃ t ∈ ts, t.segment = s ∧ t.CalledAt path) ∨ s = name ∧ path = added := by
  induction ts with
  | nil =>
    simp only [updateFirst, List.mem_singleton, exists_eq_left, hsegment, hcalled, not_calledAt_leaf,
      false_or, List.not_mem_nil, false_and, exists_false]
    exact and_congr_left' eq_comm
  | cons t ts ih =>
    rw [updateFirst]
    split
    · next hname =>
      have hname : t.segment = name := eq_of_beq hname
      simp only [List.mem_cons, exists_eq_or_imp, hsegment, hcalled]
      constructor
      · rintro (⟨hs, hpath | hpath⟩ | hrest)
        · exact Or.inl (Or.inl ⟨hs, hpath⟩)
        · exact Or.inr ⟨hs.symm.trans hname, hpath⟩
        · exact Or.inl (Or.inr hrest)
      · rintro ((⟨hs, hpath⟩ | hrest) | ⟨hs, hpath⟩)
        · exact Or.inl ⟨hs, Or.inl hpath⟩
        · exact Or.inr hrest
        · exact Or.inl ⟨hname.trans hs.symm, Or.inr hpath⟩
    · simp only [List.mem_cons, exists_eq_or_imp, ih, or_assoc]

/-- Inserting a path marks what it leads to and nothing else. -/
theorem calledAt_insert (added : List String) :
    ∀ (t : MockTree) (path : List String),
      (t.insert added).CalledAt path ↔ t.CalledAt path ∨ path = added := by
  induction added with
  | nil =>
    rintro ⟨s, c, cs⟩ path
    cases path with
    | nil => simp [insert, called]
    | cons => simp [insert, calledAt_cons, children]
  | cons name added ih =>
    rintro ⟨s, c, cs⟩ path
    cases path with
    | nil => simp [insert, called]
    | cons first path =>
      rw [insert, calledAt_cons, calledAt_cons, List.cons.injEq]
      exact exists_mem_updateFirst (segment_insert added) ih name cs

/-- **Inserting paths** marks what they lead to and nothing else. -/
theorem calledAt_insertAll (paths : List (List String)) :
    ∀ (t : MockTree) (path : List String),
      (t.insertAll paths).CalledAt path ↔ t.CalledAt path ∨ path ∈ paths := by
  induction paths with
  | nil => simp [insertAll]
  | cons added paths ih =>
    intro t path
    show ((t.insert added).insertAll paths).CalledAt path ↔ _
    rw [ih, calledAt_insert, List.mem_cons, or_assoc]

/-! ## Ends of paths -/

/-- Every node without members is called, so every path ends at a called node. -/
inductive EndsCalled : MockTree → Prop where
  /-- The root is called if it has no members, and every path through a member ends at a called node. -/
  | node {s : String} {c : Bool} {cs : List MockTree} (hend : cs = [] → c = true)
      (hmembers : ∀ t ∈ cs, EndsCalled t) : EndsCalled (node s c cs)

/-- Below the root, every path ends at a called node. -/
theorem EndsCalled.of_mem_children {t m : MockTree} (h : t.EndsCalled) (hm : m ∈ t.children) :
    m.EndsCalled := by
  cases h with
  | node _ hmembers => exact hmembers m hm

/-- A root without members is called. -/
theorem EndsCalled.called_of_children_eq_nil {t : MockTree} (h : t.EndsCalled) (hnil : t.children = []) :
    t.called = true := by
  cases h with
  | node hend _ => exact hend hnil

/-- Changing a tree leaves some tree. -/
theorem updateFirst_ne_nil (f : MockTree → MockTree) (name : String) (ts : List MockTree) :
    updateFirst f name ts ≠ [] := by
  cases ts with
  | nil => exact List.cons_ne_nil _ _
  | cons t ts =>
    rw [updateFirst]
    split <;> exact List.cons_ne_nil _ _

/-- A tree after a change is one from before, or it is a changed one: a tree from before or a new one
without members. -/
theorem mem_updateFirst {f : MockTree → MockTree} {name : String} {ts : List MockTree} {t : MockTree}
    (h : t ∈ updateFirst f name ts) :
    t ∈ ts ∨ (∃ u ∈ ts, t = f u) ∨ t = f (node name false []) := by
  induction ts with
  | nil => exact Or.inr (Or.inr (List.mem_singleton.1 h))
  | cons u ts ih =>
    rw [updateFirst] at h
    split at h
    · rcases List.mem_cons.1 h with rfl | h
      · exact Or.inr (Or.inl ⟨u, List.mem_cons_self, rfl⟩)
      · exact Or.inl (List.mem_cons_of_mem u h)
    · rcases List.mem_cons.1 h with rfl | h
      · exact Or.inl List.mem_cons_self
      · rcases ih h with h | ⟨v, hv, rfl⟩ | rfl
        · exact Or.inl (List.mem_cons_of_mem u h)
        · exact Or.inr (Or.inl ⟨v, List.mem_cons_of_mem u hv, rfl⟩)
        · exact Or.inr (Or.inr rfl)

/-- After a path is inserted every path ends at a called node, if that holds below the root before. -/
theorem endsCalled_insert (path : List String) :
    ∀ t : MockTree, (∀ m ∈ t.children, m.EndsCalled) → (t.insert path).EndsCalled := by
  induction path with
  | nil =>
    rintro ⟨s, c, cs⟩ h
    exact .node (fun _ => rfl) h
  | cons name path ih =>
    rintro ⟨s, c, cs⟩ h
    refine .node (fun hnil => absurd hnil (updateFirst_ne_nil _ _ _)) fun t ht => ?_
    rcases mem_updateFirst ht with ht | ⟨u, hu, rfl⟩ | rfl
    · exact h t ht
    · exact ih u fun m hm => (h u hu).of_mem_children hm
    · exact ih _ fun m hm => absurd hm List.not_mem_nil

/-- Inserting paths keeps it so that every path through a member ends at a called node. -/
theorem endsCalled_of_mem_children_insertAll (paths : List (List String)) :
    ∀ t : MockTree, (∀ m ∈ t.children, m.EndsCalled) →
      ∀ m ∈ (t.insertAll paths).children, m.EndsCalled := by
  induction paths with
  | nil => exact fun _ h => h
  | cons path paths ih =>
    exact fun t h => ih (t.insert path) fun _ hm => (endsCalled_insert path t h).of_mem_children hm

end MockTree

/-! ## The tree of a usage -/

/-- What a usage calls, as paths from its name: the recorded paths, or the name itself if there are none. -/
def Usage.callables (u : Usage) : List (List String) := if u.paths.isEmpty then [[]] else u.paths

namespace MockTree

/-- A root under which a path that is not empty is inserted has members. -/
theorem children_insertAll_ne_nil {paths : List (List String)} (h : paths ≠ []) (hnil : [] ∉ paths)
    (t : MockTree) : (t.insertAll paths).children ≠ [] := by
  obtain ⟨path, hpath⟩ := List.exists_mem_of_ne_nil _ h
  have hcalled := (calledAt_insertAll paths t path).2 (Or.inr hpath)
  obtain ⟨name, path, rfl⟩ := List.exists_cons_of_ne_nil fun heq : path = [] => hnil (heq ▸ hpath)
  obtain ⟨m, hm, -⟩ := calledAt_cons.1 hcalled
  exact List.ne_nil_of_mem hm

/-- Inserting paths keeps the name of the root. -/
@[simp] theorem segment_insertAll (paths : List (List String)) :
    ∀ t : MockTree, (t.insertAll paths).segment = t.segment := by
  induction paths with
  | nil => exact fun _ => rfl
  | cons path paths ih => exact fun t => (ih (t.insert path)).trans (segment_insert path t)

section OfUsage

variable {key : String} {u : Usage}

/-- The tree of a usage without paths is a single called node. -/
theorem ofUsage_of_paths_nil (h : u.paths = []) : ofUsage key u = node key true [] := by
  simp [ofUsage, h, insertAll, children]

/-- The tree of a usage with paths is grown from them; its root is not called. -/
theorem ofUsage_of_paths_ne_nil (h : u.paths ≠ []) (hnil : [] ∉ u.paths) :
    ofUsage key u = node key false (insertAll u.paths (node key false [])).children := by
  have hne := children_insertAll_ne_nil h hnil (node key false [])
  have hmark : u.paths.isEmpty = false := by simpa using h
  unfold ofUsage
  rw [hmark]
  dsimp only
  rw [if_neg (by simpa using hne), segment_insertAll]
  rfl

/-- The tree of a usage has the name it is made for. -/
@[simp] theorem segment_ofUsage (key : String) (u : Usage) : (ofUsage key u).segment = key := by
  unfold ofUsage
  dsimp only
  split
  · exact segment_insertAll _ _
  · exact segment_insertAll _ _

/-- **The tree of a usage** is called at the paths that the usage calls. -/
theorem calledAt_ofUsage (hnil : [] ∉ u.paths) {path : List String} :
    (ofUsage key u).CalledAt path ↔ path ∈ u.callables := by
  by_cases h : u.paths = []
  · rw [ofUsage_of_paths_nil h, Usage.callables, if_pos (List.isEmpty_iff.2 h), List.mem_singleton]
    cases path with
    | nil => simp [called]
    | cons => simp [calledAt_cons, children]
  · rw [ofUsage_of_paths_ne_nil h hnil, Usage.callables, if_neg (by simpa using h)]
    cases path with
    | nil => simp [called, hnil]
    | cons name path =>
      rw [calledAt_cons, children, ← calledAt_cons, calledAt_insertAll]
      exact or_iff_right (not_calledAt_leaf _ _)

/-- In the tree of a usage every path ends at a called node. -/
theorem endsCalled_ofUsage (hnil : [] ∉ u.paths) : (ofUsage key u).EndsCalled := by
  by_cases h : u.paths = []
  · rw [ofUsage_of_paths_nil h]
    exact .node (fun _ => rfl) fun m hm => absurd hm List.not_mem_nil
  · rw [ofUsage_of_paths_ne_nil h hnil]
    refine .node (fun hno => absurd hno (children_insertAll_ne_nil h hnil _)) ?_
    exact endsCalled_of_mem_children_insertAll _ _ fun m hm => absurd hm List.not_mem_nil

end OfUsage

end MockTree

end TestScaffold
