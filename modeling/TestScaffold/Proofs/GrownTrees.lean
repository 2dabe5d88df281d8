import Mathlib.Data.List.Forall2
import TestScaffold.Proofs.Distinct
import TestScaffold.Proofs.MockPaths

set_option autoImplicit false

/-!
# Trees grown from paths

A mock tree is grown by inserting paths one by one. What it looks like in the end is said here without the
insertions: which nodes there are, which of them are called, and in which order the members of a node stand.
This determines the tree, so it does not matter how often a path is inserted, and the order of the paths matters
for the order of members only.

The proofs rest on one equation. The members of a grown tree are the first names of the paths, and each of them
is grown in turn from what follows its name.

## Main definitions

* `TestScaffold.MockTree.grow` — the tree grown from paths.
* `TestScaffold.MockTree.NodeAt` — the node that a path leads to.
* `TestScaffold.MockTree.GrownFrom` — what a tree has to look like to be grown from paths.
* `TestScaffold.MockTree.SameUpToOrder` — trees that differ in the order of members at most.
* `TestScaffold.MockTree.WrittenOut` — the forms of a written node.

## Main results

* `TestScaffold.MockTree.grow_eq` — the members of a grown tree are grown trees.
* `TestScaffold.MockTree.grownFrom_iff` — there is one tree grown from paths.
* `TestScaffold.MockTree.insert_grow` — a path that was inserted before changes nothing.
* `TestScaffold.MockTree.sameUpToOrder_grow` — the order of paths matters for the order of members only.
* `TestScaffold.MockTree.grown_from_paths` — all of this, and how the tree of a usage is written.
-/

namespace TestScaffold

namespace MockTree

mutual

/-- What holds of a tree if it holds of its members holds of every tree. -/
theorem inductionOn_members {P : MockTree → Prop} (h : ∀ t : MockTree, (∀ m ∈ t.children, P m) → P t) :
    ∀ t : MockTree, P t
  | node s c cs => h (node s c cs) (inductionOn_members_all h cs)

/-- What holds of a tree if it holds of its members holds of each of several trees. -/
theorem inductionOn_members_all {P : MockTree → Prop}
    (h : ∀ t : MockTree, (∀ m ∈ t.children, P m) → P t) : ∀ ts : List MockTree, ∀ t ∈ ts, P t
  | [] => fun _ ht => nomatch ht
  | t :: ts => List.forall_mem_cons.2 ⟨inductionOn_members h t, inductionOn_members_all h ts⟩

end

/-! ## Nodes and paths -/

/-- The tree grown from a single node by inserting paths one after the other. -/
def grow (key : String) (called : Bool) (paths : List (List String)) : MockTree :=
  insertAll paths (node key called [])

/-- `t.NodeAt path m`: the path leads from the root of `t` to the node `m`. The root has no name on its paths. -/
inductive NodeAt : MockTree → List String → MockTree → Prop where
  /-- The path without names leads to the root. -/
  | root {t : MockTree} : NodeAt t [] t
  /-- A path leads on through the member it begins with. -/
  | member {t m found : MockTree} {path : List String} (hm : m ∈ t.children) (hpath : NodeAt m path found) :
    NodeAt t (m.segment :: path) found

/-- The path without names leads to the root and nowhere else. -/
@[simp] theorem nodeAt_nil {t m : MockTree} : t.NodeAt [] m ↔ m = t := by
  refine ⟨fun h => ?_, fun h => h ▸ .root⟩
  cases h
  rfl

/-- A path leads on through a member with its first name. -/
theorem nodeAt_cons {t found : MockTree} {name : String} {path : List String} :
    t.NodeAt (name :: path) found ↔ ∃ m ∈ t.children, m.segment = name ∧ m.NodeAt path found := by
  constructor
  · intro h
    cases h with
    | member hm hpath => exact ⟨_, hm, rfl, hpath⟩
  · rintro ⟨m, hm, rfl, hpath⟩
    exact .member hm hpath

/-- What follows the first name of a path, if it is the given one. -/
def below? (name : String) : List String → Option (List String)
  | [] => none
  | first :: path => if first = name then some path else none

/-- What follows a name in the paths that begin with it. -/
def pathsBelow (name : String) (paths : List (List String)) : List (List String) :=
  paths.filterMap (below? name)

/-- The names that paths begin with. -/
def firstNames (paths : List (List String)) : List String := paths.filterMap List.head?

/-- The name that follows `path` in the path `inserted`, if the latter is longer and begins with it. -/
def nameAfter? (path inserted : List String) : Option String :=
  if path <+: inserted then inserted[path.length]? else none

/-- What `below?` finds. -/
@[simp] theorem below?_eq_some {name : String} {inserted path : List String} :
    below? name inserted = some path ↔ inserted = name :: path := by
  cases inserted with
  | nil => simp [below?]
  | cons first rest => simp [below?, eq_comm]

/-- What follows a name is what stands behind it in one of the paths. -/
@[simp] theorem mem_pathsBelow {name : String} {paths : List (List String)} {path : List String} :
    path ∈ pathsBelow name paths ↔ name :: path ∈ paths := by
  simp [pathsBelow]

/-- A first name has something behind it, be it nothing. -/
@[simp] theorem mem_firstNames {name : String} {paths : List (List String)} :
    name ∈ firstNames paths ↔ ∃ path, name :: path ∈ paths := by
  simp only [firstNames, List.mem_filterMap, List.head?_eq_some_iff]
  constructor
  · rintro ⟨inserted, hin, path, rfl⟩
    exact ⟨path, hin⟩
  · rintro ⟨path, hin⟩
    exact ⟨_, hin, path, rfl⟩

/-- The first names of paths are those that follow the beginning of a path. -/
theorem nameAfter?_nil : nameAfter? [] = List.head? := by
  funext inserted
  simp [nameAfter?, List.head?_eq_getElem?]

/-- The name that follows a path is found behind the first name of the path. -/
theorem nameAfter?_cons (name : String) (path : List String) :
    nameAfter? (name :: path) = fun inserted => (below? name inserted).bind (nameAfter? path) := by
  funext inserted
  cases inserted with
  | nil => simp [nameAfter?, below?]
  | cons first rest =>
    by_cases hname : first = name
    · simp [nameAfter?, below?, hname, List.cons_prefix_cons]
    · simp [nameAfter?, below?, hname, List.cons_prefix_cons, Ne.symm hname]

/-- What follows a longer path follows the rest of it below its first name. -/
theorem filterMap_nameAfter?_cons (name : String) (path : List String) (paths : List (List String)) :
    paths.filterMap (nameAfter? (name :: path)) = (pathsBelow name paths).filterMap (nameAfter? path) := by
  rw [nameAfter?_cons, pathsBelow, List.filterMap_filterMap]

/-- A path begins an inserted one if its rest begins what follows its first name. -/
theorem exists_prefix_cons {name : String} {path : List String} {paths : List (List String)} :
    (∃ inserted ∈ paths, name :: path <+: inserted) ↔ ∃ inserted ∈ pathsBelow name paths, path <+: inserted := by
  constructor
  · rintro ⟨inserted, hin, more, rfl⟩
    exact ⟨path ++ more, mem_pathsBelow.2 hin, List.prefix_append path more⟩
  · rintro ⟨inserted, hin, hprefix⟩
    exact ⟨name :: inserted, mem_pathsBelow.1 hin, List.cons_prefix_cons.2 ⟨rfl, hprefix⟩⟩

/-! ## The members of a grown tree -/

/-- The members of a tree grown from paths: one for each first name, grown from what follows it. -/
def grownMembers (paths : List (List String)) : List MockTree :=
  (firstNames paths).eraseDups.map fun name => grow name false (pathsBelow name paths)

/-- A grown tree has the name it was begun with. -/
@[simp] theorem segment_grow (key : String) (called : Bool) (paths : List (List String)) :
    (grow key called paths).segment = key :=
  segment_insertAll paths _

/-- One more path is inserted into the grown tree. -/
theorem grow_append_singleton (key : String) (called : Bool) (paths : List (List String)) (path : List String) :
    grow key called (paths ++ [path]) = (grow key called paths).insert path := by
  simp [grow, insertAll]

/-- Changing the first tree of a name among trees with distinct names, one for each name in a list. -/
theorem updateFirst_map {names : List String} (hnames : names.Nodup) {tree : String → MockTree}
    (htree : ∀ name, (tree name).segment = name) (f : MockTree → MockTree) (name : String) :
    updateFirst f name (names.map tree) =
      if name ∈ names then names.map (fun n => if n = name then f (tree n) else tree n)
      else names.map tree ++ [f (node name false [])] := by
  induction names with
  | nil => simp [updateFirst]
  | cons first names ih =>
    rw [List.nodup_cons] at hnames
    rw [List.map_cons, updateFirst, htree, ih hnames.2]
    by_cases hfirst : first = name
    · subst hfirst
      have hrest : names.map (fun n => if n = first then f (tree n) else tree n) = names.map tree := by
        refine List.map_congr_left fun n hn => if_neg ?_
        rintro rfl
        exact hnames.1 hn
      simp [hrest]
    · by_cases hin : name ∈ names
      · simp [hfirst, hin]
      · simp [hfirst, Ne.symm hfirst, hin]

/-- Inserting a path below its first name keeps the members grown. -/
theorem updateFirst_grownMembers (name : String) (path : List String) (paths : List (List String)) :
    updateFirst (insert path) name (grownMembers paths) = grownMembers (paths ++ [name :: path]) := by
  have hbelow : ∀ n, grow n false (pathsBelow n (paths ++ [name :: path])) =
      if n = name then (grow n false (pathsBelow n paths)).insert path
      else grow n false (pathsBelow n paths) := by
    intro n
    by_cases hn : n = name
    · rw [if_pos hn, ← grow_append_singleton]
      simp [pathsBelow, below?, hn]
    · simp [pathsBelow, below?, hn, Ne.symm hn]
  have hfirst : firstNames (paths ++ [name :: path]) = firstNames paths ++ [name] := by
    simp [firstNames]
  unfold grownMembers
  rw [updateFirst_map (nodup_eraseDups _) (fun n => segment_grow n false _), hfirst,
    eraseDups_append_singleton]
  simp only [hbelow, List.mem_eraseDups]
  by_cases hin : name ∈ firstNames paths
  · rw [if_pos hin, if_pos hin]
  · -- nothing follows a new name yet, so it is inserted into a single node
    have hnone : pathsBelow name paths = [] := by
      rw [List.eq_nil_iff_forall_not_mem]
      exact fun rest hrest => hin (mem_firstNames.2 ⟨rest, mem_pathsBelow.1 hrest⟩)
    have hothers : (firstNames paths).eraseDups.map (fun n =>
        if n = name then (grow n false (pathsBelow n paths)).insert path
        else grow n false (pathsBelow n paths)) =
        (firstNames paths).eraseDups.map fun n => grow n false (pathsBelow n paths) := by
      refine List.map_congr_left fun n hn => if_neg ?_
      rintro rfl
      exact hin (List.mem_eraseDups.1 hn)
    rw [if_neg hin, if_neg hin, List.map_append, hothers, List.map_singleton, if_pos rfl, hnone]
    rfl

/-- **The members of a grown tree are grown** from what follows the first names of the paths. The root is called
if it was before or if a path leads to it. -/
theorem grow_eq (key : String) (called : Bool) (paths : List (List String)) :
    grow key called paths = node key (called || paths.contains []) (grownMembers paths) := by
  induction paths using List.reverseRecOn with
  | nil => simp [grow, insertAll, grownMembers, firstNames]
  | append_singleton paths path ih =>
    rw [grow_append_singleton, ih]
    cases path with
    | nil =>
      have hfirst : firstNames (paths ++ [[]]) = firstNames paths := by
        rw [firstNames, List.filterMap_append]
        exact List.append_nil _
      have hbelow : ∀ name, pathsBelow name (paths ++ [[]]) = pathsBelow name paths := by
        intro name
        rw [pathsBelow, List.filterMap_append]
        exact List.append_nil _
      simp [insert, grownMembers, hfirst, hbelow]
    | cons name path =>
      rw [insert, updateFirst_grownMembers]
      simp

/-- The root of a grown tree is called if it was before or if a path leads to it. -/
@[simp] theorem called_grow {key : String} {called : Bool} {paths : List (List String)} :
    (grow key called paths).called = true ↔ called = true ∨ [] ∈ paths := by
  rw [grow_eq]
  simp [MockTree.called]

/-- The members of a grown tree. -/
@[simp] theorem children_grow (key : String) (called : Bool) (paths : List (List String)) :
    (grow key called paths).children = grownMembers paths := by
  rw [grow_eq]
  rfl

/-- The names of the members of a grown tree are the first names of the paths. -/
@[simp] theorem map_segment_grownMembers (paths : List (List String)) :
    (grownMembers paths).map segment = (firstNames paths).eraseDups := by
  simp [grownMembers, Function.comp_def]

/-- In a grown tree a path leads on through the tree grown from what follows its first name. -/
theorem nodeAt_grow_cons {key name : String} {called : Bool} {paths : List (List String)} {path : List String}
    {m : MockTree} : (grow key called paths).NodeAt (name :: path) m ↔
      name ∈ firstNames paths ∧ (grow name false (pathsBelow name paths)).NodeAt path m := by
  rw [nodeAt_cons, children_grow]
  simp only [grownMembers, List.mem_map, List.mem_eraseDups]
  constructor
  · rintro ⟨_, ⟨n, hn, rfl⟩, hsegment, hpath⟩
    rw [segment_grow] at hsegment
    subst hsegment
    exact ⟨hn, hpath⟩
  · rintro ⟨hname, hpath⟩
    exact ⟨_, ⟨name, hname, rfl⟩, segment_grow _ _ _, hpath⟩

/-! ## Trees that are grown from paths -/

/-- What a tree looks like that is grown from paths. -/
structure GrownFrom (key : String) (called : Bool) (paths : List (List String)) (t : MockTree) : Prop where
  /-- The root has the name it was begun with. -/
  segment : t.segment = key
  /-- A node exists at a path exactly if the path is a beginning of an inserted one; the root always does. -/
  exists_iff : ∀ path, (∃ m, t.NodeAt path m) ↔ path = [] ∨ ∃ inserted ∈ paths, path <+: inserted
  /-- A node is called exactly if its path is inserted; the root also if it was called before. -/
  called_iff : ∀ path m, t.NodeAt path m →
    (m.called = true ↔ path ∈ paths ∨ path = [] ∧ called = true)
  /-- The members of a node have pairwise distinct names, in the order in which the paths show them first. -/
  siblings : ∀ path m, t.NodeAt path m →
    FirstOccurrences (paths.filterMap (nameAfter? path)) (m.children.map MockTree.segment)

/-- A node exists in a grown tree at the beginnings of the paths. -/
theorem exists_nodeAt_grow {path : List String} :
    ∀ {key : String} {called : Bool} {paths : List (List String)},
      (∃ m, (grow key called paths).NodeAt path m) ↔ path = [] ∨ ∃ inserted ∈ paths, path <+: inserted := by
  induction path with
  | nil => simp
  | cons name path ih =>
    intro key called paths
    simp only [nodeAt_grow_cons, exists_and_left, ih, exists_prefix_cons, mem_firstNames, reduceCtorEq, false_or]
    constructor
    · rintro ⟨⟨rest, hin⟩, rfl | hprefix⟩
      · exact ⟨rest, mem_pathsBelow.2 hin, List.nil_prefix⟩
      · exact hprefix
    · rintro ⟨inserted, hin, hprefix⟩
      exact ⟨⟨inserted, mem_pathsBelow.1 hin⟩, Or.inr ⟨inserted, hin, hprefix⟩⟩

/-- A node of a grown tree is called at the paths. -/
theorem called_of_nodeAt_grow {path : List String} {m : MockTree} :
    ∀ {key : String} {called : Bool} {paths : List (List String)}, (grow key called paths).NodeAt path m →
      (m.called = true ↔ path ∈ paths ∨ path = [] ∧ called = true) := by
  induction path with
  | nil =>
    intro key called paths h
    obtain rfl := nodeAt_nil.1 h
    simp [or_comm]
  | cons name path ih =>
    intro key called paths h
    rw [ih (nodeAt_grow_cons.1 h).2]
    simp

/-- The members of a node of a grown tree are the names that follow its path. -/
theorem map_segment_of_nodeAt_grow {path : List String} {m : MockTree} :
    ∀ {key : String} {called : Bool} {paths : List (List String)}, (grow key called paths).NodeAt path m →
      m.children.map segment = (paths.filterMap (nameAfter? path)).eraseDups := by
  induction path with
  | nil =>
    intro key called paths h
    obtain rfl := nodeAt_nil.1 h
    rw [children_grow, map_segment_grownMembers, nameAfter?_nil, firstNames]
  | cons name path ih =>
    intro key called paths h
    rw [ih (nodeAt_grow_cons.1 h).2, filterMap_nameAfter?_cons]

/-- A grown tree looks like one. -/
theorem grownFrom_grow (key : String) (called : Bool) (paths : List (List String)) :
    GrownFrom key called paths (grow key called paths) where
  segment := segment_grow key called paths
  exists_iff := fun _ => exists_nodeAt_grow
  called_iff := fun _ _ => called_of_nodeAt_grow
  siblings := fun _ _ h => firstOccurrences_iff.2 (map_segment_of_nodeAt_grow h)

namespace GrownFrom

variable {key : String} {called : Bool} {paths : List (List String)} {t m : MockTree}

/-- The members of a grown tree have the first names of the paths. -/
theorem map_segment (h : GrownFrom key called paths t) :
    t.children.map MockTree.segment = (firstNames paths).eraseDups := by
  have hroot := firstOccurrences_iff.1 (h.siblings [] t .root)
  rwa [nameAfter?_nil] at hroot

/-- A path through a member of a grown tree leads on below this member. -/
theorem nodeAt_member (h : GrownFrom key called paths t) (hm : m ∈ t.children) {path : List String}
    {found : MockTree} : t.NodeAt (m.segment :: path) found ↔ m.NodeAt path found := by
  refine ⟨fun hfound => ?_, .member hm⟩
  obtain ⟨m', hm', hsegment, hpath⟩ := nodeAt_cons.1 hfound
  have hnames : (t.children.map MockTree.segment).Nodup := (h.siblings [] t .root).nodup
  rwa [List.inj_on_of_nodup_map hnames hm' hm hsegment] at hpath

/-- A member of a grown tree is grown from what follows its name. -/
theorem member (h : GrownFrom key called paths t) (hm : m ∈ t.children) :
    GrownFrom m.segment false (pathsBelow m.segment paths) m where
  segment := rfl
  exists_iff := by
    intro path
    cases path with
    | nil => simp
    | cons name path =>
      have hexists := h.exists_iff (m.segment :: name :: path)
      simp only [h.nodeAt_member hm, reduceCtorEq, false_or] at hexists ⊢
      rw [hexists, exists_prefix_cons]
  called_iff := by
    intro path found hfound
    rw [h.called_iff _ _ (.member hm hfound)]
    simp
  siblings := by
    intro path found hfound
    rw [← filterMap_nameAfter?_cons]
    exact h.siblings _ _ (.member hm hfound)

/-- The root of a grown tree is called if it was before or if a path leads to it. -/
theorem called_eq (h : GrownFrom key called paths t) : t.called = (called || paths.contains []) := by
  rw [Bool.eq_iff_iff, h.called_iff [] t .root]
  simp [or_comm]

end GrownFrom

/-- **There is one tree that is grown from paths**, up to nothing at all.

**Proof sketch.** Induction on the tree. Its members have the first names of the paths, in the order of first
occurrences, and each of them is grown from what follows its name. -/
theorem grownFrom_iff {key : String} {called : Bool} {paths : List (List String)} {t : MockTree} :
    GrownFrom key called paths t ↔ t = grow key called paths := by
  refine ⟨fun h => ?_, fun h => h ▸ grownFrom_grow key called paths⟩
  induction t using inductionOn_members generalizing key called paths with
  | h t ih =>
    have hmembers : t.children = grownMembers paths := by
      calc t.children = t.children.map fun m => grow m.segment false (pathsBelow m.segment paths) := by
            conv_lhs => rw [← List.map_id t.children]
            exact List.map_congr_left fun m hm => ih m hm (h.member hm)
        _ = (t.children.map segment).map fun name => grow name false (pathsBelow name paths) := by
            rw [List.map_map]
            rfl
        _ = grownMembers paths := by rw [h.map_segment, grownMembers]
    have hcalled := h.called_eq
    have hsegment := h.segment
    obtain ⟨s, c, cs⟩ := t
    rw [grow_eq]
    exact congr (congr (congrArg node hsegment) hcalled) hmembers

/-! ## Paths inserted again or in another order -/

/-- **A path that was inserted before changes nothing.** -/
theorem insert_grow {key : String} {called : Bool} {paths : List (List String)} {path : List String}
    (h : path ∈ paths) : (grow key called paths).insert path = grow key called paths := by
  rw [← grow_append_singleton, ← grownFrom_iff]
  have hmem : ∀ p, p ∈ paths ++ [path] ↔ p ∈ paths := by
    intro p
    rw [List.mem_append, List.mem_singleton, or_iff_left_iff_imp]
    rintro rfl
    exact h
  have hagain := grownFrom_grow key called (paths ++ [path])
  refine ⟨hagain.segment, fun p => ?_, fun p m hm => ?_, fun p m hm => ?_⟩
  · simp only [hagain.exists_iff, hmem]
  · rw [hagain.called_iff p m hm, hmem]
  · have hsiblings := firstOccurrences_iff.1 (hagain.siblings p m hm)
    have hsubset : [path].filterMap (nameAfter? p) ⊆ paths.filterMap (nameAfter? p) :=
      List.filterMap_subset _ (by simpa using h)
    rw [List.filterMap_append, eraseDups_append_of_subset hsubset] at hsiblings
    exact firstOccurrences_iff.2 hsiblings

/-- Trees that differ in the order of members at most. -/
inductive SameUpToOrder : MockTree → MockTree → Prop where
  /-- The roots are the same, and the members of one are those of the other in some order, each up to the order
  of its own members. -/
  | node {s : String} {c : Bool} {cs ds es : List MockTree} (hperm : cs.Perm ds)
      (hmembers : List.Forall₂ SameUpToOrder ds es) : SameUpToOrder (node s c cs) (node s c es)

/-- **The order of paths matters for the order of members only.**

**Proof sketch.** Induction on one of the trees. The first names of the paths are the same in some order, and so
are the paths that follow each of them. -/
theorem sameUpToOrder_grow {t : MockTree} :
    ∀ {key : String} {called : Bool} {paths paths' : List (List String)}, t = grow key called paths →
      paths'.Perm paths → SameUpToOrder (grow key called paths') t := by
  induction t using inductionOn_members with
  | h t ih =>
    rintro key called paths paths' rfl hperm
    have hcalled : paths'.contains [] = paths.contains [] := by
      rw [Bool.eq_iff_iff, List.contains_iff_mem, List.contains_iff_mem, hperm.mem_iff]
    have hnames : (firstNames paths').eraseDups.Perm (firstNames paths).eraseDups := by
      refine (List.perm_ext_iff_of_nodup (nodup_eraseDups _) (nodup_eraseDups _)).2 fun name => ?_
      rw [List.mem_eraseDups, List.mem_eraseDups]
      exact (hperm.filterMap _).mem_iff
    rw [grow_eq, grow_eq, hcalled]
    refine .node (hnames.map _) ?_
    rw [grownMembers, List.forall₂_map_left_iff, List.forall₂_map_right_iff, List.forall₂_same]
    intro name hname
    have hmember : grow name false (pathsBelow name paths) ∈ (grow key called paths).children := by
      rw [children_grow]
      exact List.mem_map_of_mem hname
    exact ih _ hmember rfl (hperm.filterMap _)

/-! ## The tree of a usage -/

/-- The tree of a usage is grown from its paths. The root is called before if there are no paths. -/
theorem ofUsage_eq_grow {key : String} {u : Usage} (hnil : [] ∉ u.paths) :
    ofUsage key u = grow key u.paths.isEmpty u.paths := by
  by_cases h : u.paths = []
  · rw [ofUsage_of_paths_nil h, h]
    rfl
  · have hmark : u.paths.isEmpty = false := by simpa using h
    rw [ofUsage_of_paths_ne_nil h hnil, hmark, grow_eq]
    show node key false (grow key false u.paths).children = _
    simp [hnil]

/-- **A node without members is called** in a grown tree, unless it is a single root that was not called
before.

**Proof sketch.** The path to the node is a beginning of an inserted path. It is this path, for otherwise the
next name of the latter would be that of a member. -/
theorem called_of_children_eq_nil {key : String} {called : Bool} {paths : List (List String)}
    (hroot : paths ≠ [] ∨ called = true) {path : List String} {m : MockTree}
    (hm : (grow key called paths).NodeAt path m) (hleaf : m.children = []) : m.called = true := by
  rw [called_of_nodeAt_grow hm]
  by_cases hbegins : ∃ inserted ∈ paths, path <+: inserted
  · obtain ⟨inserted, hin, more, rfl⟩ := hbegins
    cases more with
    | nil => simpa using Or.inl hin
    | cons name more =>
      have hname : name ∈ m.children.map segment := by
        rw [map_segment_of_nodeAt_grow hm, List.mem_eraseDups, List.mem_filterMap]
        exact ⟨_, hin, by simp [nameAfter?]⟩
      simp [hleaf] at hname
  · obtain rfl := (exists_nodeAt_grow.1 ⟨m, hm⟩).resolve_right hbegins
    have hnone : paths = [] := by
      rw [List.eq_nil_iff_forall_not_mem]
      exact fun inserted hin => hbegins ⟨inserted, hin, List.nil_prefix⟩
    exact Or.inr ⟨rfl, hroot.resolve_left fun hne => hne hnone⟩

/-! ## Written trees -/

/-- The forms of a written node, with what stands behind it. -/
structure WrittenOut (m : MockTree) (ending : String) : Prop where
  /-- A called node without members is a mock function. -/
  function : m.called = true → m.children = [] →
    m.render ending = .line (m.segment ++ ": jest.fn()" ++ ending)
  /-- A called node with members is a mock function to which these are assigned. -/
  functionWithMembers : m.called = true → m.children ≠ [] →
    m.render ending =
      .block (m.segment ++ ": Object.assign(jest.fn(), \x7b") (renderAll m.children) ("\x7d)" ++ ending)
  /-- A node that is not called is an object with its members. -/
  object : m.called = false →
    m.render ending = .block (m.segment ++ ": \x7b") (renderAll m.children) ("\x7d" ++ ending)

/-- A node is written in one of the three forms, if it is called or has members. -/
theorem writtenOut {m : MockTree} (h : m.children = [] → m.called = true) (ending : String) :
    m.WrittenOut ending := by
  obtain ⟨s, c, cs⟩ := m
  simp only [children, called] at h
  cases cs with
  | nil =>
    refine ⟨fun _ _ => ?_, fun _ hne => absurd rfl hne, fun hcalled => ?_⟩
    · rw [render]
      rfl
    · exact absurd (h rfl) (ne_true_of_eq_false hcalled)
  | cons t ts =>
    refine ⟨fun _ hnil => absurd hnil (List.cons_ne_nil t ts), fun hcalled _ => ?_, fun hcalled => ?_⟩
    · rw [render]
      exact if_pos hcalled
    · rw [render]
      exact if_neg (ne_true_of_eq_false hcalled)

/-- **A comma follows every entry but the last** of several written trees. -/
theorem getElem?_renderAll (ts : List MockTree) (i : Nat) :
    (renderAll ts)[i]? = ts[i]?.map (render (if i + 1 < ts.length then "," else "")) := by
  induction ts generalizing i with
  | nil => simp [renderAll]
  | cons t ts ih =>
    cases ts with
    | nil => cases i <;> simp [renderAll]
    | cons u ts =>
      rw [renderAll]
      cases i with
      | zero => simp
      | succ i => simp [ih]

/-- **A tree grown from paths** that are not empty is the one tree with a node at each beginning of a path, where
the nodes at the paths themselves are called and members stand under distinct names in the order in which the
paths show them first. So every node without members is called, a path that is inserted again changes nothing,
and paths in another order give the same tree up to the order of members. The tree of a usage is grown from its
paths; a called node in it is written as a mock function, with its members assigned to it if there are any, any
other node is written as an object, and a comma follows every entry but the last of several.

**Proof sketch.** The members of a grown tree are grown from what follows the first names of the paths. With
this equation everything that is said about single paths goes by induction on them, and it determines the tree by
induction on the tree. -/
theorem grown_from_paths (key : String) (u : Usage) (hpaths : [] ∉ u.paths) :
    (∀ called t, GrownFrom key called u.paths t ↔ t = grow key called u.paths) ∧
      (∀ called path m, (grow key called u.paths).NodeAt path m → m.children = [] →
        m.called = true ∨ u.paths = []) ∧
      (∀ called, ∀ path ∈ u.paths, (grow key called u.paths).insert path = grow key called u.paths) ∧
      (∀ called (paths' : List (List String)), paths'.Perm u.paths →
        (grow key called paths').SameUpToOrder (grow key called u.paths)) ∧
      ofUsage key u = grow key u.paths.isEmpty u.paths ∧
      (∀ path m ending, (ofUsage key u).NodeAt path m → m.WrittenOut ending) ∧
      ∀ (ts : List MockTree) (i : Nat),
        (renderAll ts)[i]? = ts[i]?.map (render (if i + 1 < ts.length then "," else "")) := by
  refine ⟨fun _ _ => grownFrom_iff, ?_, fun _ _ => insert_grow, fun _ _ => sameUpToOrder_grow rfl,
    ofUsage_eq_grow hpaths, ?_, getElem?_renderAll⟩
  · intro called path m hm hleaf
    by_cases hnil : u.paths = []
    · exact Or.inr hnil
    · exact Or.inl (called_of_children_eq_nil (Or.inl hnil) hm hleaf)
  · intro path m ending hm
    have hroot : u.paths ≠ [] ∨ u.paths.isEmpty = true := by
      rw [List.isEmpty_iff]
      exact (eq_or_ne u.paths []).symm
    rw [ofUsage_eq_grow hpaths] at hm
    exact writtenOut (called_of_children_eq_nil hroot hm) ending

/-- A usage with a path that is the beginning of another one before it and of one behind it. -/
def nestedUsage : Usage := ⟨"api", [["users", "get"], ["users"], ["users", "list"]], false⟩

/-- The tree of that usage has a called node with members; neither does it matter that its path is inserted again,
nor which path comes first. -/
theorem grown_from_paths_nested :
    [] ∉ nestedUsage.paths ∧
      (grow "api" false nestedUsage.paths).insert ["users"] = grow "api" false nestedUsage.paths ∧
      (grow "api" false nestedUsage.paths.reverse).SameUpToOrder (grow "api" false nestedUsage.paths) ∧
      (ofUsage "api" nestedUsage).render "" =
        .block "api: \x7b"
          [.block "users: Object.assign(jest.fn(), \x7b" [.line "get: jest.fn(),", .line "list: jest.fn()"]
            "\x7d)"] "\x7d" := by
  have hpaths : [] ∉ nestedUsage.paths := by decide
  obtain ⟨-, -, hagain, horder, -⟩ := grown_from_paths "api" nestedUsage hpaths
  exact ⟨hpaths, hagain false _ (by decide), horder false _ (List.reverse_perm _), rfl⟩

end MockTree

end TestScaffold
