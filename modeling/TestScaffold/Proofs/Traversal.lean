import TestScaffold.Proofs.PlacesBelow
import TestScaffold.Syntax.Listing

set_option autoImplicit false

/-!
# Traversals

A traversal goes from place to place by single moves: to the first child, to the next sibling, or up until
there is a next sibling. Here it is compared with a recursion over the tree that visits a node and then, if
the visit wants it, its children in turn. Both make the same visits with the same states between them, so the
moves reach every place that a visit does not keep them from, each once and in document order, and none
outside of the tree.

## Main definitions

* `TestScaffold.Tree.tour` — visiting a tree by recursion.
* `TestScaffold.Locus.Visits` — the visits of the loop over the moves, which may or may not end.
* `TestScaffold.Locus.Prunes` — the places that some visits leave out.
* `TestScaffold.Tree.lociWhile` — the places in document order, leaving out those below places that are not to be
  entered.

## Main results

* `TestScaffold.Tree.visits_tour` — the loop makes the visits of the recursion, then goes on behind the tree.
* `TestScaffold.Tree.mem_tour_iff` — the places that the recursion visits.
* `TestScaffold.Locus.traverse_prunes` — the visits of a traversal.
* `TestScaffold.Locus.traverse_eq_foldl`, `TestScaffold.Tree.traverse_eq_foldl` — a traversal whose visits choose
  by the place or by the node alone.

## Implementation notes

A visit may have a state and look at the whole place. So what is left out is not known beforehand, and the
places visited are described by the answers that the visits gave.
-/

namespace TestScaffold

universe u

variable {σ : Type u}

/-! ## Two ways of visiting -/

namespace Tree

mutual

/-- Visits a tree that stands below the steps `above` by recursion: a node, then its children if the visit
wants that. The result is the last state, and the places visited with the answers. -/
def tour (visit : σ → Locus → σ × Bool) (above : List Crumb) (s : σ) : Tree → σ × List (Locus × Bool)
  | node l cs =>
    let answer := visit s ⟨node l cs, above⟩
    let below := if answer.2 then tourBelow visit (node l cs) above 0 answer.1 cs else (answer.1, [])
    (below.1, (⟨node l cs, above⟩, answer.2) :: below.2)

/-- Visits the children of `parent` by recursion, from the one at position `i` on. -/
def tourBelow (visit : σ → Locus → σ × Bool) (parent : Tree) (above : List Crumb) (i : Nat) (s : σ) :
    List Tree → σ × List (Locus × Bool)
  | [] => (s, [])
  | c :: cs =>
    let first := tour visit (⟨parent, i⟩ :: above) s c
    let rest := tourBelow visit parent above (i + 1) first.1 cs
    (rest.1, first.2 ++ rest.2)

end

end Tree

/-- `r.Visits visit s p? calls s'`: standing at `p?` with the state `s`, the loop over the moves makes the
visits `calls` and ends with the state `s'`. It ends where no place is left to go to. -/
inductive Locus.Visits (visit : σ → Locus → σ × Bool) (r : Locus) :
    σ → Option Locus → List (Locus × Bool) → σ → Prop where
  /-- Without a place to go to, the loop has ended. -/
  | stop (s : σ) : Visits visit r s none [] s
  /-- At a place, there is one visit, and then those from the place on that it leads to. -/
  | go {s s' : σ} {p : Locus} {calls : List (Locus × Bool)}
    (hrest : Visits visit r (visit s (r.under p)).1 (p.onward? (visit s (r.under p)).2) calls s') :
    Visits visit r s (some p) ((r.under p, (visit s (r.under p)).2) :: calls) s'

/-! ## The loop follows the recursion -/

section Loop

variable {visit : σ → Locus → σ × Bool} {r : Locus} {s s' s'' : σ} {calls calls' : List (Locus × Bool)}

/-- The visits of the loop, and the state it ends with, are determined by where it begins. -/
theorem Locus.Visits.unique {p? : Option Locus} (h : r.Visits visit s p? calls s')
    (h' : r.Visits visit s p? calls' s'') : calls = calls' ∧ s' = s'' := by
  induction h generalizing calls' with
  | stop s =>
    cases h'
    exact ⟨rfl, rfl⟩
  | go _ ih =>
    cases h' with
    | go hrest' =>
      obtain ⟨rfl, rfl⟩ := ih hrest'
      exact ⟨rfl, rfl⟩

/-- The state that the loop ends with is the one that is computed. -/
theorem Locus.Visits.visitFrom_eq {p? : Option Locus} (h : r.Visits visit s p? calls s') :
    p?.elim s (visitFrom visit r s) = s' := by
  induction h with
  | stop s => rfl
  | @go s s' p calls hrest ih =>
    rw [Option.elim_some, visitFrom]
    split
    · next hmove =>
      rw [hmove] at ih
      exact ih
    · next q hmove =>
      rw [hmove] at ih
      exact ih

/-- Behind a child comes the next one, or else what comes behind the parent. -/
theorem Locus.after?_child (c parent : Tree) (above : List Crumb) (i : Nat) :
    (⟨c, ⟨parent, i⟩ :: above⟩ : Locus).after? =
      ((parent.children.drop (i + 1)).head?.map fun d => ⟨d, ⟨parent, i + 1⟩ :: above⟩).or
        (⟨parent, above⟩ : Locus).after? := by
  rw [after?_eq, List.head?_drop]
  rfl

namespace Tree

mutual

/-- **The loop follows the recursion**: it makes the visits of the recursion in a tree, and goes on behind the
tree with the state that this has led to.

The induction is on the tree. What comes behind a child depends on the steps above it only, so that the loop
may be taken to go on in any way there. -/
theorem visits_tour : ∀ (t : Tree) above {s calls},
    r.Visits visit (t.tour visit (above ++ r.above) s).1 (⟨t, above⟩ : Locus).after? calls s' →
    r.Visits visit s (some ⟨t, above⟩) ((t.tour visit (above ++ r.above) s).2 ++ calls) s'
  | node l cs, above, s, _, h => by
    rw [tour, List.cons_append]
    rw [tour] at h
    refine .go ?_
    change r.Visits visit (visit s ⟨node l cs, above ++ r.above⟩).1
      ((⟨node l cs, above⟩ : Locus).onward? (visit s ⟨node l cs, above ++ r.above⟩).2) _ s'
    cases henter : (visit s ⟨node l cs, above ++ r.above⟩).2 with
    | false =>
      rw [henter] at h
      exact h
    | true =>
      rw [henter] at h
      exact visits_tourBelow cs (node l cs) above 0 rfl h

theorem visits_tourBelow : ∀ (cs : List Tree) parent above i {s calls}, parent.children.drop i = cs →
    r.Visits visit (tourBelow visit parent (above ++ r.above) i s cs).1 (⟨parent, above⟩ : Locus).after? calls s' →
    r.Visits visit s ((cs.head?.map fun c => ⟨c, ⟨parent, i⟩ :: above⟩).or (⟨parent, above⟩ : Locus).after?)
      ((tourBelow visit parent (above ++ r.above) i s cs).2 ++ calls) s'
  | [], _, _, _, _, _, _, h => h
  | c :: cs, parent, above, i, s, _, hcs, h => by
    have hlater : parent.children.drop (i + 1) = cs := by
      rw [← List.drop_drop, hcs, List.drop_succ_cons, List.drop_zero]
    rw [tourBelow] at h ⊢
    rw [List.append_assoc]
    refine visits_tour c (⟨parent, i⟩ :: above) ?_
    rw [Locus.after?_child, hlater]
    exact visits_tourBelow cs parent above (i + 1) hlater h

end

end Tree

end Loop

/-! ## The places of the recursion -/

namespace Tree

section Places

variable {visit : σ → Locus → σ × Bool} {q : Locus}

mutual

/-- The recursion visits places of the tree, in document order. -/
theorem tour_sublist : ∀ (t : Tree) above (s : σ), ((t.tour visit above s).2.map (·.1)).Sublist (t.loci above)
  | node l cs, above, s => by
    rw [tour, loci, List.map_cons]
    refine List.Sublist.cons_cons _ ?_
    split
    · exact tourBelow_sublist cs (node l cs) above 0 _
    · exact List.nil_sublist _

theorem tourBelow_sublist : ∀ (cs : List Tree) parent above i (s : σ),
    ((tourBelow visit parent above i s cs).2.map (·.1)).Sublist (lociBelow parent above i cs)
  | [], _, _, _, _ => by
    rw [tourBelow]
    exact List.nil_sublist _
  | c :: cs, parent, above, i, s => by
    rw [tourBelow, lociBelow, List.map_append]
    exact (tour_sublist c _ s).append (tourBelow_sublist cs parent above (i + 1) _)

end

/-- What the recursion visits in a tree is a place of it. -/
theorem mem_loci_of_mem_tour {t : Tree} {above : List Crumb} {s : σ} {enter : Bool}
    (h : (q, enter) ∈ (t.tour visit above s).2) : q ∈ t.loci above :=
  (tour_sublist t above s).subset (List.mem_map_of_mem h)

theorem mem_lociBelow_of_mem_tourBelow {cs : List Tree} {parent : Tree} {above : List Crumb} {i : Nat} {s : σ}
    {enter : Bool} (h : (q, enter) ∈ (tourBelow visit parent above i s cs).2) :
    q ∈ lociBelow parent above i cs :=
  (tourBelow_sublist cs parent above i s).subset (List.mem_map_of_mem h)

mutual

/-- **The places that the recursion visits** are those of the tree that are not below a place where the visit
did not want to go on. -/
theorem mem_tour_iff : ∀ (t : Tree) above (s : σ), q ∈ (t.tour visit above s).2.map (·.1) ↔
    q ∈ t.loci above ∧ ∀ a, (a, false) ∈ (t.tour visit above s).2 → ¬q.StandsBelow a
  | node l cs, above, s => by
    have hbelow := mem_tourBelow_iff cs (node l cs) above 0 (visit s ⟨node l cs, above⟩).1
    rw [tour, loci, List.map_cons, List.mem_cons, List.mem_cons]
    cases henter : (visit s ⟨node l cs, above⟩).2 with
    | false =>
      -- Everything but the root is below the root, which is not entered.
      have hroot : q = ⟨node l cs, above⟩ → ¬q.StandsBelow ⟨node l cs, above⟩ := by
        rintro rfl hself
        exact Nat.lt_irrefl _ hself.length_lt
      have hall : q ∈ lociBelow (node l cs) above 0 cs → q.StandsBelow ⟨node l cs, above⟩ :=
        standsBelow_of_mem_lociBelow
      simp only [Bool.false_eq_true, if_false, List.map_nil, List.not_mem_nil, or_false, List.mem_singleton,
        Prod.mk.injEq, and_true, forall_eq]
      exact ⟨fun hq => ⟨Or.inl hq, hroot hq⟩, fun ⟨hq, hnot⟩ => hq.resolve_right fun h => hnot (hall h)⟩
    | true =>
      -- The root is entered, and it is not below a place that is below it.
      have hroot : q = ⟨node l cs, above⟩ →
          ∀ a, (a, false) ∈ (tourBelow visit (node l cs) above 0 (visit s ⟨node l cs, above⟩).1 cs).2 →
            ¬q.StandsBelow a := by
        rintro rfl a ha hself
        have hlt := (standsBelow_of_mem_lociBelow (mem_lociBelow_of_mem_tourBelow ha)).length_lt
        exact Nat.lt_asymm hself.length_lt hlt
      simp only [if_true, hbelow, List.mem_cons, Prod.mk.injEq, Bool.false_eq_true, and_false, false_or]
      exact ⟨fun hq => hq.elim (fun h => ⟨Or.inl h, hroot h⟩) fun h => ⟨Or.inr h.1, h.2⟩,
        fun ⟨hq, hnot⟩ => hq.imp id fun h => ⟨h, hnot⟩⟩

theorem mem_tourBelow_iff : ∀ (cs : List Tree) parent above i (s : σ),
    q ∈ (tourBelow visit parent above i s cs).2.map (·.1) ↔
      q ∈ lociBelow parent above i cs ∧
        ∀ a, (a, false) ∈ (tourBelow visit parent above i s cs).2 → ¬q.StandsBelow a
  | [], _, _, _, _ => by
    simp [tourBelow, lociBelow]
  | c :: cs, parent, above, i, s => by
    have hfirst := mem_tour_iff c (⟨parent, i⟩ :: above) s
    have hrest := mem_tourBelow_iff cs parent above (i + 1) (c.tour visit (⟨parent, i⟩ :: above) s).1
    rw [tourBelow, lociBelow, List.map_append, List.mem_append, List.mem_append, hfirst, hrest]
    simp only [List.mem_append, or_imp, forall_and]
    -- A place is not below one that is visited among the other children.
    have hhere : q ∈ c.loci (⟨parent, i⟩ :: above) →
        ∀ a, (a, false) ∈ (tourBelow visit parent above (i + 1) (c.tour visit (⟨parent, i⟩ :: above) s).1 cs).2 →
          ¬q.StandsBelow a := fun hq a ha =>
      (not_standsBelow_of_mem hq (mem_lociBelow_of_mem_tourBelow ha)).1
    have hlater : q ∈ lociBelow parent above (i + 1) cs →
        ∀ a, (a, false) ∈ (c.tour visit (⟨parent, i⟩ :: above) s).2 → ¬q.StandsBelow a := fun hq a ha =>
      (not_standsBelow_of_mem (mem_loci_of_mem_tour ha) hq).2
    constructor
    · rintro (⟨hq, hnot⟩ | ⟨hq, hnot⟩)
      · exact ⟨Or.inl hq, hnot, hhere hq⟩
      · exact ⟨Or.inr hq, hlater hq, hnot⟩
    · rintro ⟨hq | hq, hnot, hnot'⟩
      · exact Or.inl ⟨hq, hnot⟩
      · exact Or.inr ⟨hq, hnot'⟩

end

end Places

end Tree

/-! ## The visits of a traversal -/

namespace Locus

/-- The loop that begins at a place makes the visits of the recursion over the node there. Behind that node there
is nothing to go on to, since the moves begin as if nothing were above it. -/
theorem visits_tour (r : Locus) (visit : σ → Locus → σ × Bool) (s : σ) :
    r.Visits visit s (some ⟨r.node, []⟩) (r.node.tour visit r.above s).2 (r.node.tour visit r.above s).1 := by
  have hall := Tree.visits_tour (r := r) r.node [] (Visits.stop (r.node.tour visit r.above s).1)
  rw [List.append_nil] at hall
  exact hall

/-- A traversal ends with the state that the recursion ends with. -/
theorem traverse_eq_tour (r : Locus) (visit : σ → Locus → σ × Bool) (s : σ) :
    r.traverse visit s = (r.node.tour visit r.above s).1 :=
  (r.visits_tour visit s).visitFrom_eq

/-- `Prunes whole r calls`: of the tree `whole`, the visits `calls` are at the place `r` and the places below it,
except for those below a place where the visit did not want to go on. -/
structure Prunes (whole : Tree) (r : Locus) (calls : List (Locus × Bool)) : Prop where
  /-- The visits are in document order. -/
  inOrder : (calls.map (·.1)).Sublist (whole.loci [])
  /-- No place is visited twice. -/
  once : (calls.map (·.1)).Nodup
  /-- These places are visited and no others. -/
  mem_iff : ∀ q, q ∈ calls.map (·.1) ↔
    q ∈ whole.loci [] ∧ (q = r ∨ q.StandsBelow r) ∧ ∀ a, (a, false) ∈ calls → ¬q.StandsBelow a

/-- The recursion below a place of a tree leaves out what its visits do not want. -/
theorem prunes_tour {whole : Tree} {r : Locus} (hr : r ∈ whole.loci []) (visit : σ → Locus → σ × Bool) (s : σ) :
    Prunes whole r (r.node.tour visit r.above s).2 := by
  have hsublist : ((r.node.tour visit r.above s).2.map (·.1)).Sublist (whole.loci []) :=
    (Tree.tour_sublist r.node r.above s).trans (Tree.sublist_loci_node whole [] hr)
  refine ⟨hsublist, hsublist.nodup (Tree.nodup_loci whole []), fun q => ?_⟩
  rw [Tree.mem_tour_iff, Tree.mem_loci_node_iff hr, and_assoc]

/-- **The visits of a traversal.** For every visit function, with a state or without, and every place `r` of a
tree, the loop over the moves that begins at `r` ends, and it makes the visits of the recursion over the node
there, with the same states. These are at `r` and below it, never outside, in document order, each place once;
left out is just what stands below a place where the visit did not want to go on.

**Proof sketch.** The loop makes the visits of the recursion in a subtree and then goes on behind it, by
induction on the subtree; behind the whole there is nothing to go on to. For the places visited it is again an
induction on the tree: what is visited among other children is not above a place of this child. -/
theorem traverse_prunes (visit : σ → Locus → σ × Bool) (s : σ) {whole : Tree} {r : Locus} (hr : r ∈ whole.loci []) :
    (∀ calls s', r.Visits visit s (some ⟨r.node, []⟩) calls s' ↔ (s', calls) = r.node.tour visit r.above s) ∧
      r.traverse visit s = (r.node.tour visit r.above s).1 ∧
      Prunes whole r (r.node.tour visit r.above s).2 := by
  have hloop := r.visits_tour visit s
  refine ⟨fun calls s' => ⟨fun h => ?_, fun h => ?_⟩, r.traverse_eq_tour visit s, prunes_tour hr visit s⟩
  · obtain ⟨rfl, rfl⟩ := h.unique hloop
    rfl
  · rw [← h] at hloop
    exact hloop

/-- A listing of the nodes of `a(b(c), d(e)); f();`, without tokens. -/
def callsListing : List Row :=
  [.make 0 1 "program" 0 19 none, .make 1 1 "expression_statement" 0 14 none,
    .make 2 1 "call_expression" 0 13 none, .make 3 1 "identifier" 0 1 "function",
    .make 3 1 "arguments" 1 13 "arguments", .make 4 1 "call_expression" 2 6 none,
    .make 5 1 "identifier" 2 3 "function", .make 5 1 "arguments" 3 6 "arguments", .make 6 1 "identifier" 4 5 none,
    .make 4 1 "call_expression" 8 12 none, .make 5 1 "identifier" 8 9 "function",
    .make 5 1 "arguments" 9 12 "arguments", .make 6 1 "identifier" 10 11 none,
    .make 1 1 "expression_statement" 15 19 none, .make 2 1 "call_expression" 15 18 none,
    .make 3 1 "identifier" 15 16 "function", .make 3 1 "arguments" 16 18 "arguments"]

/-- The tree of these nodes. -/
def callsTree : Tree := (Tree.ofRows? callsListing).get rfl

/-- The place of its first statement. -/
def firstStatement : Locus := ((callsTree.loci [])[1]?).get rfl

/-- Counts calls, and does not go into anything from the second call on. -/
def countCalls (n : Nat) (p : Locus) : Nat × Bool :=
  let n' := if p.node.kind == .callExpression then n + 1 else n
  (n', n' < 2)

/-- In the first statement three calls are visited, but not what is in the second and the third. -/
theorem traverse_prunes_calls :
    firstStatement ∈ callsTree.loci [] ∧ firstStatement.traverse countCalls 0 = 3 ∧
      ∃ calls, firstStatement.Visits countCalls 0 (some ⟨firstStatement.node, []⟩) calls 3 ∧
        calls.map (fun e => (e.1.node.kind.text, e.2)) =
          [("expression_statement", true), ("call_expression", true), ("identifier", true), ("arguments", true),
            ("call_expression", false), ("call_expression", false)] ∧
        Prunes callsTree firstStatement calls := by
  have hin : firstStatement ∈ callsTree.loci [] := List.mem_of_getElem? (Option.some_get _).symm
  obtain ⟨hloop, hstate, hprunes⟩ := traverse_prunes countCalls 0 hin
  exact ⟨hin, hstate, _, (hloop _ _).2 rfl, by decide, hprunes⟩

end Locus

/-! ## Visits that choose by the place -/

namespace Tree

mutual

/-- The places of a tree below the steps `above`, in document order, where only a place that satisfies `enter` is
followed by those below it. -/
def lociWhile (enter : Locus → Bool) (above : List Crumb) : Tree → List Locus
  | node l cs => ⟨node l cs, above⟩ ::
      if enter ⟨node l cs, above⟩ then lociWhileBelow enter (node l cs) above 0 cs else []

/-- The places below `parent`, from its child at position `i` on, entered as by `TestScaffold.Tree.lociWhile`. -/
def lociWhileBelow (enter : Locus → Bool) (parent : Tree) (above : List Crumb) (i : Nat) : List Tree → List Locus
  | [] => []
  | c :: cs => lociWhile enter (⟨parent, i⟩ :: above) c ++ lociWhileBelow enter parent above (i + 1) cs

end

section Choice

variable (f : σ → Locus → σ) (enter : Locus → Bool)

mutual

theorem tour_eq_foldl : ∀ (t : Tree) above (s : σ),
    (t.tour (fun s p => (f s p, enter p)) above s).1 = (t.lociWhile enter above).foldl f s
  | node l cs, above, s => by
    rw [tour, lociWhile, List.foldl_cons]
    cases enter ⟨node l cs, above⟩ with
    | false => rfl
    | true => exact tourBelow_eq_foldl cs (node l cs) above 0 _

theorem tourBelow_eq_foldl : ∀ (cs : List Tree) parent above i (s : σ),
    (tourBelow (fun s p => (f s p, enter p)) parent above i s cs).1 =
      (lociWhileBelow enter parent above i cs).foldl f s
  | [], _, _, _, _ => by
    rw [tourBelow, lociWhileBelow, List.foldl_nil]
  | c :: cs, parent, above, i, s => by
    rw [tourBelow, lociWhileBelow, List.foldl_append, ← tour_eq_foldl c (⟨parent, i⟩ :: above) s]
    exact tourBelow_eq_foldl cs parent above (i + 1) _

end

mutual

/-- If every place is entered, no place is left out. -/
theorem lociWhile_true : ∀ (t : Tree) above, t.lociWhile (fun _ => true) above = t.loci above
  | node l cs, above => by
    rw [lociWhile, loci, if_pos rfl, lociWhileBelow_true cs]

theorem lociWhileBelow_true : ∀ (cs : List Tree) parent above i,
    lociWhileBelow (fun _ => true) parent above i cs = lociBelow parent above i cs
  | [], _, _, _ => by
    rw [lociWhileBelow, lociBelow]
  | c :: cs, parent, above, i => by
    rw [lociWhileBelow, lociBelow, lociWhile_true c, lociWhileBelow_true cs]

end

end Choice

section Nodes

variable {enter : Locus → Bool} {enterNode : Tree → Bool}

mutual

theorem map_node_lociWhile_cons (henter : ∀ t c above, enter ⟨t, c :: above⟩ = enterNode t) :
    ∀ (t : Tree) c above, (t.lociWhile enter (c :: above)).map (·.node) = t.preorderWhile enterNode
  | node l cs, c, above => by
    rw [lociWhile, preorderWhile, List.map_cons, henter]
    cases enterNode (node l cs) with
    | false => rfl
    | true => rw [if_pos rfl, if_pos rfl, map_node_lociWhileBelow henter cs]

/-- If it depends on a node alone whether it is entered, except for the root, then the nodes at the places that are
gone through below the root are those that are gone through without a look at their places. -/
theorem map_node_lociWhileBelow (henter : ∀ t c above, enter ⟨t, c :: above⟩ = enterNode t) :
    ∀ (cs : List Tree) parent above i,
      (lociWhileBelow enter parent above i cs).map (·.node) = preorderWhileAll enterNode cs
  | [], _, _, _ => by
    rw [lociWhileBelow, preorderWhileAll, List.map_nil]
  | c :: cs, parent, above, i => by
    rw [lociWhileBelow, preorderWhileAll, List.map_append, map_node_lociWhile_cons henter c,
      map_node_lociWhileBelow henter cs]

end

/-- If it depends on a node alone whether it is entered, then the nodes at the places that are gone through are those
that are gone through without a look at their places. -/
theorem map_node_lociWhile (enterNode : Tree → Bool) (t : Tree) :
    (t.lociWhile (fun p => enterNode p.node) []).map (·.node) = t.preorderWhile enterNode := by
  obtain ⟨l, cs⟩ := t
  rw [lociWhile, preorderWhile, List.map_cons]
  cases enterNode (node l cs) with
  | false => rfl
  | true => rw [if_pos rfl, if_pos rfl, map_node_lociWhileBelow fun _ _ _ => rfl]

end Nodes

end Tree

/-- **A traversal whose visits choose by the place alone** takes in the places in document order, leaving out those
below a place that is not to be entered. -/
theorem Locus.traverse_eq_foldl (f : σ → Locus → σ) (enter : Locus → Bool) (s : σ) (r : Locus) :
    r.traverse (fun s p => (f s p, enter p)) s = (r.node.lociWhile enter r.above).foldl f s := by
  rw [Locus.traverse_eq_tour]
  exact Tree.tour_eq_foldl f enter r.node r.above s

/-- **A traversal whose visits choose by the node alone** takes in the nodes in document order, leaving out what
stands below those that are not to be entered. -/
theorem Tree.traverse_eq_foldl {σ : Type} (f : σ → Tree → σ) (enter : Tree → Bool) (s : σ) (t : Tree) :
    t.traverse (fun s u => (f s u, enter u)) s = (t.preorderWhile enter).foldl f s := by
  rw [traverse, Locus.traverse_eq_foldl, ← map_node_lociWhile, List.foldl_map]

end TestScaffold
