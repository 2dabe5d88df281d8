import Mathlib.Data.List.Infix
import Mathlib.Data.List.Nodup
import TestScaffold.Syntax.Locus

set_option autoImplicit false

/-!
# Places below another place

The places of a tree are told apart by the steps that lead to them. So one place is below another exactly if
the steps to it go through the other one, and the places of a subtree are those of the whole tree at and below
its root.

## Main definitions

* `TestScaffold.Locus.StandsBelow` — a place is below another.

## Main results

* `TestScaffold.Tree.nodup_loci` — a tree has each of its places once.
* `TestScaffold.Tree.mem_loci_node_iff` — the places of a subtree.
-/

namespace TestScaffold

/-- `q.StandsBelow a`: one of the steps that lead to `q` is taken at `a`. -/
def Locus.StandsBelow (q a : Locus) : Prop :=
  ∃ steps i, q.above = steps ++ ⟨a.node, i⟩ :: a.above

namespace Locus.StandsBelow

variable {q a : Locus}

/-- The steps to a place end with those to any place it is below. -/
theorem isSuffix (h : q.StandsBelow a) : a.above <:+ q.above := by
  obtain ⟨steps, i, hsteps⟩ := h
  rw [hsteps]
  exact (List.suffix_cons _ _).trans (List.suffix_append _ _)

/-- More steps lead to a place than to any place it is below. -/
theorem length_lt (h : q.StandsBelow a) : a.above.length < q.above.length := by
  obtain ⟨steps, i, hsteps⟩ := h
  rw [hsteps, List.length_append, List.length_cons]
  omega

end Locus.StandsBelow

namespace Tree

variable {parent : Tree} {above : List Crumb} {q r : Locus}

/-! ## Steps to a place -/

mutual

/-- The places of a tree have the steps to its root above them. -/
theorem isSuffix_of_mem_loci : ∀ t : Tree, ∀ above, q ∈ t.loci above → above <:+ q.above
  | node l cs, above, h => by
    rw [loci, List.mem_cons] at h
    rcases h with rfl | h
    · exact List.suffix_rfl
    · obtain ⟨j, -, hj⟩ := isSuffix_of_mem_lociBelow cs (node l cs) above 0 h
      exact (List.suffix_cons _ _).trans hj

/-- The steps to a place below some children of a node go through one of these children. -/
theorem isSuffix_of_mem_lociBelow : ∀ cs : List Tree, ∀ parent above i,
    q ∈ lociBelow parent above i cs → ∃ j, i ≤ j ∧ ⟨parent, j⟩ :: above <:+ q.above
  | [], _, _, _, h => by
    rw [lociBelow] at h
    cases h
  | c :: cs, parent, above, i, h => by
    rw [lociBelow, List.mem_append] at h
    rcases h with h | h
    · exact ⟨i, Nat.le_refl i, isSuffix_of_mem_loci c _ h⟩
    · obtain ⟨j, hj, hsteps⟩ := isSuffix_of_mem_lociBelow cs parent above (i + 1) h
      exact ⟨j, Nat.le_of_succ_le hj, hsteps⟩

end

/-- What stands below the children of a node stands below the node. -/
theorem standsBelow_of_mem_lociBelow {i : Nat} {cs : List Tree} (h : q ∈ lociBelow parent above i cs) :
    q.StandsBelow ⟨parent, above⟩ := by
  obtain ⟨j, -, steps, hsteps⟩ := isSuffix_of_mem_lociBelow cs parent above i h
  exact ⟨steps, j, hsteps.symm⟩

/-- The places of a tree are its root and places below it. -/
theorem eq_or_standsBelow_of_mem_loci {t : Tree} (h : q ∈ t.loci above) :
    q = ⟨t, above⟩ ∨ q.StandsBelow ⟨t, above⟩ := by
  obtain ⟨l, cs⟩ := t
  rw [loci, List.mem_cons] at h
  exact h.imp id standsBelow_of_mem_lociBelow

/-- The steps to a place go through one child of a node at most. -/
theorem eq_of_isSuffix {steps : List Crumb} {i j : Nat} (hi : ⟨parent, i⟩ :: above <:+ steps)
    (hj : ⟨parent, j⟩ :: above <:+ steps) : i = j := by
  have hle : (⟨parent, i⟩ :: above : List Crumb).length ≤ (⟨parent, j⟩ :: above : List Crumb).length := by simp
  have hsame := (List.suffix_of_suffix_length_le hi hj hle).eq_of_length (by simp)
  exact congrArg Crumb.index (List.cons.inj hsame).1

/-- Places below different children of a node are not below each other. -/
theorem not_standsBelow_of_isSuffix {i j : Nat} (hne : i ≠ j) (hq : ⟨parent, i⟩ :: above <:+ q.above)
    (hr : ⟨parent, j⟩ :: above <:+ r.above) : ¬q.StandsBelow r := fun hbelow =>
  hne (eq_of_isSuffix hq (hr.trans hbelow.isSuffix))

/-- No place below a later child is below a place of this child, nor the other way round. -/
theorem not_standsBelow_of_mem {c : Tree} {cs : List Tree} {i : Nat} (hq : q ∈ c.loci (⟨parent, i⟩ :: above))
    (hr : r ∈ lociBelow parent above (i + 1) cs) : ¬q.StandsBelow r ∧ ¬r.StandsBelow q := by
  obtain ⟨j, hj, hsteps⟩ := isSuffix_of_mem_lociBelow cs parent above (i + 1) hr
  have hhere := isSuffix_of_mem_loci c _ hq
  have hne : i ≠ j := Nat.ne_of_lt hj
  exact ⟨not_standsBelow_of_isSuffix hne hhere hsteps, not_standsBelow_of_isSuffix hne.symm hsteps hhere⟩

mutual

/-- **A tree has each of its places once.** -/
theorem nodup_loci : ∀ (t : Tree) above, (t.loci above).Nodup
  | node l cs, above => by
    rw [loci, List.nodup_cons]
    refine ⟨fun hroot => ?_, nodup_lociBelow cs (node l cs) above 0⟩
    exact Nat.lt_irrefl _ (standsBelow_of_mem_lociBelow hroot).length_lt

theorem nodup_lociBelow : ∀ (cs : List Tree) parent above i, (lociBelow parent above i cs).Nodup
  | [], _, _, _ => by
    rw [lociBelow]
    exact List.nodup_nil
  | c :: cs, parent, above, i => by
    rw [lociBelow, List.nodup_append']
    refine ⟨nodup_loci c _, nodup_lociBelow cs parent above (i + 1), fun p hhere hlater => ?_⟩
    obtain ⟨j, hj, hsteps⟩ := isSuffix_of_mem_lociBelow cs parent above (i + 1) hlater
    exact Nat.ne_of_lt hj (eq_of_isSuffix (isSuffix_of_mem_loci c _ hhere) hsteps)

end

/-! ## Subtrees -/

mutual

/-- The places of a subtree stand among those of the tree, in the same order. -/
theorem sublist_loci_node : ∀ (t : Tree) above, r ∈ t.loci above →
    (r.node.loci r.above).Sublist (t.loci above)
  | node l cs, above, h => by
    rw [loci, List.mem_cons] at h
    rcases h with rfl | h
    · exact List.Sublist.refl _
    · rw [loci]
      exact (sublist_lociBelow_node cs (node l cs) above 0 h).cons _

theorem sublist_lociBelow_node : ∀ (cs : List Tree) parent above i, r ∈ lociBelow parent above i cs →
    (r.node.loci r.above).Sublist (lociBelow parent above i cs)
  | [], _, _, _, h => by
    rw [lociBelow] at h
    cases h
  | c :: cs, parent, above, i, h => by
    rw [lociBelow, List.mem_append] at h
    rw [lociBelow]
    rcases h with h | h
    · exact (sublist_loci_node c _ h).trans (List.sublist_append_left _ _)
    · exact (sublist_lociBelow_node cs parent above (i + 1) h).trans (List.sublist_append_right _ _)

end

mutual

/-- What stands below a place of a tree is in the subtree there. -/
theorem mem_loci_node_of_standsBelow (hbelow : q.StandsBelow r) : ∀ (t : Tree) above,
    r ∈ t.loci above → q ∈ t.loci above → q ∈ r.node.loci r.above
  | node l cs, above, hr, hq => by
    rw [loci, List.mem_cons] at hr
    rcases hr with rfl | hr
    · exact hq
    · rw [loci, List.mem_cons] at hq
      rcases hq with rfl | hq
      · -- The root is not below a place that is below the root.
        have hlt := hbelow.length_lt
        exact absurd (standsBelow_of_mem_lociBelow hr).length_lt (Nat.lt_asymm hlt)
      · exact mem_loci_node_of_standsBelow_below hbelow cs (node l cs) above 0 hr hq

theorem mem_loci_node_of_standsBelow_below (hbelow : q.StandsBelow r) : ∀ (cs : List Tree) parent above i,
    r ∈ lociBelow parent above i cs → q ∈ lociBelow parent above i cs → q ∈ r.node.loci r.above
  | [], _, _, _, hr, _ => by
    rw [lociBelow] at hr
    cases hr
  | c :: cs, parent, above, i, hr, hq => by
    rw [lociBelow, List.mem_append] at hr hq
    rcases hr with hr | hr <;> rcases hq with hq | hq
    · exact mem_loci_node_of_standsBelow hbelow c _ hr hq
    · exact absurd hbelow (not_standsBelow_of_mem hr hq).2
    · exact absurd hbelow (not_standsBelow_of_mem hq hr).1
    · exact mem_loci_node_of_standsBelow_below hbelow cs parent above (i + 1) hr hq

end

/-- **The places of a subtree** are its root and the places of the whole tree below that. -/
theorem mem_loci_node_iff {whole : Tree} (hr : r ∈ whole.loci []) :
    q ∈ r.node.loci r.above ↔ q ∈ whole.loci [] ∧ (q = r ∨ q.StandsBelow r) := by
  constructor
  · intro hq
    exact ⟨(sublist_loci_node whole [] hr).subset hq, eq_or_standsBelow_of_mem_loci hq⟩
  · rintro ⟨hq, rfl | hbelow⟩
    · obtain ⟨⟨l, cs⟩, above⟩ := q
      rw [loci]
      exact List.mem_cons_self
    · exact mem_loci_node_of_standsBelow hbelow whole [] hr hq

end Tree

end TestScaffold
