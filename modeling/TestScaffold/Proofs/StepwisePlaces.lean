import TestScaffold.Syntax.Locus

set_option autoImplicit false

/-!
# Places that certain steps lead to

A function over a syntax tree often goes on below some nodes only: below a node that it enters, or to the child
in one role. What it reads is then read at the places that steps of this kind lead to, in document order. This
turns a recursion over a tree into a selection among all its places.

## Main results

* `TestScaffold.Tree.flatMap_filter_loci` — what a recursion reads, by the places it gets to.
* `TestScaffold.flatMap_filter_zipIdx` — children that are chosen by what they are.
* `TestScaffold.map_fst_filter_zipIdx` — the child that is chosen as the first of its sort.

## Implementation notes

Two equal trees may stand at different places, so nodes are told apart by the steps that lead to them. The first
step may be of another sort than the later ones: a way is good or not as a whole, and only behind its first step
does this go step by step.
-/

namespace TestScaffold

namespace Tree

section Stepwise

variable {β : Type} (good : List Crumb → Bool) (step : Crumb → Bool) (head : Tree → List β) {f : Tree → List β}

/-- What is read below a node is read below those of its children that good ways lead to, if this is so for each
child. -/
theorem flatMap_filter_lociBelow (parent : Tree) (above : List Crumb) (cs : List Tree) (i : Nat)
    (h : ∀ c ∈ cs, ∀ d above, ((c.loci (d :: above)).filter fun p => good p.above).flatMap (fun p => head p.node) =
      if good (d :: above) then f c else []) :
    ((lociBelow parent above i cs).filter fun p => good p.above).flatMap (fun p => head p.node) =
      ((cs.zipIdx i).filter fun e => good (⟨parent, e.2⟩ :: above)).flatMap fun e => f e.1 := by
  induction cs generalizing i with
  | nil => rfl
  | cons c cs ih =>
    have hhere := h c List.mem_cons_self ⟨parent, i⟩ above
    have hrest := ih (i + 1) fun d hd => h d (List.mem_cons_of_mem c hd)
    rw [lociBelow, List.filter_append, List.flatMap_append, hhere, hrest, List.zipIdx_cons, List.filter_cons]
    cases good (⟨parent, i⟩ :: above) <;> simp

variable (hgood : ∀ c d above, good (c :: d :: above) = (step c && good (d :: above)))
  (hf : ∀ t : Tree, f t = head t ++ (t.children.zipIdx.filter fun e => step ⟨t, e.2⟩).flatMap fun e => f e.1)

include hgood hf

/-- What a recursion reads below a place is read at the places that it gets to from there. -/
theorem flatMap_filter_loci_cons (t : Tree) (d : Crumb) (above : List Crumb) :
    ((t.loci (d :: above)).filter fun p => good p.above).flatMap (fun p => head p.node) =
      if good (d :: above) then f t else [] := by
  induction t using inductionOn_children generalizing d above with
  | h t ih =>
    obtain ⟨l, cs⟩ := t
    have hbelow := flatMap_filter_lociBelow good head (node l cs) (d :: above) cs 0 ih
    simp only [hgood] at hbelow
    rw [loci, List.filter_cons]
    cases hhere : good (d :: above) with
    | true =>
      simp only [hhere, Bool.and_true] at hbelow
      rw [if_pos rfl, if_pos rfl, List.flatMap_cons, hbelow, hf]
      rfl
    | false =>
      simp only [hhere, Bool.and_false] at hbelow
      rw [if_neg Bool.false_ne_true, if_neg Bool.false_ne_true, hbelow]
      simp

/-- **What a recursion reads** is read at the places that it gets to, in document order. -/
theorem flatMap_filter_loci (hroot : good [] = true) (t : Tree) :
    ((t.loci []).filter fun p => good p.above).flatMap (fun p => head p.node) =
      head t ++ (t.children.zipIdx.filter fun e => good [⟨t, e.2⟩]).flatMap fun e => f e.1 := by
  obtain ⟨l, cs⟩ := t
  have hbelow := flatMap_filter_lociBelow good head (node l cs) [] cs 0
    fun c _ => flatMap_filter_loci_cons good step head hgood hf c
  rw [loci, List.filter_cons, if_pos hroot, List.flatMap_cons, hbelow]
  rfl

end Stepwise

end Tree

/-! ## Choosing by position -/

section ZipIdx

variable {α β : Type} {xs : List α}

/-- What is read of some entries only is read of these. -/
theorem flatMap_ite_singleton (p : α → Bool) (g : α → β) :
    xs.flatMap (fun x => if p x then [g x] else []) = (xs.filter p).map g := by
  induction xs with
  | nil => rfl
  | cons x xs ih =>
    rw [List.flatMap_cons, List.filter_cons, ih]
    cases p x <;> rfl

/-- Entries that are chosen by what they are may be chosen with their positions. -/
theorem flatMap_filter_zipIdx (p : α → Bool) (g : α → List β) (k : Nat) :
    ((xs.zipIdx k).filter fun e => p e.1).flatMap (fun e => g e.1) = (xs.filter p).flatMap g := by
  induction xs generalizing k with
  | nil => rfl
  | cons x xs ih =>
    rw [List.zipIdx_cons, List.filter_cons, List.filter_cons]
    cases p x <;> simp [ih]

/-- The entry that stands where the first one with a property does is this one. -/
theorem map_fst_filter_zipIdx (p : α → Bool) (k : Nat) :
    ((xs.zipIdx k).filter fun e => (xs.findIdx? p).map (· + k) == some e.2).map (·.1) = (xs.find? p).toList := by
  induction xs generalizing k with
  | nil => rfl
  | cons x xs ih =>
    rw [List.zipIdx_cons, List.findIdx?_cons, List.find?_cons]
    cases hx : p x with
    | true =>
      have hrest : ((xs.zipIdx (k + 1)).filter fun e => k == e.2) = [] := by
        rw [List.filter_eq_nil_iff]
        intro e he heq
        have hle := List.le_snd_of_mem_zipIdx he
        simp only [beq_iff_eq] at heq
        omega
      simp [hrest]
    | false =>
      have hshift : ∀ e : α × Nat, (((xs.findIdx? p).map (· + 1)).map (· + k) == some e.2) =
          ((xs.findIdx? p).map (· + (k + 1)) == some e.2) := by
        intro e
        cases xs.findIdx? p with
        | none => rfl
        | some i => simp [Nat.add_assoc, Nat.add_comm 1 k]
      have hhead : (((xs.findIdx? p).map (· + 1)).map (· + k) == some k) = false := by
        cases xs.findIdx? p with
        | none => rfl
        | some i => simp
      rw [if_neg Bool.false_ne_true, List.filter_cons_of_neg (by rw [hhead]; exact Bool.false_ne_true),
        List.filter_congr fun e _ => hshift e]
      exact ih (k + 1)

end ZipIdx

end TestScaffold
