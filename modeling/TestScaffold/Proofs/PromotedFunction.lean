import Mathlib.Order.Bounds.Basic
import TestScaffold.Proofs.Insertion
import TestScaffold.Proofs.Selection

set_option autoImplicit false

/-!
# The promoted function

Promotion goes by positions: several functions may have one name, and a function may have its own name in its
qualifier. A function counts as referred to only if one at another position is attached to it, and of all that
are referred to the last one is promoted.

## Main definitions

* `TestScaffold.ReferredTo` — another function is attached to the one at a position.

## Main results

* `TestScaffold.promotedIndex?_eq_some_iff_isGreatest`, `TestScaffold.promotedIndex?_eq_none_iff` — where the
  promoted function stands, and when there is none.
* `TestScaffold.promoteConstructor_eq_set` — promotion replaces the role at this position and nothing else.
* `TestScaffold.getElem?_promoteConstructor_of_not_referredTo` — no function is promoted without being referred
  to.
* `TestScaffold.last_referred_promoted` — all of this for any list of functions.
-/

namespace TestScaffold

variable {functions : List FunctionUnit}

/-- A function at another position has the name of the one at position `i` in its qualifier. -/
def ReferredTo (functions : List FunctionUnit) (i : Nat) : Prop :=
  ∃ g, functions[i]? = some g ∧ ∃ j f, functions[j]? = some f ∧ j ≠ i ∧ g.name ∈ f.qualifier

/-- The promoted function stands at the greatest position that is referred to. -/
theorem promotedIndex?_eq_some_iff_isGreatest {k : Nat} :
    promotedIndex? functions = some k ↔ IsGreatest {i | ReferredTo functions i} k := by
  rw [promotedIndex?_eq_some_iff]
  simp only [isReferencedAt_iff]
  rfl

/-- No function is promoted if and only if none is referred to. -/
theorem promotedIndex?_eq_none_iff :
    promotedIndex? functions = none ↔ ∀ i, ¬ReferredTo functions i := by
  constructor
  · intro hnone i hi
    obtain ⟨k, hk⟩ := exists_promotedIndex? (isReferencedAt_iff.2 hi)
    rw [hnone] at hk
    cases hk
  · intro hnone
    cases hindex : promotedIndex? functions with
    | none => rfl
    | some k => exact absurd (promotedIndex?_eq_some_iff_isGreatest.1 hindex).1 (hnone k)

/-- At every other position than the promoted one the functions stay as they are. -/
theorem getElem?_promoteConstructor_of_ne {i : Nat} (h : promotedIndex? functions ≠ some i) :
    (promoteConstructor functions)[i]? = functions[i]? := by
  rw [getElem?_promoteConstructor]
  simp only [if_neg h, Option.map_id_fun', id]

/-- Promotion replaces the role at the promoted position and nothing else. -/
theorem promoteConstructor_eq_set {k : Nat} {g : FunctionUnit} (hk : promotedIndex? functions = some k)
    (hg : functions[k]? = some g) :
    promoteConstructor functions = functions.set k { g with role := .constructor } := by
  refine List.ext_getElem? fun i => ?_
  by_cases hi : k = i
  · subst hi
    rw [List.getElem?_set_self (List.getElem?_eq_some_iff.1 hg).1, getElem?_promoteConstructor, hg,
      Option.map_some, if_pos hk]
  · rw [List.getElem?_set_ne hi, getElem?_promoteConstructor_of_ne]
    intro hother
    exact hi (Option.some.inj (hk.symm.trans hother))

/-- A function that is not referred to stays as it is. -/
theorem getElem?_promoteConstructor_of_not_referredTo {i : Nat} (h : ¬ReferredTo functions i) :
    (promoteConstructor functions)[i]? = functions[i]? := by
  apply getElem?_promoteConstructor_of_ne
  intro hi
  exact h (promotedIndex?_eq_some_iff_isGreatest.1 hi).1

/-- **The last function that is referred to is promoted.** Either some function is referred to: then the last
one becomes a constructor, and the list stays as it is in all other respects. Or none is, and the list stays as it
is altogether. A function whose name is in no other qualifier than its own is never promoted.

**Proof sketch.** The positions that are referred to are searched in increasing order, so that the last one found
is the greatest. At all positions but this one the list is the same before and after. -/
theorem last_referred_promoted (functions : List FunctionUnit) :
    ((∃ k g, IsGreatest {i | ReferredTo functions i} k ∧ functions[k]? = some g ∧
          promoteConstructor functions = functions.set k { g with role := .constructor }) ∨
        (∀ i, ¬ReferredTo functions i) ∧ promoteConstructor functions = functions) ∧
      ∀ (i : Nat) (g : FunctionUnit), functions[i]? = some g →
        (∀ (j : Nat) (f : FunctionUnit), functions[j]? = some f → g.name ∈ f.qualifier → j = i) →
          (promoteConstructor functions)[i]? = some g := by
  refine ⟨?_, fun i g hg hown => ?_⟩
  · cases hindex : promotedIndex? functions with
    | some k =>
      have hgreatest := promotedIndex?_eq_some_iff_isGreatest.1 hindex
      obtain ⟨g, hg, -⟩ := id hgreatest.1
      exact Or.inl ⟨k, g, hgreatest, hg, promoteConstructor_eq_set hindex hg⟩
    | none =>
      refine Or.inr ⟨promotedIndex?_eq_none_iff.1 hindex, ?_⟩
      rw [promoteConstructor, hindex]
  · have hnot : ¬ReferredTo functions i := by
      rintro ⟨g', hg', j, f, hf, hne, hmem⟩
      obtain rfl := Option.some.inj (hg.symm.trans hg')
      exact hne (hown j f hf hmem)
    rw [getElem?_promoteConstructor_of_not_referredTo hnot, hg]

/-- Two functions of one name that a third one is attached to, and a function that is attached to itself. -/
def repeatedOwners : List FunctionUnit :=
  [attachedFunction "A" [], attachedFunction "run" ["A"], attachedFunction "A" [],
    attachedFunction "loop" ["loop"]].map (·.unit)

/-- The second of the two functions with the same name is promoted, and the last function is not. -/
theorem last_referred_promoted_repeated :
    (∀ (j : Nat) (f : FunctionUnit), repeatedOwners[j]? = some f → "loop" ∈ f.qualifier → j = 3) ∧
      (promoteConstructor repeatedOwners)[3]? = repeatedOwners[3]? ∧
      (promoteConstructor repeatedOwners).map (·.role) = [.function, .function, .constructor, .function] := by
  have hown : ∀ (j : Nat) (f : FunctionUnit),
      repeatedOwners[j]? = some f → "loop" ∈ f.qualifier → j = 3 := by
    intro j f hf hmem
    match j with
    | 0 | 1 | 2 =>
      obtain rfl := Option.some.inj hf
      exact absurd hmem (by decide)
    | 3 => rfl
    | j + 4 => cases hf
  exact ⟨hown, (last_referred_promoted repeatedOwners).2 3 _ rfl hown, by decide⟩

end TestScaffold
