import Mathlib.Data.List.Induction
import Mathlib.Data.List.Nodup

set_option autoImplicit false

/-!
# First occurrences

Names, specifiers, lines and paths are written once: of several entries with the same key the first one is
kept. This module has the facts about keeping first occurrences that the rest of the theory rests on.

## Main definitions

* `TestScaffold.FirstOccurrences` — a list holds the entries of another, each once, as they occur first.

## Main results

* `TestScaffold.firstOccurrences_iff` — there is one such list, and leaving repeated entries out gives it.
* `TestScaffold.eraseDupsBy_map`, `TestScaffold.eraseDups_map` — keeping first keys is keeping the entries that
  come first with their key.
* `TestScaffold.eraseDupsBy_sublist` — what is kept stays in order.
* `TestScaffold.pairwise_zipIdx` — positions increase from one entry to the next.
* `TestScaffold.nodup_eraseDups`, `TestScaffold.nodup_map_eraseDupsBy` — no key is left twice.
* `TestScaffold.eraseDups_append_singleton` — one more entry is kept if it is new.
* `TestScaffold.eraseDups_append_of_subset` — entries that occur before add nothing.
* `TestScaffold.eraseDups_append_congr`, `TestScaffold.eraseDups_flatMap_eraseDups` — repeated entries may be
  left out of the parts of a list first.
* `TestScaffold.eraseDups_filter` — it does not matter whether entries are left out before or after.
* `TestScaffold.eraseDupsBy_eq_self_iff` — all entries are kept if no two have the same key.
-/

namespace TestScaffold

section FirstOccurrences

variable {α β : Type}

/-- What is left of the images of entries is the images of the entries that are left. -/
theorem eraseDupsBy_map (f : α → β) (r : β → β → Bool) :
    ∀ xs : List α, (xs.map f).eraseDupsBy r = (xs.eraseDupsBy fun a b => r (f a) (f b)).map f
  | [] => rfl
  | x :: xs => by
    have hlen := List.length_filter_le (fun b => !r (f b) (f x)) xs
    rw [List.map_cons, List.eraseDupsBy_cons, List.eraseDupsBy_cons, List.map_cons, List.filter_map,
      ← eraseDupsBy_map f r]
    rfl
termination_by xs => xs.length

/-- The first occurrences among the keys are the keys of the entries that are the first with theirs. -/
theorem eraseDups_map [BEq β] (key : α → β) (xs : List α) :
    (xs.map key).eraseDups = (xs.eraseDupsBy fun a b => key a == key b).map key :=
  eraseDupsBy_map key (· == ·) xs

/-- Leaving entries out adds none and keeps the order. -/
theorem eraseDupsBy_sublist (r : α → α → Bool) : ∀ xs : List α, (xs.eraseDupsBy r).Sublist xs
  | [] => List.Sublist.refl []
  | x :: xs => by
    have hlen := List.length_filter_le (fun b => !r b x) xs
    rw [List.eraseDupsBy_cons]
    exact ((eraseDupsBy_sublist r _).trans List.filter_sublist).cons_cons x
termination_by xs => xs.length

/-- Entries of a list stand in the order of their positions. -/
theorem pairwise_zipIdx (xs : List α) : xs.zipIdx.Pairwise fun x y => x.2 < y.2 := by
  rw [← List.pairwise_map (f := Prod.snd), List.zipIdx_map_snd]
  exact List.pairwise_lt_range'

/-- Something is kept of every list that has an entry. -/
theorem eraseDupsBy_eq_nil_iff {r : α → α → Bool} {xs : List α} : xs.eraseDupsBy r = [] ↔ xs = [] := by
  cases xs with
  | nil => rw [List.eraseDupsBy_nil]
  | cons x xs => simp [List.eraseDupsBy_cons]

variable [BEq α] [LawfulBEq α]

/-- First occurrences are pairwise distinct. -/
theorem nodup_eraseDups : ∀ xs : List α, xs.eraseDups.Nodup
  | [] => List.nodup_nil
  | x :: xs => by
    have hlen := List.length_filter_le (fun b => !b == x) xs
    rw [List.eraseDups_cons, List.nodup_cons]
    refine ⟨fun hx => ?_, nodup_eraseDups _⟩
    rw [List.mem_eraseDups, List.mem_filter] at hx
    simp at hx
termination_by xs => xs.length

/-- One more entry is kept as the last one unless it occurs before. -/
theorem eraseDups_append_singleton (xs : List α) (x : α) :
    (xs ++ [x]).eraseDups = if x ∈ xs then xs.eraseDups else xs.eraseDups ++ [x] := by
  rw [List.eraseDups_append]
  split
  · next hx => simp [List.removeAll, hx]
  · next hx => simp [List.removeAll, hx, List.eraseDups_cons]

/-- Entries all of which occur before add nothing. -/
theorem eraseDups_append_of_subset {xs ys : List α} (h : ys ⊆ xs) :
    (xs ++ ys).eraseDups = xs.eraseDups := by
  have hnew : ys.removeAll xs = [] := by
    rw [List.removeAll, List.filter_eq_nil_iff]
    intro y hy
    simpa using h hy
  rw [List.eraseDups_append, hnew, List.eraseDups_nil, List.append_nil]

/-- A filter may be applied before or after repeated entries are left out. -/
theorem eraseDups_filter (p : α → Bool) (xs : List α) :
    (xs.filter p).eraseDups = xs.eraseDups.filter p := by
  induction xs using List.reverseRecOn with
  | nil => rfl
  | append_singleton xs x ih =>
    rw [List.filter_append, eraseDups_append_singleton]
    cases hp : p x with
    | false =>
      have hnone : [x].filter p = [] := by simp [hp]
      rw [hnone, List.append_nil, ih]
      split
      · rfl
      · rw [List.filter_append, hnone, List.append_nil]
    | true =>
      have hkept : [x].filter p = [x] := by simp [hp]
      have hmem : x ∈ xs.filter p ↔ x ∈ xs := by simp [hp]
      rw [hkept, eraseDups_append_singleton, ih]
      by_cases hx : x ∈ xs
      · rw [if_pos hx, if_pos (hmem.2 hx)]
      · rw [if_neg hx, if_neg (hx ∘ hmem.1), List.filter_append, hkept]

/-- Which entries of two lists are kept does not depend on repetitions in either. -/
theorem eraseDups_append_congr {xs xs' ys ys' : List α} (hxs : xs.eraseDups = xs'.eraseDups)
    (hys : ys.eraseDups = ys'.eraseDups) : (xs ++ ys).eraseDups = (xs' ++ ys').eraseDups := by
  have hmem : ∀ y, y ∈ xs ↔ y ∈ xs' := fun y => by
    rw [← List.mem_eraseDups, hxs, List.mem_eraseDups]
  have hnew : ∀ y, (!xs.elem y) = !xs'.elem y := fun y => by
    simp [hmem y]
  rw [List.eraseDups_append, List.eraseDups_append, List.removeAll, List.removeAll, eraseDups_filter,
    eraseDups_filter, hxs, hys]
  simp only [hnew]

/-- `FirstOccurrences xs firsts`: the list `firsts` has the entries of `xs`, each of them once and in the order
in which they occur first. -/
structure FirstOccurrences (xs firsts : List α) : Prop where
  /-- No entry is listed twice. -/
  nodup : firsts.Nodup
  /-- Exactly the entries of `xs` are listed. -/
  mem_iff : ∀ x, x ∈ firsts ↔ x ∈ xs
  /-- An entry stands before another one if its first occurrence does. -/
  ordered : firsts.Pairwise fun x y => xs.idxOf x < xs.idxOf y

/-- What is left when repeated entries are left out stands in the order of first occurrences. -/
theorem pairwise_idxOf_eraseDups (xs : List α) :
    xs.eraseDups.Pairwise fun x y => xs.idxOf x < xs.idxOf y := by
  induction xs using List.reverseRecOn with
  | nil => exact .nil
  | append_singleton xs x ih =>
    -- one more entry at the end does not move the first occurrences of the others
    have hbefore : xs.eraseDups.Pairwise fun y z => (xs ++ [x]).idxOf y < (xs ++ [x]).idxOf z := by
      refine ih.imp_of_mem fun hy hz hlt => ?_
      rw [List.mem_eraseDups] at hy hz
      rwa [List.idxOf_append_of_mem hy, List.idxOf_append_of_mem hz]
    rw [eraseDups_append_singleton]
    split
    · exact hbefore
    · next hx =>
      refine List.pairwise_append.2 ⟨hbefore, List.pairwise_singleton _ _, fun y hy z hz => ?_⟩
      rw [List.mem_eraseDups] at hy
      rw [List.mem_singleton.1 hz, List.idxOf_append_of_mem hy, List.idxOf_append, if_neg hx]
      exact Nat.lt_add_left _ (List.idxOf_lt_length_iff.2 hy)

/-- **First occurrences are unique**: the list of them is what is left when repeated entries are left out. -/
theorem firstOccurrences_iff {xs firsts : List α} :
    FirstOccurrences xs firsts ↔ firsts = xs.eraseDups := by
  constructor
  · intro h
    have hperm : firsts.Perm xs.eraseDups :=
      (List.perm_ext_iff_of_nodup h.nodup (nodup_eraseDups xs)).2 fun x => by
        rw [h.mem_iff, List.mem_eraseDups]
    exact hperm.eq_of_pairwise (fun _ _ _ _ hlt hgt => absurd hlt (Nat.lt_asymm hgt)) h.ordered
      (pairwise_idxOf_eraseDups xs)
  · rintro rfl
    exact ⟨nodup_eraseDups xs, fun _ => List.mem_eraseDups, pairwise_idxOf_eraseDups xs⟩

end FirstOccurrences

/-- What is kept when entries with a key seen before are left out has pairwise distinct keys. -/
theorem nodup_map_eraseDupsBy {α β : Type} [BEq β] [LawfulBEq β] (key : α → β) (xs : List α) :
    ((xs.eraseDupsBy fun a b => key a == key b).map key).Nodup := by
  rw [← eraseDups_map]
  exact nodup_eraseDups _

/-- All entries are kept if and only if their keys are pairwise distinct. -/
theorem eraseDupsBy_eq_self_iff {α β : Type} [BEq β] [LawfulBEq β] (key : α → β) (xs : List α) :
    (xs.eraseDupsBy fun a b => key a == key b) = xs ↔ (xs.map key).Nodup := by
  constructor
  · intro hkept
    rw [← hkept]
    exact nodup_map_eraseDupsBy key xs
  · intro hdistinct
    induction xs with
    | nil => rfl
    | cons x xs ih =>
      rw [List.map_cons, List.nodup_cons] at hdistinct
      have hfilter : xs.filter (fun b => decide ((key b == key x) = false)) = xs := by
        rw [List.filter_eq_self]
        intro b hb
        have hne : key b ≠ key x := fun heq => hdistinct.1 (heq ▸ List.mem_map_of_mem hb)
        simpa using hne
      rw [List.eraseDupsBy_cons, hfilter, ih hdistinct.2]

section Repetitions

variable {α β : Type} [BEq β] [LawfulBEq β]

/-- Leaving repeated entries out once is enough. -/
theorem eraseDups_eraseDups (xs : List β) : xs.eraseDups.eraseDups = xs.eraseDups := by
  refine (eraseDupsBy_eq_self_iff id xs.eraseDups).2 ?_
  rw [List.map_id]
  exact nodup_eraseDups xs

/-- Repeated entries may be left out of each of several lists before all are joined. -/
theorem eraseDups_flatMap_eraseDups (f : α → List β) (xs : List α) :
    (xs.flatMap fun x => (f x).eraseDups).eraseDups = (xs.flatMap f).eraseDups := by
  induction xs with
  | nil => rfl
  | cons x xs ih => exact eraseDups_append_congr (eraseDups_eraseDups (f x)) ih

end Repetitions

end TestScaffold
