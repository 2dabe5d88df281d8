import Mathlib.Data.List.Basic
import Mathlib.Data.List.TakeWhile
import Mathlib.Order.Bounds.Basic
import TestScaffold.Findings.Callables

set_option autoImplicit false

/-!
# The owner in a chain of names

A function that is attached to the `prototype` of something is owned by the name before this word. The position of
the owner is kept among the names from which the words `prototype` are left out. Here the owner is found in the
chain as it is written, by positions.

## Main definitions

* `TestScaffold.IsOwnedPrototype` — the word `prototype` with a name somewhere before it.
* `TestScaffold.OwnerAt` — the name that owns a function, and the word `prototype` behind it.

## Main results

* `TestScaffold.ownerIndex?_cases` — the position that is kept, by the parts of the chain.
* `TestScaffold.ownerAt_append` — the owner, by the parts of the chain.
* `TestScaffold.ownerIndex?_lt` — the position that is kept is one among the names.
-/

namespace TestScaffold

/-- A name other than the word `prototype` stands at a position of a chain. -/
def IsNamedAt (segments : List String) (i : Nat) : Prop := ∃ s, segments[i]? = some s ∧ s ≠ prototypeWord

/-- The word `prototype` stands at a position of a chain, and a name somewhere before it. -/
def IsOwnedPrototype (segments : List String) (j : Nat) : Prop :=
  segments[j]? = some prototypeWord ∧ ∃ i < j, IsNamedAt segments i

/-- `OwnerAt segments i j owner`: the first word `prototype` with a name before it stands at the position `j`, and
the last name before it is `owner`, at the position `i`. -/
structure OwnerAt (segments : List String) (i j : Nat) (owner : String) : Prop where
  /-- This is the first word `prototype` that has a name before it. -/
  first : IsLeast {j | IsOwnedPrototype segments j} j
  /-- This is the last name before it. -/
  last : IsGreatest {i | i < j ∧ IsNamedAt segments i} i
  /-- This is the name. -/
  owner : segments[i]? = some owner

/-- A chain has one owner at most, at one position. -/
theorem OwnerAt.unique {segments : List String} {i i' j j' : Nat} {owner owner' : String}
    (h : OwnerAt segments i j owner) (h' : OwnerAt segments i' j' owner') :
    i' = i ∧ j' = j ∧ owner' = owner := by
  obtain rfl := h.first.unique h'.first
  obtain rfl := h.last.unique h'.last
  exact ⟨rfl, rfl, Option.some.inj (h'.owner.symm.trans h.owner)⟩

section

variable {leading named after : List String} {owner : String}

/-- The position that is kept, by the parts of the chain: words `prototype`, then names, and if it goes on, then
there is a name at least, and the word `prototype` is next. -/
theorem ownerIndex?_cases (segments : List String) :
    (∃ leading named, segments = leading ++ named ∧ (∀ s ∈ leading, s = prototypeWord) ∧ prototypeWord ∉ named ∧
        ownerIndex? segments = none) ∨
      ∃ leading named owner after, segments = leading ++ (named ++ [owner] ++ prototypeWord :: after) ∧
        (∀ s ∈ leading, s = prototypeWord) ∧ prototypeWord ∉ named ++ [owner] ∧
        ownerIndex? segments = some named.length := by
  generalize hleading : segments.takeWhile (· == prototypeWord) = leading
  generalize hrest : segments.dropWhile (· == prototypeWord) = rest
  generalize howned : rest.takeWhile (· != prototypeWord) = owned
  generalize htail : rest.dropWhile (· != prototypeWord) = tail
  have hsegments : segments = leading ++ rest := by rw [← hleading, ← hrest, List.takeWhile_append_dropWhile]
  have hparts : rest = owned ++ tail := by rw [← howned, ← htail, List.takeWhile_append_dropWhile]
  have hwords : ∀ s ∈ leading, s = prototypeWord := by
    intro s hs
    rw [← hleading] at hs
    simpa using List.mem_takeWhile_imp hs
  have hnames : prototypeWord ∉ owned := by
    intro hs
    rw [← howned] at hs
    simpa using List.mem_takeWhile_imp hs
  have hindex : ownerIndex? segments = if owned.length < rest.length then some (owned.length - 1) else none := by
    rw [ownerIndex?, hrest, howned]
  cases tail with
  | nil =>
    rw [List.append_nil] at hparts
    exact Or.inl ⟨leading, owned, hparts ▸ hsegments, hwords, hnames, by simp [hindex, hparts]⟩
  | cons word after =>
    have hword : word = prototypeWord := by
      have h := List.head?_dropWhile_not (· != prototypeWord) rest
      simpa [htail] using h
    -- The chain without its leading words begins with a name, so there are names before this word.
    rcases List.eq_nil_or_concat' owned with rfl | ⟨named, owner, rfl⟩
    · have h := List.head?_dropWhile_not (· == prototypeWord) segments
      simp [hrest, hparts, hword] at h
    · refine Or.inr ⟨leading, named, owner, after, by rw [hsegments, hparts, hword], hwords, hnames, ?_⟩
      simp [hindex, hparts]

/-- A word `prototype` with a name before it stands behind the words and the names that the chain begins with. -/
theorem IsOwnedPrototype.length_le {tail : List String} {j : Nat} (hleading : ∀ s ∈ leading, s = prototypeWord)
    (hnamed : prototypeWord ∉ named) (h : IsOwnedPrototype (leading ++ (named ++ tail)) j) :
    leading.length + named.length ≤ j := by
  obtain ⟨hword, i, hi, s, hs, hne⟩ := h
  have hbehind : leading.length ≤ i := by
    by_contra hlt
    rw [List.getElem?_append_left (by omega)] at hs
    exact hne (hleading s (List.mem_of_getElem? hs))
  by_contra hlt
  rw [List.getElem?_append_right (by omega), List.getElem?_append_left (by omega)] at hword
  exact hnamed (List.mem_of_getElem? hword)

/-- No word `prototype` has a name before it if there are words first and then names. -/
theorem not_isOwnedPrototype (hleading : ∀ s ∈ leading, s = prototypeWord) (hnamed : prototypeWord ∉ named)
    (j : Nat) : ¬IsOwnedPrototype (leading ++ named) j := by
  intro h
  have hlt : j < (leading ++ named).length := (List.getElem?_eq_some_iff.1 h.1).1
  rw [← List.append_nil named] at h
  have hle := h.length_le hleading hnamed
  rw [List.length_append] at hlt
  omega

/-- The name before the first word `prototype` that has one before it is the owner. -/
theorem ownerAt_append (hleading : ∀ s ∈ leading, s = prototypeWord)
    (hnamed : prototypeWord ∉ named ++ [owner]) :
    OwnerAt (leading ++ (named ++ [owner] ++ prototypeWord :: after)) (leading.length + named.length)
      (leading.length + named.length + 1) owner := by
  have howner : (leading ++ (named ++ [owner] ++ prototypeWord :: after))[leading.length + named.length]? =
      some owner := by
    simp
  have hname : IsNamedAt (leading ++ (named ++ [owner] ++ prototypeWord :: after))
      (leading.length + named.length) :=
    ⟨owner, howner, fun h => hnamed (h ▸ List.mem_append_right named (List.mem_singleton_self owner))⟩
  refine ⟨⟨⟨?_, _, Nat.lt_succ_self _, hname⟩, fun j hj => ?_⟩,
    ⟨⟨Nat.lt_succ_self _, hname⟩, fun i hi => ?_⟩, howner⟩
  · simp [Nat.add_assoc]
  · simpa [Nat.add_assoc] using IsOwnedPrototype.length_le hleading hnamed hj
  · exact Nat.le_of_lt_succ hi.1

/-- The words `prototype` that a chain begins with are left out, and the names behind them are kept. -/
theorem filter_ne_prototypeWord_append {rest : List String} (hleading : ∀ s ∈ leading, s = prototypeWord)
    (hnamed : prototypeWord ∉ named) :
    (leading ++ (named ++ rest)).filter (· != prototypeWord) = named ++ rest.filter (· != prototypeWord) := by
  have hwords : leading.filter (· != prototypeWord) = [] :=
    List.filter_eq_nil_iff.2 fun s hs => by simp [hleading s hs]
  have hnames : named.filter (· != prototypeWord) = named :=
    List.filter_eq_self.2 fun s hs => bne_iff_ne.2 fun h => hnamed (h ▸ hs)
  rw [List.filter_append, List.filter_append, hwords, hnames, List.nil_append]

/-- The position that is kept is one among the names of the chain. -/
theorem ownerIndex?_lt {chain : List String} {k : Nat} (h : ownerIndex? chain = some k) :
    k < (chain.filter (· != prototypeWord)).length := by
  rcases ownerIndex?_cases chain with ⟨_, _, _, _, _, hnone⟩ |
    ⟨leading, named, owner, after, hchain, hleading, hnamed, hsome⟩
  · rw [hnone] at h
    cases h
  · obtain rfl := Option.some.inj (hsome.symm.trans h)
    rw [hchain, filter_ne_prototypeWord_append hleading hnamed]
    simp

end

end TestScaffold
