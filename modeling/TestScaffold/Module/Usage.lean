set_option autoImplicit false

/-!
# Library usage

What a module calls through one name that it takes from elsewhere.

## Main definitions

* `TestScaffold.Usage` — one name and the member paths called through it.
* `TestScaffold.Usage.add` — the usage with one more path.
-/

namespace TestScaffold

/-- One name with every member path that is called through it. -/
structure Usage where
  /-- The name that the calls go through. -/
  name : String
  /-- The member paths in the order of their first calls. -/
  paths : List (List String)
  /-- Whether the first call went through a member of the own object. -/
  viaSelf : Bool
deriving DecidableEq, Repr

namespace Usage

/-- The usage with a path recorded: a path that is empty or known changes nothing. -/
def add (u : Usage) (path : List String) : Usage :=
  if path.isEmpty || u.paths.contains path then u
  else { u with paths := u.paths ++ [path] }

/-- Recording a path keeps the name. -/
@[simp] theorem name_add (u : Usage) (path : List String) :
    (u.add path).name = u.name := by
  unfold add
  split <;> rfl

/-- Recording a path keeps the mark of the first call. -/
@[simp] theorem viaSelf_add (u : Usage) (path : List String) :
    (u.add path).viaSelf = u.viaSelf := by
  unfold add
  split <;> rfl

/-- After recording, the paths are those before and the recorded one unless it is empty. -/
theorem mem_paths_add {u : Usage} {path q : List String} :
    q ∈ (u.add path).paths ↔ q ∈ u.paths ∨ (q = path ∧ path ≠ []) := by
  unfold add
  split
  · next h =>
    rw [Bool.or_eq_true, List.isEmpty_iff, List.contains_iff_mem] at h
    constructor
    · exact Or.inl
    · rintro (hq | ⟨rfl, hne⟩)
      · exact hq
      · exact h.resolve_left hne
  · next h =>
    rw [Bool.or_eq_true, List.isEmpty_iff, not_or] at h
    simp [h.1]

end Usage

end TestScaffold
