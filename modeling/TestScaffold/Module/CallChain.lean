set_option autoImplicit false

/-!
# Call chains

A call such as `this.client.get()` is known by the chain of names that leads to what is called.

## Main definitions

* `TestScaffold.CallChain` — a chain of names.
* `TestScaffold.CallChain.through?` — the binding that the call goes through.
* `TestScaffold.CallChain.members` — what is reached through that binding.
-/

namespace TestScaffold

/-- The chain of names of a call. -/
structure CallChain where
  /-- The names from the outermost object to what is called. -/
  segments : List String
deriving DecidableEq, Repr

namespace CallChain

/-- The word that refers to the object a method is called on. -/
def selfWord : String := "this"

/-- Whether the call goes through the object that the calling method belongs to. -/
def viaSelf (p : CallChain) : Bool := p.segments.head? == some selfWord

/-- The chain without a leading reference to the own object. -/
def names (p : CallChain) : List String :=
  if p.viaSelf then p.segments.drop 1 else p.segments

/-- The binding that the call goes through: the first name, or the second after a reference to the own
object. -/
def through? (p : CallChain) : Option String := p.names.head?

/-- The names that follow the binding that the call goes through. -/
def members (p : CallChain) : List String := p.names.drop 1

/-- The chain as written, with dots between the names. -/
def text (p : CallChain) : String := ".".intercalate p.segments

/-- The binding that the call goes through and what follows it are the whole chain, but for a reference to
the own object. -/
theorem names_eq_of_through? {p : CallChain} {name : String} (h : p.through? = some name) :
    p.names = name :: p.members := by
  unfold through? at h
  unfold members
  cases hp : p.names with
  | nil => simp [hp] at h
  | cons s rest => simp_all

/-- Which binding a call goes through and what follows it: the first name and the others, where a reference to the
own object does not count as a name if it comes first. -/
theorem through?_eq_some_iff {p : CallChain} {name : String} {path : List String} :
    p.through? = some name ∧ p.members = path ↔
      p.segments = name :: path ∧ name ≠ selfWord ∨ p.segments = selfWord :: name :: path := by
  obtain ⟨segments⟩ := p
  cases segments with
  | nil => simp [through?, names, viaSelf]
  | cons s rest =>
    by_cases hs : s = selfWord
    · -- what follows the reference to the own object is all that counts
      subst hs
      cases rest with
      | nil => simpa [through?, members, names, viaSelf] using fun h _ => h.symm
      | cons t rest => simpa [through?, members, names, viaSelf] using fun h _ => absurd h.symm
    · have hne : s = name → name ≠ selfWord := fun h => h ▸ hs
      simpa [through?, members, names, viaSelf, hs] using fun h _ => hne h

/-- A call goes through no binding if there are no names in it, or none but a reference to the own object. -/
theorem through?_eq_none {p : CallChain} :
    p.through? = none ↔ p.segments = [] ∨ p.segments = [selfWord] := by
  obtain ⟨segments⟩ := p
  cases segments with
  | nil => simp [through?, names, viaSelf]
  | cons s rest =>
    by_cases hs : s = selfWord
    · simp [through?, names, viaSelf, hs]
    · simp [through?, names, viaSelf, hs]

end CallChain

end TestScaffold
