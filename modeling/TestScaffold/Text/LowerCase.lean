import TestScaffold.Text.LowerCase.Table

set_option autoImplicit false

/-!
# Lower case

The lower-case form of a character, as the Unicode standard maps it without regard to its neighbours, and
names that begin with a lower-case letter.

## Main definitions

* `TestScaffold.lowerCase` — the lower-case form of one character.
* `TestScaffold.decapitalize` — a name with its first character in lower case.
-/

namespace TestScaffold

/-- The capital letter `I` with a dot above, whose lower-case form keeps the dot as a second character. -/
def dottedCapitalI : Char := '\u0130'

/-- The lower-case form of a character; a character without one stands for itself. -/
def lowerCase (c : Char) : List Char :=
  if c = dottedCapitalI then ['i', '\u0307']
  else
    match caseRuns.find? (·.covers c.toNat) with
    | some run => [Char.ofNat (run.target + (c.toNat - run.first))]
    | none => [c]

/-- A lower-case form has at least one character. -/
theorem lowerCase_ne_nil (c : Char) : lowerCase c ≠ [] := by
  unfold lowerCase
  split
  · simp
  · split <;> simp

/-- The name with its first character in lower case and the others as they are: the name of the variable
that holds an instance of a class. -/
def decapitalize (name : String) : String :=
  match name.toList with
  | [] => ""
  | c :: cs => String.ofList (lowerCase c ++ cs)

end TestScaffold
