set_option autoImplicit false

/-!
# Statements and scaffolds

A scaffold is a list of statements. A statement is a line, a blank line, or a block of statements between
an opening and a closing line. Blocks are indented by two spaces for each level.

## Main definitions

* `TestScaffold.Statement`, `TestScaffold.Scaffold` — statements and whole scaffolds.
* `TestScaffold.Statement.render`, `TestScaffold.Scaffold.render` — their text.
* `TestScaffold.Statement.lines`, `TestScaffold.Scaffold.lines` — their lines with the depths of these.

## Implementation notes

The text of a line is written as it is. It may hold line feeds, after which nothing is indented.
-/

namespace TestScaffold

/-- A statement of a scaffold. -/
inductive Statement where
  /-- One line. -/
  | line (text : String)
  /-- Statements between an opening and a closing line. -/
  | block (opening : String) (body : List Statement) (closing : String)
  /-- An empty line, which is not indented. -/
  | blank
deriving Repr

namespace Statement

/-- The indentation one level deeper. -/
def deeper (indent : String) : String := indent ++ "  "

mutual

/-- The text of a statement whose lines begin with `indent`. -/
def render (indent : String) : Statement → String
  | line text => indent ++ text ++ "\n"
  | block opening body closing =>
    indent ++ opening ++ "\n" ++ renderAll (deeper indent) body ++ indent ++ closing ++ "\n"
  | blank => "\n"

/-- The text of a list of statements whose lines begin with `indent`. -/
def renderAll (indent : String) : List Statement → String
  | [] => ""
  | s :: ss => render indent s ++ renderAll indent ss

end

mutual

/-- The lines of a statement at a depth, each with its own depth and its text; a blank line has neither. -/
def lines (depth : Nat) : Statement → List (Option (Nat × String))
  | line text => [some (depth, text)]
  | block opening body closing =>
    some (depth, opening) :: (linesAll (depth + 1) body ++ [some (depth, closing)])
  | blank => [none]

/-- The lines of a list of statements at a depth. -/
def linesAll (depth : Nat) : List Statement → List (Option (Nat × String))
  | [] => []
  | s :: ss => lines depth s ++ linesAll depth ss

end

/-- Statements followed by a blank line, if there are any. -/
def spaced (statements : List Statement) : List Statement :=
  if statements.isEmpty then [] else statements ++ [blank]

/-- The statements stand before the blank line. -/
theorem prefix_spaced (statements : List Statement) : statements <+: spaced statements := by
  unfold spaced
  split
  · next hempty =>
    obtain rfl := List.isEmpty_iff.1 hempty
    exact List.nil_prefix
  · exact List.prefix_append _ _

end Statement

/-- A whole scaffold. -/
structure Scaffold where
  /-- The statements in order. -/
  statements : List Statement
deriving Repr

/-- The text of a scaffold. -/
def Scaffold.render (d : Scaffold) : String := Statement.renderAll "" d.statements

/-- The lines of a scaffold. -/
def Scaffold.lines (d : Scaffold) : List (Option (Nat × String)) := Statement.linesAll 0 d.statements

end TestScaffold
