import TestScaffold.Syntax.Tree

set_option autoImplicit false

/-!
# Flat listings of syntax trees

A parser hands over a tree as a list of rows in document order, one row for each node, with the depth of
the node. The children of a node are the rows one level deeper that follow it, up to the next row that is
not deeper than the node.

## Main definitions

* `TestScaffold.Row`, `TestScaffold.Row.make`, `TestScaffold.Row.ofLine?` — one node of a listing.
* `TestScaffold.Tree.ofRows?`, `TestScaffold.Tree.ofLines?` — the tree of a listing.
* `TestScaffold.Tree.rows` — the listing of a tree.

## Main results

* `TestScaffold.Tree.ofRows?_rows` — a tree is read back from its listing.
-/

namespace TestScaffold

/-- One node of a listing. -/
structure Row where
  /-- The number of nodes above this one. -/
  depth : Nat
  /-- The description of the node. -/
  label : Label
deriving DecidableEq, Repr

namespace Row

/-- The row of a node given by numbers and names. In `flags`, 1 marks a named node, 2 an erroneous one and
4 a missing one. -/
def make (depth flags : Nat) (kind : String) (start stop : Nat) (field : Option String) : Row :=
  { depth
    label :=
      { kind := Kind.ofText kind
        named := flags.testBit 0
        fault :=
          if flags.testBit 1 then some .error
          else if flags.testBit 2 then some .missing
          else none
        start, stop
        field := field.map Field.ofText } }

/-- Reads a row from its parts, separated by tabs: depth, flags, kind, first byte, byte after the last, and
the field if there is one. -/
def ofLine? (line : String) : Option Row :=
  match (line.toList.splitOn '\t').map String.ofList with
  | depth :: flags :: kind :: start :: stop :: rest => do
    let depth ← depth.toNat?
    let flags ← flags.toNat?
    let start ← start.toNat?
    let stop ← stop.toNat?
    return make depth flags kind start stop rest.head?
  | _ => none

end Row

namespace Tree

/-- Puts a row before a forest of trees with their depths: the trees at its front that are deeper than
the row become its children. -/
def adopt (row : Row) (forest : List (Nat × Tree)) : List (Nat × Tree) :=
  let deeper := forest.takeWhile fun entry => row.depth < entry.1
  let rest := forest.dropWhile fun entry => row.depth < entry.1
  (row.depth, node row.label (deeper.map (·.2))) :: rest

/-- The tree that a listing begins with. -/
def ofRows? (rows : List Row) : Option Tree :=
  (rows.foldr adopt []).head?.map (·.2)

/-- The tree of a listing that is written with one row on each line. Empty lines are left out. -/
def ofLines? (text : String) : Option Tree := do
  let lines := (text.toList.splitOn '\n').filter fun line => !line.isEmpty
  ofRows? (← lines.mapM fun line => Row.ofLine? (String.ofList line))

mutual

/-- The listing of a tree whose root is at the given depth. -/
def rows (depth : Nat) : Tree → List Row
  | node l cs => ⟨depth, l⟩ :: rowsAll (depth + 1) cs

/-- The listing of trees whose roots are at the given depth. -/
def rowsAll (depth : Nat) : List Tree → List Row
  | [] => []
  | c :: cs => rows depth c ++ rowsAll depth cs

end

mutual

/-- The listing of a tree before a forest that is not deeper than its root reads as that tree, put before
the forest. -/
theorem foldr_adopt_rows (depth : Nat) (forest : List (Nat × Tree))
    (h : ∀ entry ∈ forest.head?, entry.1 ≤ depth) :
    ∀ t : Tree, (t.rows depth).foldr adopt forest = (depth, t) :: forest
  | node l cs => by
    have hb : ∀ entry ∈ forest.head?, entry.1 ≤ depth + 1 := fun e he =>
      Nat.le_succ_of_le (h e he)
    rw [rows, List.foldr_cons, foldr_adopt_rowsAll (depth + 1) forest hb cs]
    have hall : ∀ entry ∈ cs.map fun c => (depth + 1, c),
        decide (depth < entry.1) = true := by
      intro entry he
      obtain ⟨c, -, rfl⟩ := List.mem_map.1 he
      simp
    have hstop : forest.takeWhile (fun entry => decide (depth < entry.1)) = [] ∧
        forest.dropWhile (fun entry => decide (depth < entry.1)) = forest := by
      cases forest with
      | nil => exact ⟨rfl, rfl⟩
      | cons e es =>
        have : ¬ depth < e.1 := Nat.not_lt.2 (h e rfl)
        simp [this]
    simp only [adopt, List.takeWhile_append_of_pos hall, List.dropWhile_append_of_pos hall,
      hstop.1, hstop.2, List.append_nil, List.map_map]
    simp [Function.comp_def]

/-- The listing of several trees before a forest that is not deeper than their roots reads as those
trees, put before the forest. -/
theorem foldr_adopt_rowsAll (depth : Nat) (forest : List (Nat × Tree))
    (h : ∀ entry ∈ forest.head?, entry.1 ≤ depth) :
    ∀ cs : List Tree,
      (rowsAll depth cs).foldr adopt forest = cs.map (fun c => (depth, c)) ++ forest
  | [] => by rw [rowsAll]; rfl
  | c :: cs => by
    rw [rowsAll, List.foldr_append, foldr_adopt_rowsAll depth forest h cs,
      foldr_adopt_rows depth _ _ c]
    · rfl
    · intro e he
      cases cs with
      | nil => exact h e he
      | cons d ds =>
        simp only [List.map_cons, List.cons_append, List.head?_cons, Option.mem_some_iff] at he
        exact he ▸ Nat.le_refl _

end

/-- A tree is read back from its listing. -/
theorem ofRows?_rows (t : Tree) : ofRows? (t.rows 0) = some t := by
  rw [ofRows?, foldr_adopt_rows 0 [] (by simp) t]
  rfl

end Tree

end TestScaffold
