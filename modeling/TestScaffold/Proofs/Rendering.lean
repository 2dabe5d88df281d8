import Mathlib.Data.List.Basic
import TestScaffold.Scaffold.Statement

set_option autoImplicit false

/-!
# Rendered scaffolds

The text of a scaffold is that of its lines, one after the other: a line of depth `d` is written behind twice
`d` blanks, and a blank line is written as nothing at all. So the depths and texts of the lines can be read
back from the text, as long as no text is empty, begins with a blank or goes over several lines.

## Main definitions

* `TestScaffold.written` — how a line is written.
* `TestScaffold.Statement.Writes` — the texts of a statement.
* `TestScaffold.IsLineText`, `TestScaffold.Scaffold.PlainlyWritten` — texts that cannot be mistaken.
* `TestScaffold.readLines` — the lines of a text.

## Main results

* `TestScaffold.Statement.render_eq_join` — a statement is rendered line by line.
* `TestScaffold.readLines_join` — written lines are read back.
* `TestScaffold.rendered_lines_recovered` — the lines of a scaffold are read back from its text.

## Implementation notes

The depth of a blank line leaves no trace in the text: a blank line in a block and one between lines are
rendered in the same way. So blank lines are told apart from others but not from each other.
-/

namespace TestScaffold

/-! ## Line by line -/

/-- A text of blanks. -/
def padding (n : Nat) : String := String.ofList (List.replicate n ' ')

/-- How a line is written behind an indentation. -/
def written (indent : String) : Option (Nat × String) → String
  | some (depth, text) => indent ++ padding (2 * depth) ++ text ++ "\n"
  | none => "\n"

namespace Statement

/-- One level deeper there are two more blanks. -/
theorem deeper_append_padding (indent : String) (depth : Nat) :
    deeper (indent ++ padding (2 * depth)) = indent ++ padding (2 * (depth + 1)) := by
  have htwo : padding (2 * (depth + 1)) = padding (2 * depth) ++ "  " := by
    rw [← String.toList_inj, String.toList_append, padding, padding, String.toList_ofList, String.toList_ofList,
      Nat.mul_succ, List.replicate_add]
    rfl
  rw [deeper, htwo, String.append_assoc]

mutual

/-- **A statement is rendered line by line.** The indentation that the recursion carries is that of the whole
and two blanks for each level. -/
theorem render_eq_join (indent : String) : ∀ (s : Statement) (depth : Nat),
    render (indent ++ padding (2 * depth)) s = String.join ((s.lines depth).map (written indent))
  | line text, depth => by
    rw [render, lines, List.map_singleton, String.join_cons, String.join_nil, String.append_empty]
    rfl
  | block opening body closing, depth => by
    rw [render, lines, deeper_append_padding, renderAll_eq_join indent body (depth + 1), List.map_cons,
      List.map_append, String.join_cons, String.join_append, List.map_singleton, String.join_cons,
      String.join_nil, String.append_empty]
    simp only [written, String.append_assoc]
  | blank, _ => by
    rw [render, lines, List.map_singleton, String.join_cons, String.join_nil, String.append_empty]
    rfl

theorem renderAll_eq_join (indent : String) : ∀ (ss : List Statement) (depth : Nat),
    renderAll (indent ++ padding (2 * depth)) ss = String.join ((linesAll depth ss).map (written indent))
  | [], _ => by
    rw [renderAll, linesAll, List.map_nil, String.join_nil]
  | s :: ss, depth => by
    rw [renderAll, linesAll, render_eq_join indent s depth, renderAll_eq_join indent ss depth, List.map_append,
      String.join_append]

end

/-- A statement behind an indentation is written as its lines are. -/
theorem render_eq_written (indent : String) (s : Statement) :
    s.render indent = String.join ((s.lines 0).map (written indent)) := by
  have h := render_eq_join indent s 0
  rwa [Nat.mul_zero, show padding 0 = "" from rfl, String.append_empty] at h

end Statement

/-- A scaffold is written as its lines are. -/
theorem Scaffold.render_eq_written (d : Scaffold) : d.render = String.join (d.lines.map (written "")) :=
  Statement.renderAll_eq_join "" d.statements 0

/-! ## Reading lines -/

/-- `IsLineText text`: the text can be told from the indentation before it and from the lines around it. -/
structure IsLineText (text : String) : Prop where
  /-- There is a text. -/
  nonempty : text ≠ ""
  /-- It is on one line. -/
  unbroken : '\n' ∉ text.toList
  /-- It does not begin with a blank. -/
  flush : text.toList.head? ≠ some ' '

/-- A line that is read: its depth and its text, or nothing if it is blank. -/
def readLine (cs : List Char) : Option (Nat × String) :=
  if cs.isEmpty then none
  else some ((cs.takeWhile (· == ' ')).length / 2, String.ofList (cs.dropWhile (· == ' ')))

/-- The lines of a text in which each line is closed. -/
def readLines (text : String) : List (Option (Nat × String)) :=
  ((text.toList.splitOn '\n').dropLast).map readLine

/-- A line behind two blanks for each level is read. -/
theorem readLine_padding_append {depth : Nat} {text : String} (h : IsLineText text) :
    readLine (List.replicate (2 * depth) ' ' ++ text.toList) = some (depth, text) := by
  have hblank : ∀ c ∈ List.replicate (2 * depth) ' ', (c == ' ') = true := fun c hc => by
    rw [(List.mem_replicate.1 hc).2, beq_self_eq_true]
  have hflush : ∀ c cs, text.toList = c :: cs → (c == ' ') = false := fun c cs hcs => by
    rw [beq_eq_false_iff_ne]
    rintro rfl
    exact h.flush (by rw [hcs, List.head?_cons])
  obtain ⟨c, cs, hcs⟩ := List.exists_cons_of_ne_nil (mt String.toList_eq_nil_iff.1 h.nonempty)
  have hne : (List.replicate (2 * depth) ' ' ++ text.toList).isEmpty = false := by
    rw [hcs]
    simp
  have htake : text.toList.takeWhile (· == ' ') = [] := by
    rw [hcs, List.takeWhile_cons_of_neg (by rw [hflush c cs hcs]; exact Bool.false_ne_true)]
  have hdrop : text.toList.dropWhile (· == ' ') = text.toList := by
    rw [hcs, List.dropWhile_cons_of_neg (by rw [hflush c cs hcs]; exact Bool.false_ne_true)]
  rw [readLine, hne, if_neg Bool.false_ne_true, List.takeWhile_append_of_pos hblank,
    List.dropWhile_append_of_pos hblank, htake, hdrop, List.append_nil, List.length_replicate,
    Nat.mul_div_cancel_left depth Nat.two_pos, String.ofList_toList]

/-- A written line is closed, and is read back. -/
theorem exists_toList_written {entry : Option (Nat × String)} (h : ∀ line ∈ entry, IsLineText line.2) :
    ∃ cs, (written "" entry).toList = cs ++ ['\n'] ∧ '\n' ∉ cs ∧ readLine cs = entry := by
  cases entry with
  | none => exact ⟨[], rfl, List.not_mem_nil, rfl⟩
  | some line =>
    obtain ⟨depth, text⟩ := line
    have htext : IsLineText text := h _ rfl
    refine ⟨List.replicate (2 * depth) ' ' ++ text.toList, ?_, ?_, readLine_padding_append htext⟩
    · simp [written, padding]
    · rw [List.mem_append, not_or]
      refine ⟨fun hmem => ?_, htext.unbroken⟩
      exact absurd (List.mem_replicate.1 hmem).2 (by decide)

/-- **Written lines are read back.** -/
theorem readLines_join {entries : List (Option (Nat × String))}
    (h : ∀ entry ∈ entries, ∀ line ∈ entry, IsLineText line.2) :
    readLines (String.join (entries.map (written ""))) = entries := by
  induction entries with
  | nil => rfl
  | cons entry entries ih =>
    rw [List.forall_mem_cons] at h
    obtain ⟨cs, hwritten, hclosed, hread⟩ := exists_toList_written h.1
    have hrest := ih h.2
    have hne : (String.join (entries.map (written ""))).toList.splitOn '\n' ≠ [] := List.splitOn_ne_nil _ _
    rw [readLines, List.map_cons, String.join_cons, String.toList_append, hwritten, List.append_assoc,
      List.singleton_append, List.splitOn_append_cons_self, List.splitOn_eq_singleton hclosed,
      List.singleton_append, List.dropLast_cons_of_ne_nil hne, List.map_cons, hread, ← readLines, hrest]

/-! ## The texts of a statement -/

/-- `s.Writes text`: the text stands in the statement, at any depth. -/
inductive Statement.Writes : Statement → String → Prop where
  /-- A line has one text. -/
  | line (text : String) : Writes (.line text) text
  /-- A block has a text before its body. -/
  | opening (opening : String) (body : List Statement) (closing : String) :
    Writes (.block opening body closing) opening
  /-- It has the texts of its body. -/
  | inside {opening : String} {body : List Statement} {closing : String} {s : Statement} {text : String}
    (hs : s ∈ body) (h : Writes s text) : Writes (.block opening body closing) text
  /-- It has a text behind its body. -/
  | closing (opening : String) (body : List Statement) (closing : String) :
    Writes (.block opening body closing) closing

namespace Statement

section Writes

variable {P : String → Prop} {opening : String} {body : List Statement} {closing : String}

/-- What holds of the text of a line holds of all its texts. -/
theorem forall_writes_line {text : String} (h : P text) : ∀ t, (line text).Writes t → P t := by
  rintro _ ⟨⟩
  exact h

/-- What holds of the texts around the body of a block and of those in it holds of all its texts. -/
theorem forall_writes_block (hopening : P opening) (hbody : ∀ s ∈ body, ∀ t, s.Writes t → P t)
    (hclosing : P closing) : ∀ t, (block opening body closing).Writes t → P t := by
  intro t h
  cases h with
  | opening => exact hopening
  | inside hs h => exact hbody _ hs t h
  | closing => exact hclosing

/-- A blank line has no texts. -/
theorem forall_writes_blank : ∀ t, blank.Writes t → P t := nofun

end Writes

mutual

/-- The texts of the lines of a statement are those of the statement. -/
theorem writes_of_mem_lines {k : Nat} {text : String} : ∀ (s : Statement) (depth : Nat),
    some (k, text) ∈ s.lines depth → s.Writes text
  | line _, _, h => by
    rw [lines, List.mem_singleton] at h
    cases h
    exact .line text
  | block opening body closing, depth, h => by
    rw [lines, List.mem_cons, List.mem_append, List.mem_singleton] at h
    rcases h with h | h | h
    · cases h
      exact .opening _ _ _
    · obtain ⟨s, hs, hwrites⟩ := writes_of_mem_linesAll body (depth + 1) h
      exact .inside hs hwrites
    · cases h
      exact .closing _ _ _
  | blank, _, h => by
    rw [lines, List.mem_singleton] at h
    cases h

theorem writes_of_mem_linesAll {k : Nat} {text : String} : ∀ (ss : List Statement) (depth : Nat),
    some (k, text) ∈ linesAll depth ss → ∃ s ∈ ss, s.Writes text
  | [], _, h => by
    rw [linesAll] at h
    cases h
  | s :: ss, depth, h => by
    rw [linesAll, List.mem_append] at h
    rcases h with h | h
    · exact ⟨s, List.mem_cons_self, writes_of_mem_lines s depth h⟩
    · obtain ⟨s', hs', hwrites⟩ := writes_of_mem_linesAll ss depth h
      exact ⟨s', List.mem_cons_of_mem s hs', hwrites⟩

end

end Statement

/-! ## Plainly written scaffolds -/

/-- `d.PlainlyWritten`: no text of the scaffold, at any depth, can be mistaken. -/
def Scaffold.PlainlyWritten (d : Scaffold) : Prop := ∀ s ∈ d.statements, ∀ text, s.Writes text → IsLineText text

/-- The lines of a plainly written scaffold are read back from its text. -/
theorem Scaffold.PlainlyWritten.readLines_render {d : Scaffold} (h : d.PlainlyWritten) :
    readLines d.render = d.lines := by
  rw [d.render_eq_written]
  refine readLines_join fun entry hentry line hline => ?_
  obtain ⟨depth, text⟩ := line
  obtain rfl : entry = some (depth, text) := hline
  obtain ⟨s, hs, hwrites⟩ := Statement.writes_of_mem_linesAll d.statements 0 hentry
  exact h s hs text hwrites

/-- **The lines of a scaffold are read back from its text.** A statement is rendered line by line, a line at
depth `d` behind the indentation and twice `d` blanks, a blank line without either. In a scaffold without texts
that could be mistaken, the depth and the text of each line, and the places of the blank lines, can be read
from the rendered text alone. So two such scaffolds have the same text exactly if they have the same lines.

**Proof sketch.** The rendering carries an indentation, which is that of the whole and two blanks for each level;
with that the first part goes by induction on the statement. A text that does not begin with a blank shows
how many blanks were put before it. -/
theorem rendered_lines_recovered :
    (∀ (indent : String) (s : Statement), s.render indent = String.join ((s.lines 0).map (written indent))) ∧
      (∀ d : Scaffold, d.render = String.join (d.lines.map (written ""))) ∧
      (∀ d : Scaffold, d.PlainlyWritten → readLines d.render = d.lines) ∧
      ∀ d e : Scaffold, d.PlainlyWritten → e.PlainlyWritten → (d.render = e.render ↔ d.lines = e.lines) := by
  refine ⟨Statement.render_eq_written, Scaffold.render_eq_written, fun d hd => hd.readLines_render,
    fun d e hd he => ⟨fun h => ?_, fun h => ?_⟩⟩
  · rw [← hd.readLines_render, ← he.readLines_render, h]
  · rw [d.render_eq_written, e.render_eq_written, h]

/-- A scaffold with a blank line inside a block. -/
def blockScaffold : Scaffold where
  statements :=
    [.block "beforeEach(() => \x7b" [.blank] "\x7d);", .block "test(() => \x7b" [.line "f();"] "\x7d);"]

/-- The same with the lines of the first block on their own. -/
def lineScaffold : Scaffold where
  statements :=
    [.line "beforeEach(() => \x7b", .blank, .line "\x7d);", .block "test(() => \x7b" [.line "f();"] "\x7d);"]

/-- These two have the same lines, since a blank line has no depth; the line inside the other block has one. -/
theorem rendered_lines_recovered_blank :
    blockScaffold.PlainlyWritten ∧ lineScaffold.PlainlyWritten ∧ blockScaffold.render = lineScaffold.render ∧
      readLines blockScaffold.render =
        [some (0, "beforeEach(() => \x7b"), none, some (0, "\x7d);"), some (0, "test(() => \x7b"),
          some (1, "f();"), some (0, "\x7d);")] := by
  have heach : IsLineText "beforeEach(() => \x7b" := ⟨by decide, by decide, by decide⟩
  have htest : IsLineText "test(() => \x7b" := ⟨by decide, by decide, by decide⟩
  have hcall : IsLineText "f();" := ⟨by decide, by decide, by decide⟩
  have hend : IsLineText "\x7d);" := ⟨by decide, by decide, by decide⟩
  have hblank : Scaffold.PlainlyWritten ⟨[.blank]⟩ :=
    List.forall_mem_singleton.2 Statement.forall_writes_blank
  have hcalls : Scaffold.PlainlyWritten ⟨[.line "f();"]⟩ :=
    List.forall_mem_singleton.2 (Statement.forall_writes_line hcall)
  have htests : Scaffold.PlainlyWritten ⟨[.block "test(() => \x7b" [.line "f();"] "\x7d);"]⟩ :=
    List.forall_mem_singleton.2 (Statement.forall_writes_block htest hcalls hend)
  have hblock : blockScaffold.PlainlyWritten :=
    List.forall_mem_cons.2 ⟨Statement.forall_writes_block heach hblank hend, htests⟩
  have hline : lineScaffold.PlainlyWritten :=
    List.forall_mem_cons.2 ⟨Statement.forall_writes_line heach, List.forall_mem_cons.2
      ⟨Statement.forall_writes_blank, List.forall_mem_cons.2 ⟨Statement.forall_writes_line hend, htests⟩⟩⟩
  obtain ⟨-, -, hread, hsame⟩ := rendered_lines_recovered
  exact ⟨hblock, hline, (hsame _ _ hblock hline).2 rfl, hread _ hblock⟩

end TestScaffold
