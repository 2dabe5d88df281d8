import TestScaffold.Proofs.FileExtensions
import TestScaffold.Proofs.UnitNodes

set_option autoImplicit false

/-!
# Where a faulty module is reported

A module whose tree has a faulty node is not read. The report names one place of the text, by its line and its
column: that of the first faulty node in document order. The search for this node does not look below a node
without faults, and not below a faulty node either; what it finds is what a search through all nodes finds
first. A line and a column belong to a single offset of the text.

## Main definitions

* `TestScaffold.Tree.isFaulty` — a node that is faulty itself.
* `TestScaffold.SourceText.StandsAt` — the line and the column of an offset.
* `TestScaffold.ReportsFault` — a module is rejected by reason of a node, whose place is named.

## Main results

* `TestScaffold.Tree.firstFault?_eq_find?` — the search finds the first faulty node in document order.
* `TestScaffold.Tree.filter_isFaulty_preorderWhile` — nodes without faults can be passed over.
* `TestScaffold.SourceText.eq_of_line_eq_of_column_eq` — a line and a column determine the offset.
* `TestScaffold.first_fault_reported` — when a module is read, and what is reported otherwise.
-/

namespace TestScaffold

/-! ## The first faulty node -/

namespace Tree

/-- Whether the root is itself faulty. -/
def isFaulty (t : Tree) : Bool := t.label.fault.isSome

mutual

/-- A tree has a fault if one of its nodes is faulty. -/
theorem hasFault_eq_any : ∀ t : Tree, t.hasFault = t.preorder.any isFaulty
  | node l cs => by
    rw [hasFault, preorder, List.any_cons, anyHasFault_eq_any cs]
    rfl

/-- One of several trees has a fault if one of their nodes is faulty. -/
theorem anyHasFault_eq_any : ∀ cs : List Tree, anyHasFault cs = (preorderAll cs).any isFaulty
  | [] => rfl
  | c :: cs => by rw [anyHasFault, preorderAll, List.any_append, hasFault_eq_any c, anyHasFault_eq_any cs]

end

/-- No node of a tree without faults is faulty. -/
theorem isFaulty_eq_false_of_mem {t u : Tree} (h : t.hasFault = false) (hu : u ∈ t.preorder) :
    u.isFaulty = false := by
  rw [hasFault_eq_any, List.any_eq_false] at h
  exact Bool.eq_false_iff.2 (h u hu)

mutual

/-- **The search finds the first faulty node** in document order. -/
theorem firstFault?_eq_find? : ∀ t : Tree, t.firstFault? = t.preorder.find? isFaulty
  | node l cs => by
    cases hfault : (node l cs).hasFault with
    | false =>
      rw [firstFault?_eq_none hfault]
      exact (List.find?_eq_none.2 fun u hu => by rw [isFaulty_eq_false_of_mem hfault hu]; decide).symm
    | true =>
      rw [firstFault?, hfault, preorder, List.find?_cons, firstFaultAmong?_eq_find? cs]
      change (if l.fault.isSome then _ else _) = match l.fault.isSome with | true => _ | false => _
      cases l.fault.isSome <;> rfl

/-- The search in several trees finds the first of their faulty nodes. -/
theorem firstFaultAmong?_eq_find? : ∀ cs : List Tree,
    firstFaultAmong? cs = (preorderAll cs).find? isFaulty
  | [] => rfl
  | c :: cs => by
    rw [firstFaultAmong?, preorderAll, List.find?_append, firstFault?_eq_find? c,
      firstFaultAmong?_eq_find? cs]

end

mutual

/-- **Nodes without faults can be passed over.** Nothing faulty stands below them, so the faulty nodes that
are met are all of them, in the same order. -/
theorem filter_isFaulty_preorderWhile : ∀ t : Tree,
    (t.preorderWhile hasFault).filter isFaulty = t.preorder.filter isFaulty
  | node l cs => by
    rw [preorderWhile, preorder, List.filter_cons, List.filter_cons]
    have hbelow : (if hasFault (node l cs) then preorderWhileAll hasFault cs else []).filter isFaulty =
        (preorderAll cs).filter isFaulty := by
      split
      · exact filter_isFaulty_preorderWhileAll cs
      · next hfault =>
        refine (List.filter_eq_nil_iff.2 fun u hu => ?_).symm
        have hin : u ∈ (node l cs).preorder := List.mem_cons_of_mem _ hu
        rw [isFaulty_eq_false_of_mem (Bool.eq_false_iff.2 hfault) hin]
        decide
    rw [hbelow]

/-- Nodes without faults can be passed over in several trees. -/
theorem filter_isFaulty_preorderWhileAll : ∀ cs : List Tree,
    (preorderWhileAll hasFault cs).filter isFaulty = (preorderAll cs).filter isFaulty
  | [] => rfl
  | c :: cs => by
    rw [preorderWhileAll, preorderAll, List.filter_append, List.filter_append,
      filter_isFaulty_preorderWhile c, filter_isFaulty_preorderWhileAll cs]

end

end Tree

/-! ## Lines and columns -/

namespace SourceText

/-- `src.StandsAt offset line column`: the line is one more than the number of line feeds before the offset, and
the column is one more than the number of bytes behind the last of them. -/
structure StandsAt (src : SourceText) (offset line column : Nat) : Prop where
  /-- The line feeds are counted. -/
  line_eq : line = (src.before offset).count lineFeed + 1
  /-- The bytes before the offset are the lines that have ended, and those that are counted. -/
  column_eq : ∃ ended own, src.before offset = ended ++ own ∧
    (ended = [] ∨ ended.getLast? = some lineFeed) ∧ lineFeed ∉ own ∧ column = own.length + 1

/-- The bytes of a text are cut before those behind its last line feed. -/
theorem length_takeWhile_reverse {ended own : List UInt8} (hended : ended = [] ∨ ended.getLast? = some lineFeed)
    (hown : lineFeed ∉ own) :
    ((ended ++ own).reverse.takeWhile (· != lineFeed)).length = own.length := by
  have hother : ∀ b ∈ own.reverse, (b != lineFeed) = true := fun b hb =>
    bne_iff_ne.2 fun heq => hown (heq ▸ List.mem_reverse.1 hb)
  rw [List.reverse_append, List.takeWhile_append_of_pos hother]
  rcases hended with rfl | hlast
  · rw [List.reverse_nil, List.takeWhile_nil, List.append_nil, List.length_reverse]
  · obtain ⟨init, rfl⟩ := List.getLast?_eq_some_iff.1 hlast
    rw [List.reverse_append]
    simp

/-- Every offset has one line and one column. -/
theorem standsAt_iff {src : SourceText} {offset line column : Nat} :
    src.StandsAt offset line column ↔ line = src.line offset ∧ column = src.column offset := by
  constructor
  · rintro ⟨hline, ended, own, hbefore, hended, hown, hcolumn⟩
    refine ⟨hline, ?_⟩
    rw [SourceText.column, hbefore, length_takeWhile_reverse hended hown, hcolumn]
  · rintro ⟨hline, hcolumn⟩
    let behind := (src.before offset).reverse.takeWhile (· != lineFeed)
    let rest := (src.before offset).reverse.dropWhile (· != lineFeed)
    refine ⟨hline, rest.reverse, behind.reverse, ?_, ?_, ?_, ?_⟩
    · rw [← List.reverse_append, List.takeWhile_append_dropWhile, List.reverse_reverse]
    · have hhead := List.head?_dropWhile_not (· != lineFeed) (src.before offset).reverse
      rw [List.getLast?_reverse, List.reverse_eq_nil_iff]
      cases hrest : rest with
      | nil => exact Or.inl rfl
      | cons b bs =>
        refine Or.inr (congrArg some ?_)
        change ((src.before offset).reverse.dropWhile (· != lineFeed)) = b :: bs at hrest
        rw [hrest] at hhead
        simpa using hhead
    · intro hin
      have hne := List.mem_takeWhile_imp (List.mem_reverse.1 hin)
      simp at hne
    · rw [List.length_reverse, hcolumn]
      rfl

/-- Between two offsets of the same line there are as many bytes as between their columns. -/
theorem column_eq_add {src : SourceText} {offset offset' : Nat} (hle : offset ≤ offset')
    (hsize : offset' ≤ src.bytes.size) (hline : src.line offset = src.line offset') :
    src.column offset' = src.column offset + (offset' - offset) := by
  obtain ⟨between, hbetween⟩ : src.before offset <+: src.before offset' := List.take_prefix_take_left hle
  have hlength : between.length = offset' - offset := by
    have h := congrArg List.length hbetween
    have hbytes : src.bytes.data.toList.length = src.bytes.size := Array.length_toList
    simp only [before, List.length_append, List.length_take, hbytes] at h
    omega
  have hnone : lineFeed ∉ between := by
    have h : (src.before offset).count lineFeed = (src.before offset').count lineFeed := Nat.succ.inj hline
    rw [← hbetween, List.count_append] at h
    exact List.count_eq_zero.1 (by omega)
  have hother : ∀ b ∈ between.reverse, (b != lineFeed) = true := fun b hb =>
    bne_iff_ne.2 fun heq => hnone (heq ▸ List.mem_reverse.1 hb)
  rw [column, column, ← hbetween, List.reverse_append, List.takeWhile_append_of_pos hother, List.length_append,
    List.length_reverse, hlength]
  omega

/-- **A line and a column determine the offset** inside the text. -/
theorem eq_of_line_eq_of_column_eq {src : SourceText} {offset offset' : Nat} (h : offset ≤ src.bytes.size)
    (h' : offset' ≤ src.bytes.size) (hline : src.line offset = src.line offset')
    (hcolumn : src.column offset = src.column offset') : offset = offset' := by
  rcases Nat.le_total offset offset' with hle | hle
  · have := column_eq_add hle h' hline
    omega
  · have := column_eq_add hle h hline.symm
    omega

end SourceText

/-! ## What is reported -/

/-- `ReportsFault parser src filename t`: the module is not read, and no scaffold is written for it. The error
names the file and the place where the node `t` begins, and no other offset of the text has this line and this
column. -/
def ReportsFault (parser : Parser) (src : SourceText) (filename : String) (t : Tree) : Prop :=
  ∃ line column, src.StandsAt t.label.start line column ∧
    readModel parser src filename = .error (.faultySyntax filename line column) ∧
    (∀ framework, scaffoldModule parser framework src filename =
      .error (.faultySyntax filename line column)) ∧
    (t.label.start ≤ src.bytes.size →
      ∀ offset ≤ src.bytes.size, src.StandsAt offset line column → offset = t.label.start)

section

variable {parser : Parser} {src : SourceText} {filename : String} {dialect : Dialect} {root : Tree}

/-- A module is read if no node of its tree is faulty. -/
theorem exists_readModel_of_forall_not_isFaulty (hdialect : Dialect.ofFilename filename = .ok dialect)
    (htree : parser dialect src = some root) (h : ∀ t ∈ root.preorder, t.isFaulty = false) :
    ∃ m, readModel parser src filename = .ok m := by
  have hnone : root.firstFault? = none := by
    rw [Tree.firstFault?_eq_find?, List.find?_eq_none]
    exact fun t ht => Bool.eq_false_iff.1 (h t ht)
  simp only [readModel, readFindings, parseModule, hdialect, bind, Except.bind, htree, rejectFaults, hnone]
  exact ⟨_, rfl⟩

/-- The first faulty node is reported. -/
theorem reportsFault_of_find? {t : Tree} (hdialect : Dialect.ofFilename filename = .ok dialect)
    (htree : parser dialect src = some root) (h : root.preorder.find? Tree.isFaulty = some t) :
    ReportsFault parser src filename t := by
  have hread : readModel parser src filename =
      .error (.faultySyntax filename (src.line t.label.start) (src.column t.label.start)) := by
    rw [← Tree.firstFault?_eq_find?] at h
    simp only [readModel, readFindings, parseModule, hdialect, bind, Except.bind, htree, rejectFaults, h]
    rfl
  refine ⟨_, _, SourceText.standsAt_iff.2 ⟨rfl, rfl⟩, hread, fun framework => ?_, ?_⟩
  · exact scaffoldModule_of_readModel_error hread
  · intro hstart offset hoffset hstands
    obtain ⟨hline, hcolumn⟩ := SourceText.standsAt_iff.1 hstands
    exact SourceText.eq_of_line_eq_of_column_eq hoffset hstart hline.symm hcolumn.symm

/-- **Where a faulty module is reported.** A module whose file has a known extension is read, and scaffolds are
written for it, exactly if no node of its tree is faulty. Otherwise the error is at the faulty node that comes
first in document order, whatever stands before, behind and below it: it names the line and the column where
the node begins, and these belong to no other offset of the text. Passing over the nodes without faults neither
leaves out a faulty node nor changes their order.

**Proof sketch.** By induction over the tree, a node has a fault if a node of its document order is faulty, so
the search may stop there; it finds what a search through the document order finds. Of two offsets on the same
line, the later one has as many more bytes before it on the line as there are between them. -/
theorem first_fault_reported (hdialect : Dialect.ofFilename filename = .ok dialect)
    (htree : parser dialect src = some root) :
    ((∃ m, readModel parser src filename = .ok m) ↔ ∀ t ∈ root.preorder, t.isFaulty = false) ∧
    (∀ framework, (∃ text, scaffoldModule parser framework src filename = .ok text) ↔
      ∀ t ∈ root.preorder, t.isFaulty = false) ∧
    ((∃ t ∈ root.preorder, t.isFaulty = true) → ∃ front t back, root.preorder = front ++ t :: back ∧
      (∀ u ∈ front, u.isFaulty = false) ∧ t.isFaulty = true ∧ ReportsFault parser src filename t) ∧
    (root.preorderWhile Tree.hasFault).filter Tree.isFaulty = root.preorder.filter Tree.isFaulty := by
  have hfaulty : ¬(∀ t ∈ root.preorder, t.isFaulty = false) →
      ∃ t, root.preorder.find? Tree.isFaulty = some t := by
    intro h
    rw [← Option.ne_none_iff_exists']
    intro hnone
    exact h fun t ht => Bool.eq_false_iff.2 (List.find?_eq_none.1 hnone t ht)
  refine ⟨⟨fun ⟨m, hm⟩ => ?_, exists_readModel_of_forall_not_isFaulty hdialect htree⟩, fun framework => ?_,
    fun ⟨t, ht, hfault⟩ => ?_, Tree.filter_isFaulty_preorderWhile root⟩
  · by_contra h
    obtain ⟨t, hfind⟩ := hfaulty h
    obtain ⟨line, column, -, herror, -⟩ := reportsFault_of_find? hdialect htree hfind
    rw [hm] at herror
    cases herror
  · constructor
    · rintro ⟨text, htext⟩
      by_contra h
      obtain ⟨t, hfind⟩ := hfaulty h
      obtain ⟨line, column, -, -, herror, -⟩ := reportsFault_of_find? hdialect htree hfind
      rw [herror framework] at htext
      cases htext
    · intro h
      obtain ⟨m, hm⟩ := exists_readModel_of_forall_not_isFaulty hdialect htree h
      exact exists_scaffoldModule_of_readModel _ hm
  · obtain ⟨first, hfind⟩ := hfaulty fun h => Bool.eq_false_iff.1 (h t ht) hfault
    obtain ⟨hfirst, front, back, hsplit, hfront⟩ := List.find?_eq_some_iff_append.1 hfind
    refine ⟨front, first, back, hsplit, fun u hu => ?_, hfirst, reportsFault_of_find? hdialect htree hfind⟩
    simpa using hfront u hu

end

/-- The listing of a module in which an error stands inside another, and a brace is missing behind them. -/
def nestedFaultListing : List Row :=
  [.make 0 1 "program" 0 9 none, .make 1 1 "expression_statement" 0 2 none,
    .make 2 1 "identifier" 0 1 none, .make 2 0 ";" 1 2 none, .make 1 1 "statement_block" 3 9 none,
    .make 2 0 "\x7b" 3 4 none, .make 2 1 "expression_statement" 4 6 none, .make 3 1 "identifier" 4 6 none,
    .make 2 3 "ERROR" 7 9 none, .make 3 0 ")" 7 8 none, .make 3 3 "ERROR" 8 9 none, .make 4 0 "(" 8 9 none,
    .make 2 4 "\x7d" 9 9 none]

/-- The text of that module. -/
def nestedFaultText : SourceText := .ofString "a;\n\x7bé )("

/-- The outer error is reported. Before it on its line there are four bytes, two of them of one character. -/
theorem first_fault_reported_nested :
    ∃ root, Parser.ofListing nestedFaultListing .typescript nestedFaultText = some root ∧
      readModel (Parser.ofListing nestedFaultListing) nestedFaultText "a.ts" =
        .error (.faultySyntax "a.ts" 2 5) ∧
      ∃ front t back, root.preorder = front ++ t :: back ∧ (∀ u ∈ front, u.isFaulty = false) ∧
        t.isFaulty = true ∧
        ReportsFault (Parser.ofListing nestedFaultListing) nestedFaultText "a.ts" t := by
  have hdialect : Dialect.ofFilename "a.ts" = .ok .typescript := by decide
  obtain ⟨root, htree⟩ :
      ∃ root, Parser.ofListing nestedFaultListing .typescript nestedFaultText = some root := ⟨_, rfl⟩
  obtain ⟨-, -, hreport, -⟩ := first_fault_reported hdialect htree
  refine ⟨root, htree, rfl, hreport ?_⟩
  obtain rfl := Option.some.inj htree
  decide

end TestScaffold
