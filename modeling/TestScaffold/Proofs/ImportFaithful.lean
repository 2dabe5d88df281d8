import TestScaffold.Findings.Collection
import TestScaffold.Proofs.Distinct
import TestScaffold.Proofs.ImportReading
import TestScaffold.Proofs.WellFormed

set_option autoImplicit false

/-!
# Repeated imports

An `import` statement of the module is repeated in the scaffold, written from what was read of it. This
module says what a statement means by the grammar, and when the repeated line means the same.

## Main definitions

* `TestScaffold.ImportSays` — what an `import` statement of a tree says.
* `TestScaffold.KeptByRepetition` — the statements that are repeated with their meaning.

## Main results

* `TestScaffold.importLine_says_iff` — the repeated line says what the statement does, if and only if the
  path of the statement is a plain literal, its clause binds something and no name is bound twice.

## Implementation notes

A clause is given by its named children of three kinds, a member by its names; comments and modifiers of
single members are left out of the meaning. That identifiers are words is a fact about the parser.
-/

namespace TestScaffold

/-! ## The meaning of a statement -/

section Meaning

variable (src : SourceText)

/-- What a member between the braces of a clause binds. Only a member with another name may name an export
by a literal. -/
inductive MemberBinds (t : Tree) : Binding → Prop
  | plain {name : String} (hname : (t.childAt? .name).map (Tree.text src) = some name)
      (hnew : t.childAt? .newName = none) (hword : IsWord name) : MemberBinds t (.member name name)
  | renamed {imported localName : String}
      (hname : (t.childAt? .name).map (Tree.text src) = some imported)
      (hnew : (t.childAt? .newName).map (Tree.text src) = some localName)
      (himported : IsWord imported ∨ (Literal.value? imported).isSome = true) (hword : IsWord localName) :
      MemberBinds t (.member imported localName)

/-- What a part of a clause binds besides the default export: the whole module under a name, or members
between braces. -/
inductive GroupBinds (t : Tree) : List Binding → Prop
  | whole {name : Tree} (hkind : t.kind = .namespaceImport)
      (hname : t.namedChildren.filter (·.kind == .identifier) = [name])
      (hword : IsWord (name.text src)) : GroupBinds t [.whole (name.text src)]
  | members {bindings : List Binding} (hkind : t.kind = .namedImports)
      (hmembers : List.Forall₂ (MemberBinds src)
        (t.namedChildren.filter (·.kind == .importSpecifier)) bindings) : GroupBinds t bindings

/-- What the parts of a clause bind: the default export, a group, or both in this order. -/
inductive ClauseBinds : List Tree → List Binding → Prop
  | default {t : Tree} (hkind : t.kind = .identifier) (hword : IsWord (t.text src)) :
      ClauseBinds [t] [.default (t.text src)]
  | group {t : Tree} {bindings : List Binding} (h : GroupBinds src t bindings) : ClauseBinds [t] bindings
  | both {t u : Tree} {bindings : List Binding} (hkind : t.kind = .identifier)
      (hword : IsWord (t.text src)) (h : GroupBinds src u bindings) :
      ClauseBinds [t, u] (.default (t.text src) :: bindings)

/-- The clauses of a statement. -/
def importClauses (statement : Tree) : List Tree := statement.children.filter (·.kind == .importClause)

/-- Whether a node is a part of a clause. -/
def isClausePart (t : Tree) : Bool :=
  match t.kind with
  | .identifier | .namespaceImport | .namedImports => true
  | _ => false

/-- The parts of a clause. -/
def clauseParts (clause : Tree) : List Tree := clause.namedChildren.filter isClausePart

/-- What an `import` statement says: the module that its source literal denotes and, if it has a clause, the
bindings of that, for types only if the statement has the keyword. -/
structure ImportSays (statement : Tree) (r : ImportReading) : Prop where
  /-- The statement is an `import` statement. -/
  kind : statement.kind = .importStatement
  /-- The statement is a named node. -/
  named : statement.isNamed = true
  /-- The source of the statement denotes the module. -/
  path : ∃ source, statement.childAt? .source = some source ∧ Literal.value? (source.text src) = some r.path
  /-- There is no clause, or one that binds what is bound. -/
  bindings : importClauses statement = [] ∧ r.typeOnly = false ∧ r.bindings = [] ∨
    ∃ clause, importClauses statement = [clause] ∧ ClauseBinds src (clauseParts clause) r.bindings ∧
      r.typeOnly = statement.hasChildOfKind .typeKeyword

/-- The statements whose meaning is kept when they are repeated. -/
structure KeptByRepetition (statement : Tree) (bindings : List Binding) : Prop where
  /-- The source is a plain literal. -/
  plain : ∀ source ∈ statement.childAt? .source, Literal.IsPlain (source.text src)
  /-- The braces of a clause are not empty, unless there is another binding. -/
  binds : importClauses statement ≠ [] → bindings ≠ []
  /-- No name is bound twice. -/
  distinct : (bindings.map Binding.localName).Nodup

end Meaning

/-! ## The reading of a statement -/

section Reading

variable {src : SourceText} {bindings : List Binding}

theorem memberBinding?_of_memberBinds {t : Tree} {b : Binding} (hkind : t.kind = .importSpecifier)
    (h : MemberBinds src t b) : memberBinding? src t = some b := by
  cases h with
  | plain hname hnew hword =>
    obtain ⟨name, hchild, rfl⟩ := Option.map_eq_some_iff.1 hname
    simp [memberBinding?, hkind, hchild, hnew]
  | renamed hname hnew himported hword =>
    obtain ⟨name, hchild, rfl⟩ := Option.map_eq_some_iff.1 hname
    obtain ⟨newName, hnewChild, rfl⟩ := Option.map_eq_some_iff.1 hnew
    simp [memberBinding?, hkind, hchild, hnewChild]

/-- The members of a group are read one by one; other nodes between the braces bind nothing. -/
theorem filterMap_memberBinding? {cs : List Tree}
    (h : List.Forall₂ (MemberBinds src) (cs.filter (·.kind == .importSpecifier)) bindings) :
    cs.filterMap (memberBinding? src) = bindings := by
  induction cs generalizing bindings with
  | nil =>
    cases h
    rfl
  | cons c cs ih =>
    by_cases hkind : c.kind = .importSpecifier
    · rw [List.filter_cons_of_pos (by simpa using hkind)] at h
      cases h with
      | cons hmember htail =>
        rw [List.filterMap_cons_some (memberBinding?_of_memberBinds hkind hmember), ih htail]
    · rw [List.filter_cons_of_neg (by simpa using hkind)] at h
      have hnone : memberBinding? src c = none := by simp [memberBinding?, hkind]
      rw [List.filterMap_cons_none hnone, ih h]

theorem specifierBindings_of_groupBinds {t : Tree} (h : GroupBinds src t bindings) :
    specifierBindings src t = bindings := by
  cases h with
  | whole hkind hname hword =>
    simp only [specifierBindings, hkind]
    rw [← List.head?_filter, hname]
    rfl
  | members hkind hmembers =>
    simp only [specifierBindings, hkind]
    exact filterMap_memberBinding? hmembers

theorem specifierBindings_identifier {t : Tree} (hkind : t.kind = .identifier) :
    specifierBindings src t = [.default (t.text src)] := by
  simp only [specifierBindings, hkind]

/-- A part of a clause says how the statement binds, and no other node does. -/
theorem isSome_specifierKind? (t : Tree) : (specifierKind? t).isSome = isClausePart t := by
  unfold specifierKind? isClausePart
  cases t.kind <;> rfl

/-- The parts of a clause are read one by one; its other nodes bind nothing. -/
theorem flatMap_clauseParts (cs : List Tree) :
    (cs.filter isClausePart).flatMap (specifierBindings src) = cs.flatMap (specifierBindings src) := by
  induction cs with
  | nil => rfl
  | cons c cs ih =>
    cases hpart : isClausePart c with
    | true => rw [List.filter_cons_of_pos hpart, List.flatMap_cons, List.flatMap_cons, ih]
    | false =>
      have hnone : specifierKind? c = none := by
        rw [← Option.not_isSome_iff_eq_none, isSome_specifierKind?, hpart]
        exact Bool.false_ne_true
      rw [List.filter_cons_of_neg (by rw [hpart]; exact Bool.false_ne_true), List.flatMap_cons, ih,
        specifierBindings_eq_nil hnone, List.nil_append]

/-- A clause is read as what it binds. -/
theorem flatMap_specifierBindings {parts : List Tree} (h : ClauseBinds src parts bindings) :
    parts.flatMap (specifierBindings src) = bindings := by
  cases h with
  | default hkind hword => rw [List.flatMap_singleton, specifierBindings_identifier hkind]
  | group hgroup => rw [List.flatMap_singleton, specifierBindings_of_groupBinds hgroup]
  | both hkind hword hgroup =>
    rw [List.flatMap_cons, List.flatMap_singleton, specifierBindings_identifier hkind,
      specifierBindings_of_groupBinds hgroup]
    rfl

/-! ## The bindings of the grammar -/

theorem wellNamed_of_memberBinds {t : Tree} {b : Binding} (h : MemberBinds src t b) :
    b.WellNamed ∧ b.isMember = true := by
  cases h with
  | plain hname hnew hword => exact ⟨.member (.inl hword) hword, rfl⟩
  | renamed hname hnew himported hword => exact ⟨.member himported hword, rfl⟩

theorem forall_memberBinds {parts : List Tree} (h : List.Forall₂ (MemberBinds src) parts bindings) :
    ∀ b ∈ bindings, b.WellNamed ∧ b.isMember = true := by
  induction h with
  | nil => exact List.forall_mem_nil _
  | cons hmember _ ih => exact List.forall_mem_cons.2 ⟨wellNamed_of_memberBinds hmember, ih⟩

/-- Members may stand in any order, and behind the default export. -/
theorem Binding.mayPrecede_of_isMember {a b : Binding} (ha : ∀ name, a ≠ .whole name)
    (hb : b.isMember = true) : a.MayPrecede b := by
  obtain ⟨imported, localName, rfl⟩ := Binding.exists_of_isMember hb
  cases a with
  | default name => trivial
  | whole name => exact absurd rfl (ha name)
  | member imported' localName' => trivial

/-- The bindings of a group stand in an order of the grammar, also behind the default export. -/
theorem order_of_groupBinds {t : Tree} (h : GroupBinds src t bindings) :
    (∀ b ∈ bindings, b.WellNamed) ∧ bindings.Pairwise Binding.MayPrecede ∧
      ∀ name, ∀ b ∈ bindings, (Binding.default name).MayPrecede b := by
  cases h with
  | whole hkind hname hword =>
    refine ⟨?_, List.pairwise_singleton _ _, ?_⟩
    · exact List.forall_mem_singleton.2 (.whole hword)
    · exact fun name => List.forall_mem_singleton.2 trivial
  | members hkind hmembers =>
    have hall := forall_memberBinds hmembers
    refine ⟨fun b hb => (hall b hb).1, List.pairwise_of_forall_mem_list fun a ha b hb => ?_,
      fun name b hb => ?_⟩
    · refine Binding.mayPrecede_of_isMember (fun name heq => ?_) (hall b hb).2
      subst heq
      cases (hall _ ha).2
    · exact Binding.mayPrecede_of_isMember (fun whole heq => by cases heq) (hall b hb).2

/-- The bindings of a clause have names of the grammar and stand in an order of the grammar. -/
theorem order_of_clauseBinds {parts : List Tree} (h : ClauseBinds src parts bindings) :
    (∀ b ∈ bindings, b.WellNamed) ∧ bindings.Pairwise Binding.MayPrecede := by
  cases h with
  | default hkind hword =>
    exact ⟨List.forall_mem_singleton.2 (.default hword), List.pairwise_singleton _ _⟩
  | group hgroup =>
    obtain ⟨hnamed, horder, -⟩ := order_of_groupBinds hgroup
    exact ⟨hnamed, horder⟩
  | both hkind hword hgroup =>
    obtain ⟨hnamed, horder, hdefault⟩ := order_of_groupBinds hgroup
    exact ⟨List.forall_mem_cons.2 ⟨.default hword, hnamed⟩,
      List.pairwise_cons.2 ⟨hdefault _, horder⟩⟩

/-- A clause has a part, and that says how its statement binds. -/
theorem findSome?_specifierKind?_ne_none {clause : Tree}
    (h : ClauseBinds src (clauseParts clause) bindings) :
    clause.namedChildren.findSome? specifierKind? ≠ none := by
  intro hnone
  have hparts : clauseParts clause = [] := by
    rw [clauseParts, List.filter_eq_nil_iff]
    intro t ht hpart
    rw [← isSome_specifierKind?, List.findSome?_eq_none_iff.1 hnone t ht] at hpart
    cases hpart
  rw [hparts] at h
  cases h

end Reading

/-! ## The repeated line -/

section Repeated

variable {src : SourceText} {p : Locus} {r : ImportReading}

/-- **What is read of a statement**: the bindings that it has, each name once, and the text between the
quotes of its source. It binds in the way of a clause if it has one. -/
theorem import?_of_importSays {statement source : Tree} (h : ImportSays src statement r)
    (hsource : statement.childAt? .source = some source) :
    ∃ kind, (kind = .sideEffect ↔ importClauses statement = []) ∧ import? src statement =
      some ⟨kind, r.bindings.eraseDupsBy fun a b => a.localName == b.localName,
        stripQuotes (source.text src), statement.hasChildOfKind .typeKeyword⟩ := by
  unfold import?
  rw [hsource]
  rcases h.bindings with ⟨hnone, -, hnil⟩ | ⟨clause, hclause, hbinds, -⟩
  · refine ⟨.sideEffect, ⟨fun _ => hnone, fun _ => rfl⟩, ?_⟩
    have hspecs : statement.children.filter (·.kind == .importClause) = [] := hnone
    rw [hspecs, hnil]
    rfl
  · have hspecs : (statement.children.filter (·.kind == .importClause)).flatMap Tree.namedChildren =
        clause.namedChildren := by
      rw [← importClauses, hclause, List.flatMap_singleton]
    have hbindings : clause.namedChildren.flatMap (specifierBindings src) = r.bindings := by
      rw [← flatMap_clauseParts]
      exact flatMap_specifierBindings hbinds
    obtain ⟨kind, hkind⟩ := Option.ne_none_iff_exists'.1 (findSome?_specifierKind?_ne_none hbinds)
    obtain ⟨spec, -, hspec⟩ := List.exists_of_findSome?_eq_some hkind
    refine ⟨kind, ⟨fun heq => ?_, fun hnone => ?_⟩, ?_⟩
    · exact absurd (heq ▸ hspec) (specifierKind?_ne_sideEffect spec)
    · rw [hnone] at hclause
      cases hclause
    · simp only [hspecs, hbindings, hkind, Option.getD_some]

/-- An `import` statement is found once, as what is read of it. -/
theorem findings_of_importSays {source : Tree} (h : ImportSays src p.node r)
    (hsource : p.node.childAt? .source = some source) :
    ∃ kind, (kind = .sideEffect ↔ importClauses p.node = []) ∧ p.findings src =
      [.imported ⟨kind, r.bindings.eraseDupsBy fun a b => a.localName == b.localName,
        stripQuotes (source.text src), p.node.hasChildOfKind .typeKeyword⟩] := by
  obtain ⟨kind, hkind, hread⟩ := import?_of_importSays h hsource
  refine ⟨kind, hkind, ?_⟩
  simp only [Locus.findings, h.named, h.kind, hread]
  rfl

/-- A line without a clause says what it should if and only if the literal of its path was plain. -/
theorem ofText?_importLine_eq_bare_iff {d : Import} {raw : String} {path : List Nat}
    (hkind : d.kind = .sideEffect) (hpath : d.modulePath = stripQuotes raw)
    (hvalue : Literal.value? raw = some path) :
    ImportReading.ofText? (importLine d) = some ⟨false, [], path⟩ ↔ Literal.IsPlain raw := by
  rw [ImportReading.ofText?_importLine_sideEffect hkind, hpath,
    ← Literal.value?_quoted_stripQuotes hvalue]
  constructor
  · intro hr
    obtain ⟨path', hpath', heq⟩ := Option.map_eq_some_iff.1 hr
    have hmodule : path' = path := congrArg ImportReading.path heq
    rw [hpath', hmodule]
  · intro hr
    rw [hr]
    rfl

/-- A line with a clause says what it should if and only if the literal of its path was plain, there is a
binding, and no name is bound twice. -/
theorem ofText?_importLine_eq_clause_iff {d : Import} {raw : String} {path : List Nat}
    {bindings : List Binding} (hkind : d.kind ≠ .sideEffect) (hpath : d.modulePath = stripQuotes raw)
    (hvalue : Literal.value? raw = some path)
    (hkept : d.bindings = bindings.eraseDupsBy fun a b => a.localName == b.localName)
    (hnamed : ∀ b ∈ bindings, b.WellNamed) (horder : bindings.Pairwise Binding.MayPrecede) :
    ImportReading.ofText? (importLine d) = some ⟨d.typeOnly, bindings, path⟩ ↔
      Literal.IsPlain raw ∧ bindings ≠ [] ∧ (bindings.map Binding.localName).Nodup := by
  have hempty : d.bindings = [] ↔ bindings = [] := by rw [hkept, eraseDupsBy_eq_nil_iff]
  have hdistinct : d.bindings = bindings ↔ (bindings.map Binding.localName).Nodup := by
    rw [hkept, eraseDupsBy_eq_self_iff]
  have hsublist : d.bindings.Sublist bindings := hkept ▸ eraseDupsBy_sublist _ _
  rw [← Literal.value?_quoted_stripQuotes hvalue, ← hpath, ← hdistinct]
  -- A clause that binds nothing fails on both sides; another one is read back as what was kept of it.
  by_cases hnil : bindings = []
  · constructor
    · intro hr
      exact absurd hnil (ImportReading.bindings_ne_nil_of_ofText? hkind (hempty.2 hnil) hr)
    · intro hr
      exact absurd hnil hr.2.1
  · rw [ImportReading.ofText?_importLine hkind (fun hnone => hnil (hempty.1 hnone))
      (horder.sublist hsublist) fun b hb => hnamed b (hsublist.subset hb)]
    constructor
    · intro hr
      obtain ⟨path', hpath', heq⟩ := Option.map_eq_some_iff.1 hr
      have hmodule : path' = path := congrArg ImportReading.path heq
      rw [hpath', hmodule]
      exact ⟨rfl, hnil, congrArg ImportReading.bindings heq⟩
    · intro hr
      rw [hr.1, hr.2.2]
      rfl

/-- The source of a statement is the literal that has to be plain. -/
theorem keptByRepetition_iff {statement source : Tree} {bindings : List Binding}
    (hsource : statement.childAt? .source = some source) :
    KeptByRepetition src statement bindings ↔
      Literal.IsPlain (source.text src) ∧ (importClauses statement ≠ [] → bindings ≠ []) ∧
        (bindings.map Binding.localName).Nodup := by
  constructor
  · intro h
    exact ⟨h.plain source hsource, h.binds, h.distinct⟩
  · rintro ⟨hplain, hbinds, hdistinct⟩
    refine ⟨fun source' hsource' => ?_, hbinds, hdistinct⟩
    obtain rfl := Option.some.inj (hsource.symm.trans hsource')
    exact hplain

/-- **The repeated line says what the statement does** if and only if the source of the statement is a plain
literal, its clause binds something and no name is bound twice.

**Proof sketch.** What is read of a statement is what it binds, each name once, and the text between the
quotes of its source. The line written from that says just these bindings, and names what the text denotes
in double quotes. A plain literal is one that denotes the same. Without any binding the line of a clause has
nothing before `from`, so it does not say what the statement does. -/
theorem importLine_says_iff (h : ImportSays src p.node r) :
    (∃ d, p.findings src = [.imported d] ∧ ImportReading.ofText? (importLine d) = some r) ↔
      KeptByRepetition src p.node r.bindings := by
  obtain ⟨source, hsource, hvalue⟩ := h.path
  obtain ⟨kind, hkind, hfound⟩ := findings_of_importSays h hsource
  rw [keptByRepetition_iff hsource, hfound]
  simp only [List.cons.injEq, Finding.imported.injEq, and_true, exists_eq_left']
  obtain ⟨typeOnly, bindings, path⟩ := r
  rcases h.bindings with ⟨hnone, htype, hbindings⟩ | ⟨clause, hclause, hbinds, htype⟩
  -- Without a clause only the path counts.
  · subst htype hbindings
    refine (ofText?_importLine_eq_bare_iff ?_ rfl hvalue).trans ?_
    · exact hkind.2 hnone
    · simp [hnone]
  · have hclauses : importClauses p.node ≠ [] := by
      rw [hclause]
      exact List.cons_ne_nil _ _
    obtain ⟨hnamed, horder⟩ := order_of_clauseBinds hbinds
    subst htype
    refine (ofText?_importLine_eq_clause_iff ?_ rfl hvalue rfl hnamed horder).trans ?_
    · exact fun heq => hclauses (hkind.1 heq)
    · simp [hclauses]

end Repeated

/-- An `import` statement with a default binding and two renamed members. -/
def mixedImportStatement : Tree :=
  .node ⟨.importStatement, true, none, 0, 44, none⟩
    [.node ⟨.importClause, true, none, 7, 32, none⟩
        [.node ⟨.identifier, true, none, 7, 8, none⟩ [],
          .node ⟨.namedImports, true, none, 10, 32, none⟩
            [.node ⟨.importSpecifier, true, none, 12, 18, none⟩
                [.node ⟨.identifier, true, none, 12, 13, some .name⟩ [],
                  .node ⟨.identifier, true, none, 17, 18, some .newName⟩ []],
              .node ⟨.importSpecifier, true, none, 20, 30, none⟩
                [.node ⟨.string, true, none, 20, 25, some .name⟩ [],
                  .node ⟨.identifier, true, none, 29, 30, some .newName⟩ []]]],
      .node ⟨.string, true, none, 38, 43, some .source⟩ []]

/-- The text of that statement. -/
def mixedImportText : SourceText :=
  SourceText.ofString "import d, \x7b a as b, \"e f\" as g \x7d from 'lib';"

/-- What that statement says. -/
def mixedImport : ImportReading :=
  ⟨false, [.default "d", .member "a" "b", .member "\"e f\"" "g"], utf16 "lib".toList⟩

/-- A statement with several bindings is repeated with its meaning. -/
theorem importLine_says_mixed :
    ImportSays mixedImportText mixedImportStatement mixedImport ∧
      ∃ d, (Locus.mk mixedImportStatement []).findings mixedImportText = [.imported d] ∧
        ImportReading.ofText? (importLine d) = some mixedImport := by
  have hmeaning : ImportSays mixedImportText mixedImportStatement mixedImport := by
    refine
      { kind := rfl
        named := rfl
        path := ⟨_, rfl, by decide⟩
        bindings := .inr ⟨_, rfl, .both rfl (by decide) (.members rfl (.cons ?_ (.cons ?_ .nil))), rfl⟩ }
    · exact .renamed rfl rfl (.inl (by decide)) (by decide)
    · exact .renamed rfl rfl (.inr (by decide)) (by decide)
  have hplain : ∀ source ∈ mixedImportStatement.childAt? .source,
      Literal.IsPlain (source.text mixedImportText) := by
    rintro source ⟨⟩
    decide
  exact ⟨hmeaning, (importLine_says_iff hmeaning).2
    ⟨hplain, fun _ => List.cons_ne_nil _ _, by decide⟩⟩

/-- The listing of a statement with an escaped quote in its path. -/
def escapedImportListing : List Row :=
  [.make 0 1 "program" 0 15 none, .make 1 1 "import_statement" 0 15 none, .make 2 0 "import" 0 6 none,
    .make 2 1 "string" 7 14 "source", .make 3 0 "'" 7 8 none, .make 3 1 "string_fragment" 8 10 none,
    .make 3 1 "escape_sequence" 10 12 none, .make 3 1 "string_fragment" 12 13 none,
    .make 3 0 "'" 13 14 none, .make 2 0 ";" 14 15 none]

/-- The text of that statement. -/
def escapedImportText : SourceText := SourceText.ofString "import 'it\\'s';"

/-- What that statement says. -/
def escapedImport : ImportReading := ⟨false, [], utf16 "it's".toList⟩

/-- An escape in the path is not kept: the repeated line loads another module, with a backslash in its
name. -/
theorem importLine_says_ne_escaped :
    ∃ root p, Tree.ofRows? escapedImportListing = some root ∧ (root.loci [])[1]? = some p ∧
      ImportSays escapedImportText p.node escapedImport ∧
      ∃ d, p.findings escapedImportText = [.imported d] ∧ importLine d = "import \"it\\\\'s\";" ∧
        ImportReading.ofText? (importLine d) = some ⟨false, [], utf16 "it\\'s".toList⟩ ∧
        ImportReading.ofText? (importLine d) ≠ some escapedImport :=
  ⟨_, _, rfl, rfl,
    { kind := rfl
      named := rfl
      path := ⟨_, rfl, by decide⟩
      bindings := .inl ⟨rfl, rfl, rfl⟩ },
    _, rfl, by decide, by decide, by decide⟩

end TestScaffold
