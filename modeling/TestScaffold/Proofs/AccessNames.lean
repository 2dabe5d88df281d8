import TestScaffold.Proofs.CallTrace
import TestScaffold.Proofs.NameForms

set_option autoImplicit false

/-!
# The names that a scaffold calls its units by

A scaffold copies names from the syntax tree of a module and puts dots between them. Here the names of a test and
of the calls that it observes are traced to nodes of the tree, of which the grammar tells what form they have.

## Main definitions

* `TestScaffold.TestCase.CallsPlainly`, `TestScaffold.SourcedTest.NamedPlainly` — a test calls its unit by plain
  names, and the names are plain in the source.

## Main results

* `TestScaffold.Tree.NamesSpelled.isMemberName_of_mem_publishedCalls` — the names of observed calls.
* `TestScaffold.Tree.NamesSpelled.names_of_mem_sourcedTests` — the names of tests.
* `TestScaffold.Tree.NamesSpelled.callsPlainly_iff` — when a test calls its unit by plain names.
-/

namespace TestScaffold

section Names

variable {src : SourceText} {root : Tree} (hspelled : root.NamesSpelled src)

/-! ## Names of units -/

mutual

/-- The places of a part of a tree are reached from its root. -/
theorem Tree.reaches_of_mem_loci {p : Locus} {above : List Crumb} :
    ∀ t : Tree, root.Reaches t above → p ∈ t.loci above → root.Reaches p.node p.above
  | node l cs, hreach, hp => by
    rw [loci, List.mem_cons] at hp
    rcases hp with rfl | hp
    · exact hreach
    · exact reaches_of_mem_lociBelow cs hreach rfl hp

/-- The places below a node of a tree are reached from its root. -/
theorem Tree.reaches_of_mem_lociBelow {p : Locus} {above : List Crumb} {parent : Tree} {i : Nat} :
    ∀ cs : List Tree, root.Reaches parent above → parent.children.drop i = cs →
      p ∈ lociBelow parent above i cs → root.Reaches p.node p.above
  | [], _, _, hp => by
    rw [lociBelow] at hp
    cases hp
  | c :: cs, hreach, hdrop, hp => by
    have hc : parent.children[i]? = some c := by
      rw [← List.head?_drop, hdrop]
      rfl
    rw [lociBelow, List.mem_append] at hp
    rcases hp with hp | hp
    · exact reaches_of_mem_loci c (.down hreach hc) hp
    · refine reaches_of_mem_lociBelow cs hreach ?_ hp
      rw [← List.drop_drop, hdrop]
      rfl

end

/-- A sourced reading is found at a place of its node. -/
theorem Tree.exists_locus_of_mem_sourced {α : Type} {sort : Finding → Option (Reading α)} {s : Sourced α}
    (h : s ∈ root.sourced src sort) :
    ∃ p : Locus, root.Reaches p.node p.above ∧ p.node = s.node ∧
      ∃ x ∈ p.findings src, sort x = some s.reading := by
  obtain ⟨p, hp, h⟩ := List.mem_flatMap.1 h
  obtain ⟨x, hx, h⟩ := List.mem_filterMap.1 h
  obtain ⟨r, hr, rfl⟩ := Option.map_eq_some_iff.1 h
  exact ⟨p, reaches_of_mem_loci root .here hp, rfl, x, hx, hr⟩

/-- The names that a chain is split into are those of the chain. -/
theorem FunctionName.mem_of_ofChain? {chain : List String} {n : FunctionName} (h : ofChain? chain = some n) :
    ∀ name ∈ n.qualifier ++ [n.name], name ∈ chain := by
  unfold ofChain? at h
  split at h
  · cases h
  · next last hlast =>
    obtain rfl := Option.some.inj h
    intro name hname
    rcases List.mem_append.1 hname with hname | hname
    · exact List.dropLast_subset _ (List.mem_filter.1 hname).1
    · obtain rfl := List.mem_singleton.1 hname
      exact List.mem_of_getLast? hlast

namespace Tree.NamesSpelled

include hspelled

/-- The name of a variable is a word. -/
theorem isWord_of_initialisedVariable? {p : Locus} {name : String} (hp : root.Reaches p.node p.above)
    (h : initialisedVariable? src p = some name) : IsWord name := by
  obtain ⟨t, above⟩ := p
  unfold initialisedVariable? at h
  cases hp with
  | here => cases h
  | @down parent _ _ i hparent hc =>
    dsimp only at h
    split at h
    · next hvalue =>
      rw [Bool.and_eq_true, beq_iff_eq] at hvalue
      unfold identifierAt? at h
      split at h
      · next c hname =>
        split at h
        · next hkind =>
          obtain rfl := Option.some.inj h
          exact hspelled.identifiers parent hparent.mem_preorder .name (by rw [hvalue.1]; decide) c hname
            (eq_of_beq hkind)
        · cases h
      · cases h
    · cases h

/-- The names that a function is assigned to are words or hidden. -/
theorem isMemberName_of_assignedName? {p : Locus} {n : FunctionName} (hp : root.Reaches p.node p.above)
    (h : assignedName? src p = some n) : ∀ name ∈ n.qualifier ++ [n.name], IsMemberName name := by
  obtain ⟨t, above⟩ := p
  unfold assignedName? at h
  cases hp with
  | here => cases h
  | @down parent _ _ i hparent hc =>
    dsimp only at h
    split at h
    · next hvalue =>
      rw [Bool.and_eq_true, beq_iff_eq] at hvalue
      obtain ⟨left, hleft, hassigned⟩ := Option.bind_eq_some_iff.1 h
      obtain ⟨chain, hchain, hsplit⟩ := Option.bind_eq_some_iff.1 hassigned
      have hword := hspelled.identifiers parent hparent.mem_preorder .left (by rw [hvalue.1]; decide) left hleft
      intro name hname
      have hmem := FunctionName.mem_of_ofChain? hsplit name hname
      unfold assignedChain? at hchain
      split at hchain
      · next hkind =>
        obtain rfl := Option.some.inj hchain
        obtain rfl := List.mem_singleton.1 hmem
        exact Or.inl (hword hkind)
      · obtain rfl := Option.some.inj hchain
        have hin := Tree.mem_preorder_of_childAt? hparent.mem_preorder hleft
        exact hspelled.isMemberName_of_mem_nameChain hin hword name hmem
      · cases hchain
    · cases h

/-- The names that a function expression is bound to are words or hidden. -/
theorem isMemberName_of_boundName? {p : Locus} {n : FunctionName} (hp : root.Reaches p.node p.above)
    (h : boundName? src p = some n) : ∀ name ∈ n.qualifier ++ [n.name], IsMemberName name := by
  rcases Option.or_eq_some_iff.1 h with hvariable | ⟨-, hassigned⟩
  · obtain ⟨word, hword, rfl⟩ := Option.map_eq_some_iff.1 hvariable
    exact List.forall_mem_singleton.2 (Or.inl (hspelled.isWord_of_initialisedVariable? hp hword))
  · exact hspelled.isMemberName_of_assignedName? hp hassigned

/-- The name of a class is a word. -/
theorem isWord_name_of_mem_sourced {s : Sourced ClassUnit} (h : s ∈ root.sourced src Finding.class?) :
    IsWord s.reading.unit.name := by
  obtain ⟨p, hp, -, x, hx, hsort⟩ := Tree.exists_locus_of_mem_sourced h
  cases x with
  | classFound r =>
    obtain rfl := Option.some.inj hsort
    obtain ⟨name, hdeclares, hread⟩ := Locus.classFound_mem_findings.1 hx
    have hname : s.reading.unit.name = name := congrArg (·.unit.name) hread
    rw [hname]
    rcases Option.or_eq_some_iff.1 hdeclares.reachable with hvariable | ⟨-, hown⟩
    · exact hspelled.isWord_of_initialisedVariable? hp hvariable
    · obtain ⟨c, hc, rfl⟩ := Option.map_eq_some_iff.1 hown
      exact hspelled.isWord_declared hp.mem_preorder (List.mem_append_left _ hdeclares.holds.kind) hc
  | _ => cases hsort

/-- The names of a function and of what it is reached through are words or hidden, and it is no method. -/
theorem isMemberName_of_mem_sourced {s : Sourced FunctionUnit} (h : s ∈ root.sourced src Finding.function?) :
    s.node.kind ∈ functionDeclarationKinds ++ functionExpressionKinds ∧
      ∀ name ∈ s.reading.unit.qualifier ++ [s.reading.unit.name], IsMemberName name := by
  obtain ⟨p, hp, hnode, x, hx, hsort⟩ := Tree.exists_locus_of_mem_sourced h
  cases x with
  | functionFound r =>
    obtain rfl := Option.some.inj hsort
    obtain ⟨n, hdeclares, hread⟩ := Locus.functionFound_mem_findings.1 hx
    have hunit : s.reading.unit.boundTo = n := congrArg (·.unit.boundTo) hread
    change _ ∧ ∀ name ∈ s.reading.unit.boundTo.qualifier ++ [s.reading.unit.boundTo.name], IsMemberName name
    rw [hunit, ← hnode]
    cases hdeclares with
    | declaration holds hname =>
      refine ⟨List.mem_append_left _ holds.kind, List.forall_mem_singleton.2 (Or.inl ?_)⟩
      exact hspelled.isWord_declared hp.mem_preorder (List.mem_append_right _ holds.kind) hname
    | expression holds hname =>
      exact ⟨List.mem_append_right _ holds.kind, hspelled.isMemberName_of_boundName? hp hname⟩
  | _ => cases hsort

end Tree.NamesSpelled

/-! ## Names of calls -/

variable {specifier : String}

/-- What is found of one sort in a tree is sourced. -/
theorem Tree.exists_sourced {α : Type} {sort : Finding → Option (Reading α)} {r : Reading α}
    (h : r ∈ ((root.loci []).flatMap (Locus.findings src)).filterMap sort) :
    ∃ s ∈ root.sourced src sort, s.reading = r := by
  rw [← List.mem_map, Tree.map_reading_sourced]
  exact h

/-- A method has the name and the calls of its member. -/
theorem exists_name_of_method? {member : Tree} {method : Method} (h : method? src member = some method) :
    (∃ c, member.childAt? .name = some c ∧ method.name = c.text src) ∧
      method.calls = (scopeFacts src member).calls := by
  unfold method? at h
  split at h
  · cases h
  · next c hc =>
    split at h
    · cases h
    · obtain rfl := Option.some.inj h
      exact ⟨⟨c, hc, rfl⟩, rfl⟩

/-- A method is read from a method definition. -/
theorem kind_of_mem_methodMembers {members : List Tree} {member : Tree} {method : Method}
    (h : (member, method) ∈ methodMembers src members) : member.kind = .methodDefinition := by
  obtain ⟨t, ht, hmap⟩ := List.mem_filterMap.1 h
  obtain ⟨m, -, heq⟩ := Option.map_eq_some_iff.1 hmap
  rw [← (Prod.mk.inj heq).1]
  exact eq_of_beq (List.mem_filter.1 ht).2

/-- A call in a class is in one of its members. -/
theorem exists_member_of_mem_calls {node : Tree} {name : String} {method : Method} {site : CallChain}
    (hmethod : method ∈ (classReading src node name).unit.methods) (hsite : site ∈ method.calls) :
    ∃ member ∈ classMembers node, site ∈ (scopeFacts src member).calls := by
  have hread : method ∈ (methodMembers src (classMembers node)).map (·.2) := by
    change method ∈ withConstructor ((methodMembers src (classMembers node)).map (·.2)) at hmethod
    unfold withConstructor at hmethod
    split at hmethod
    · exact hmethod
    · refine (List.mem_cons.1 hmethod).resolve_left fun heq => ?_
      rw [heq] at hsite
      cases hsite
  obtain ⟨⟨member, m⟩, hpair, rfl⟩ := List.mem_map.1 hread
  obtain ⟨hmember, hm⟩ := Tree.of_mem_methodMembers hpair
  exact ⟨member, hmember, (exists_name_of_method? hm).2 ▸ hsite⟩

/-- A test observes calls of a published unit. -/
theorem Findings.mem_publishedCalls_of_mem_testCases {f : Findings} {t : TestCase} {site : CallChain}
    (ht : t ∈ f.toModel.testCases) (hsite : site ∈ t.calls) : site ∈ f.publishedCalls := by
  have htests := Model.tests_of_mem_testCases ht
  generalize t.calls = calls at htests hsite
  cases htests with
  | method hc hm _ =>
    exact List.mem_append_left _ (List.mem_flatMap.2 ⟨_, hc, List.mem_flatMap.2 ⟨_, hm, hsite⟩⟩)
  | function hg _ => exact List.mem_append_right _ (List.mem_flatMap.2 ⟨_, hg, hsite⟩)

namespace Tree.NamesSpelled

include hspelled

/-- The names of the calls that a model gathers are words or hidden. -/
theorem isMemberName_of_mem_publishedCalls {site : CallChain}
    (h : site ∈ (Findings.ofTree src specifier root).publishedCalls) :
    ∀ name ∈ site.segments, IsMemberName name := by
  cases Findings.mem_publishedCalls.1 h with
  | ofMethod c m hc _ hm hsite =>
    obtain ⟨s, hs, rfl⟩ := Tree.exists_sourced hc
    obtain ⟨hin, name, hread⟩ := Tree.exists_classReading hs
    rw [hread] at hm
    obtain ⟨member, hmember, hcalls⟩ := exists_member_of_mem_calls hm hsite
    exact hspelled.isMemberName_of_mem_calls (Tree.mem_preorder_of_mem_classMembers hin hmember) hcalls
  | ofFunction g hg _ hsite =>
    obtain ⟨s, hs, rfl⟩ := Tree.exists_sourced hg
    obtain ⟨hin, name, hread⟩ := Tree.exists_functionReading hs
    rw [hread] at hsite
    exact hspelled.isMemberName_of_mem_calls hin hsite

end Tree.NamesSpelled

/-! ## Names of tests -/

/-- The names that lead to what a test calls are plain in the source: the method has a plain name, or no name that
leads to the function is hidden. -/
def SourcedTest.NamedPlainly (s : SourcedTest) : Prop :=
  if s.node.kind = .methodDefinition then
    ∀ c ∈ s.node.childAt? .name, NameForm.ofKind? c.kind = some .word
  else ∀ name ∈ s.case.chain, ¬IsHidden name

/-- The call of a test is a member access by plain names, with the arguments behind it. -/
def TestCase.CallsPlainly (t : TestCase) : Prop :=
  ∃ text, IsAccess text ∧ t.call = text ++ parenthesized t.parameters

/-- The call of a test is one by plain names if its chain is written like a member access. -/
theorem TestCase.callsPlainly_iff {t : TestCase} : t.CallsPlainly ↔ IsAccess (dotted t.chain) := by
  constructor
  · rintro ⟨text, haccess, hcall⟩
    rwa [(String.append_left_inj _).1 hcall]
  · exact fun haccess => ⟨_, haccess, rfl⟩

/-- What stands for the own object in the unit under test is the first name of the call. -/
theorem head?_chain_of_receiver {m : Model} {t : TestCase} {receiver : String} (ht : t ∈ m.testCases)
    (h : t.receiver = some receiver) : t.chain.head? = some receiver := by
  cases Model.tests_of_mem_testCases ht with
  | method _ _ _ => exact h
  | @function g _ _ =>
    change g.receiver? = some receiver at h
    unfold FunctionUnit.receiver? at h
    split at h
    · change (g.callQualifier ++ [g.name]).head? = some receiver
      rw [List.head?_append, h, Option.some_or]
    · cases h

/-- A function is called through names that it is reached through, perhaps one of them in lower case. -/
theorem mem_callQualifier {g : FunctionUnit} {name : String} (h : name ∈ g.callQualifier) :
    ∃ segment ∈ g.qualifier, name = segment ∨ name = decapitalize segment := by
  unfold FunctionUnit.callQualifier at h
  split at h
  · exact ⟨name, h, Or.inl rfl⟩
  · next i _ =>
    split at h
    · next owner rest hdrop =>
      have hmem : ∀ segment ∈ owner :: rest, segment ∈ g.qualifier := fun segment hsegment =>
        List.mem_of_mem_drop (hdrop ▸ hsegment)
      rcases List.mem_cons.1 h with rfl | hrest
      · exact ⟨owner, hmem owner List.mem_cons_self, Or.inr rfl⟩
      · exact ⟨name, hmem name (List.mem_cons_of_mem _ hrest), Or.inl rfl⟩
    · exact ⟨name, h, Or.inl rfl⟩

namespace Tree.NamesSpelled

include hspelled

/-- The names that lead to a function of the model are words or hidden. -/
theorem isMemberName_of_mem_publishedFunctions {g : FunctionUnit}
    (hg : g ∈ (Findings.ofTree src specifier root).publishedFunctions) :
    ∀ name ∈ (functionCase g).chain, IsMemberName name := by
  obtain ⟨r, hr, -, hg⟩ := Findings.exists_of_mem_publishedFunctions hg
  obtain ⟨s, hs, rfl⟩ := Tree.exists_sourced hr
  have hnames : ∀ name ∈ g.qualifier ++ [g.name], IsMemberName name := by
    rcases hg with rfl | rfl <;> exact (hspelled.isMemberName_of_mem_sourced hs).2
  intro name hname
  rcases List.mem_append.1 hname with hname | hname
  · obtain ⟨segment, hsegment, rfl | rfl⟩ := mem_callQualifier hname
    · exact hnames _ (List.mem_append_left _ hsegment)
    · exact (hnames _ (List.mem_append_left _ hsegment)).decapitalize
  · exact hnames _ (List.mem_append_right _ hname)

/-- **The names of a test**: the test of a method goes through a word to a name of some form, all names of the test
of a function are words or hidden. -/
theorem names_of_mem_sourcedTests {s : SourcedTest} (h : s ∈ root.sourcedTests src specifier) :
    (s.node.kind = .methodDefinition ∧ ∃ receiver c form, s.node.childAt? .name = some c ∧
        s.case.chain = [receiver, c.text src] ∧ IsWord receiver ∧ NameForm.ofKind? c.kind = some form ∧
        form.Fits (c.text src)) ∨
      s.node.kind ≠ .methodDefinition ∧ ∀ name ∈ s.case.chain, IsMemberName name := by
  rcases List.mem_append.1 h with h | h
  · obtain ⟨c, hc, h⟩ := List.mem_flatMap.1 h
    obtain ⟨⟨member, method⟩, hpair, rfl⟩ := List.mem_map.1 h
    obtain ⟨hpair, -⟩ := List.mem_filter.1 hpair
    have hclass := (List.mem_filter.1 hc).1
    have hkind := kind_of_mem_methodMembers hpair
    obtain ⟨hmember, hmethod⟩ := Tree.of_mem_methodMembers hpair
    obtain ⟨⟨nameNode, hname, htext⟩, -⟩ := exists_name_of_method? hmethod
    have hin := Tree.mem_preorder_of_mem_classMembers (Tree.exists_classReading hclass).1 hmember
    obtain ⟨form, -, hof, hfits⟩ := hspelled.named member hin (.name, [.word, .hidden, .quoted, .number, .computed])
      (by rw [hkind]; exact List.mem_cons_self) nameNode hname
    have hword := hspelled.isWord_name_of_mem_sourced hclass
    refine Or.inl ⟨hkind, _, nameNode, form, hname, by rw [← htext]; rfl, ?_, hof, hfits⟩
    split
    · exact hword
    · exact hword.decapitalize
  · obtain ⟨⟨func, g⟩, hpair, rfl⟩ := List.mem_map.1 h
    obtain ⟨hpair, -⟩ := List.mem_filter.1 hpair
    obtain ⟨hfunc, hg⟩ := List.of_mem_zip hpair
    obtain ⟨s, hs, rfl⟩ := List.mem_map.1 hfunc
    refine Or.inr ⟨fun hkind => ?_, hspelled.isMemberName_of_mem_publishedFunctions hg⟩
    have hfunction := (hspelled.isMemberName_of_mem_sourced (List.mem_filter.1 hs).1).1
    change s.node.kind = .methodDefinition at hkind
    rw [hkind] at hfunction
    exact absurd hfunction (by decide)

/-- **When the call of a test is a member access by plain names.** -/
theorem callsPlainly_iff {s : SourcedTest} (h : s ∈ root.sourcedTests src specifier) {head : String}
    (hhead : s.case.chain.head? = some head) :
    s.case.CallsPlainly ↔ head ∉ reservedWords ∧ s.NamedPlainly := by
  rw [TestCase.callsPlainly_iff]
  rcases hspelled.names_of_mem_sourcedTests h with ⟨hkind, receiver, c, form, hc, hchain, hword, hof, hfits⟩ |
      ⟨hkind, hnames⟩
  · have hall : ∀ name ∈ s.case.chain, IsWord name ∨ IsMarked name := by
      rw [hchain]
      exact List.forall_mem_cons.2 ⟨Or.inl hword, List.forall_mem_singleton.2 hfits.isWord_or_isMarked⟩
    rw [isAccess_dotted_iff hhead hall, hchain, List.forall_mem_cons, List.forall_mem_singleton,
      and_iff_right hword, hfits.isWord_iff, SourcedTest.NamedPlainly, if_pos hkind, hc]
    simp [hof]
  · rw [isAccess_dotted_iff_not_isHidden hhead hnames, SourcedTest.NamedPlainly, if_neg hkind]

end Tree.NamesSpelled

end Names

end TestScaffold
