import TestScaffold.Proofs.FoundUnits
import TestScaffold.Proofs.ObservedCalls
import TestScaffold.Proofs.PrototypeOwner
import TestScaffold.Scaffold.Suite
import TestScaffold.Syntax.Listing

set_option autoImplicit false

/-!
# Functions attached to something

A function can be assigned to a member of something, as in `A.prototype.b.run = function () {}`. The words
`prototype` are left out of what it is reached through, and the position of its owner is kept. Here the chain of
names that is written is followed to the call in the test of the function.

## Main definitions

* `TestScaffold.Tree.ChainOfNames` — the names of a member access, as they are written.
* `TestScaffold.Locus.IsAssignedTo` — what the node at a place is assigned to.
* `TestScaffold.FunctionUnit.TestedThrough` — the test of a function, by the names that it is called through.

## Main results

* `TestScaffold.attached_function_tested` — the unit and the test of a function that is assigned to something.
-/

namespace TestScaffold

/-! ## Assignments -/

/-- `t.ChainOfNames src names`: the names of a member access are written at the node `t`. An object that is
neither a name, the own object nor a member access has no name. -/
inductive Tree.ChainOfNames (src : SourceText) : Tree → List String → Prop where
  /-- A name is its own text. -/
  | name {t : Tree} {name : String} (hkind : t.kind = .identifier) (htext : t.text src = name) :
    ChainOfNames src t [name]
  /-- The own object has a word of its own. -/
  | own {t : Tree} (hkind : t.kind = .this) : ChainOfNames src t [CallChain.selfWord]
  /-- The property of a member access stands behind the names of the object. -/
  | member {t object property : Tree} {names : List String} {name : String} (hkind : t.kind = .memberExpression)
      (hobject : t.childAt? .object = some object) (hproperty : t.childAt? .property = some property)
      (htext : property.text src = name) (hnames : ChainOfNames src object names) :
    ChainOfNames src t (names ++ [name])
  /-- Anything else has no name. -/
  | other {t : Tree} (hkind : t.kind ∉ [.identifier, .this, .memberExpression]) : ChainOfNames src t []

/-- The node at a place is the value of an assignment to a node. -/
def Locus.IsAssignedTo (p : Locus) (left : Tree) : Prop :=
  ∃ step ∈ p.above.head?, step.parent.kind = .assignmentExpression ∧ step.fills .right = true ∧
    step.parent.childAt? .left = some left

section

variable {src : SourceText} {p : Locus} {left : Tree} {names : List String}

/-- The names of a member access are read as they are written. -/
theorem Tree.ChainOfNames.nameChain_eq {t : Tree} (h : t.ChainOfNames src names) : nameChain src t = names := by
  induction h with
  | name hkind htext => rw [TestScaffold.nameChain_eq, hkind, htext]
  | own hkind => rw [TestScaffold.nameChain_eq, hkind]
  | member hkind hobject hproperty htext _ ih =>
    rw [TestScaffold.nameChain_eq, hkind, hobject, hproperty]
    simp [htext, ih]
  | other hkind =>
    simp only [List.mem_cons, List.not_mem_nil, or_false, not_or] at hkind
    rw [TestScaffold.nameChain_eq]
    split <;> simp_all

/-- A function that is assigned to a chain of names is bound to the name that the chain makes. -/
theorem Locus.IsAssignedTo.boundName?_eq (h : p.IsAssignedTo left)
    (hkind : left.kind = .identifier ∨ left.kind = .memberExpression) (hnames : left.ChainOfNames src names) :
    boundName? src p = FunctionName.ofChain? names := by
  obtain ⟨step, hstep, hparent, hright, hleft⟩ := h
  obtain ⟨above, habove⟩ := List.head?_eq_some_iff.1 hstep
  have hchain : assignedChain? src left = some names := by
    unfold assignedChain?
    rcases hkind with hkind | hkind
    · rw [hkind, ← hnames.nameChain_eq, nameChain_eq, hkind]
    · rw [hkind, hnames.nameChain_eq]
  have hvariable : initialisedVariable? src p = none := by
    simp [initialisedVariable?, habove, hparent]
  simp [boundName?, hvariable, assignedName?, habove, hparent, hright, hleft, hchain]

end

/-! ## The test -/

/-- `u.TestedThrough chain self`: a function has a test, in which it is called through the given chain of names, and
`self` stands for the own object in the calls observed there. -/
structure FunctionUnit.TestedThrough (u : FunctionUnit) (chain : List String) (self : Option String) : Prop where
  /-- There is a test of the function. -/
  mem_testCases : ∀ m : Model, u ∈ m.functions → functionCase u ∈ m.testCases
  /-- In the test, calls are observed, the arguments are declared, and the function is called. -/
  caseBlock_eq : ∀ m : Model, ∃ observed, caseBlock jest m (functionCase u) =
      Jest.callbackBlock ("test(" ++ quoted u.name ++ ", ") (observed ++ nullDeclarations u.parameters ++
        [.line ((if u.returns then "const result = " else "") ++
          (dotted chain ++ parenthesized u.parameters) ++ ";")]) ∧
    ∀ statement, statement ∈ observed ↔ ∃ o : Jest.Observation, o.site ∈ u.calls ∧
      o.site.through?.any (isForeign m.imports m.requires) = true ∧ o.Splits self ∧ statement = .line o.text
  /-- A call through the own object is observed by what stands for it, and not at all if nothing does. -/
  splits_iff : ∀ o : Jest.Observation, o.site.viaSelf = true →
    (o.Splits self ↔ o.object ≠ [] ∧ ∃ r, self = some r ∧ o.object ++ [o.method] = r :: o.site.names)

/-- A call through the own object is observed by the chain that begins with what stands for it. -/
theorem Jest.Observation.splits_iff_of_viaSelf {o : Jest.Observation} {receiver : Option String}
    (h : o.site.viaSelf = true) :
    o.Splits receiver ↔
      o.object ≠ [] ∧ ∃ r, receiver = some r ∧ o.object ++ [o.method] = r :: o.site.names := by
  have hspied : SpiedAs receiver o.site.segments (o.object ++ [o.method]) ↔
      ∃ r, receiver = some r ∧ o.object ++ [o.method] = r :: o.site.names := by
    rw [← spiedChain?_eq_some, spiedChain?, if_pos h, Option.map_eq_some_iff]
    exact exists_congr fun r => and_congr_right fun _ => eq_comm
  exact ⟨fun ho => ⟨ho.object_ne_nil, hspied.1 ho.spied⟩, fun ho => ⟨ho.1, hspied.2 ho.2⟩⟩

/-- A function is tested through the names that its call goes through. -/
theorem FunctionUnit.testedThrough {u : FunctionUnit} (hrole : u.role = .function) :
    u.TestedThrough (u.callQualifier ++ [u.name]) u.receiver? where
  mem_testCases := by
    intro m hu
    refine List.mem_append_right _ (List.mem_map_of_mem (List.mem_filter.2 ⟨hu, ?_⟩))
    rw [hrole]
    rfl
  caseBlock_eq := by
    intro m
    refine ⟨Jest.spies u.calls m.requires m.imports u.receiver?, ?_, fun statement => ?_⟩
    · exact congrArg (Jest.callbackBlock _) (List.append_nil _)
    · exact Jest.mem_spies_iff m.requires m.imports u.receiver?
  splits_iff := fun _ => Jest.Observation.splits_iff_of_viaSelf

/-- The owner of a function is called through its instance, and the names before it are left out. -/
theorem FunctionUnit.callQualifier_eq_of_owner {u : FunctionUnit} {before after : List String} {owner : String}
    (hindex : u.ownerIndex = some before.length) (hqualifier : u.qualifier = before ++ owner :: after) :
    u.callQualifier = decapitalize owner :: after := by
  unfold callQualifier
  rw [hindex, hqualifier]
  dsimp only
  rw [List.drop_left]

/-- `u.IsAttached segments`: the words `prototype` are left out of what a function is reached through, and the owner
is found in the chain as it is written. -/
inductive FunctionUnit.IsAttached (u : FunctionUnit) (segments : List String) : Prop where
  /-- The position of the owner among the names is kept. The function is tested through an instance of the owner
  and the names behind the word `prototype`. -/
  | owned {i j : Nat} {owner : String} (howner : OwnerAt segments i j owner)
      (hindex : u.ownerIndex = some ((segments.take i).filter (· != prototypeWord)).length)
      (hqualifier : u.qualifier = (segments.take i).filter (· != prototypeWord) ++
        owner :: (segments.drop (j + 1)).filter (· != prototypeWord))
      (htested : u.TestedThrough
        (decapitalize owner :: (segments.drop (j + 1)).filter (· != prototypeWord) ++ [u.name])
        (some (decapitalize owner)))
  /-- Without an owner the function is tested through what it is reached through. -/
  | unowned (hnone : ∀ j, ¬IsOwnedPrototype segments j) (hindex : u.ownerIndex = none)
      (htested : u.TestedThrough (u.qualifier ++ [u.name]) none)

/-- An owner is kept if and only if there is a word `prototype` with a name before it. -/
theorem FunctionUnit.IsAttached.isSome_ownerIndex {u : FunctionUnit} {segments : List String}
    (h : u.IsAttached segments) : u.ownerIndex.isSome = true ↔ ∃ j, IsOwnedPrototype segments j := by
  cases h with
  | owned howner hindex => simpa [hindex] using ⟨_, howner.first.1⟩
  | unowned hnone hindex => simpa [hindex] using hnone

/-- The position of an owner is one in what the function is reached through. -/
theorem FunctionUnit.IsAttached.lt_length {u : FunctionUnit} {segments : List String} {k : Nat}
    (h : u.IsAttached segments) (hk : u.ownerIndex = some k) : k < u.qualifier.length := by
  cases h with
  | owned howner hindex hqualifier =>
    obtain rfl := Option.some.inj (hindex.symm.trans hk)
    simp [hqualifier]
  | unowned hnone hindex => simp [hindex] at hk

/-- A function is attached to the chain of names that its qualifier and its owner are read from.

**Proof sketch.** The chain is taken apart into the words that it begins with, the names behind them, and the rest,
which begins with the first word that has a name before it. Leaving the words out keeps the names before the
owner, whose number is therefore the position of the owner. -/
theorem FunctionUnit.isAttached {u : FunctionUnit} {segments : List String} (hrole : u.role = .function)
    (hqualifier : u.qualifier = segments.filter (· != prototypeWord))
    (hindex : u.ownerIndex = ownerIndex? segments) : u.IsAttached segments := by
  have htested := FunctionUnit.testedThrough hrole
  rcases ownerIndex?_cases segments with ⟨leading, named, hsegments, hleading, hnamed, hnone⟩ |
    ⟨leading, named, owner, after, hsegments, hleading, hnamed, hsome⟩
  · rw [hnone] at hindex
    have hcall : u.callQualifier = u.qualifier := by rw [callQualifier, hindex]
    have hself : u.receiver? = none := by simp [receiver?, hindex]
    rw [hcall, hself] at htested
    exact .unowned (hsegments ▸ not_isOwnedPrototype hleading hnamed) hindex htested
  · rw [hsome] at hindex
    have howner : OwnerAt segments (leading.length + named.length) (leading.length + named.length + 1) owner :=
      hsegments ▸ ownerAt_append hleading hnamed
    have hbefore : (segments.take (leading.length + named.length)).filter (· != prototypeWord) = named := by
      have htake : segments.take (leading.length + named.length) = leading ++ (named ++ []) := by
        rw [hsegments, List.append_nil, List.take_length_add_append, List.append_assoc, List.take_left]
      have hbeforeOwner : prototypeWord ∉ named := fun h => hnamed (List.mem_append_left [owner] h)
      rw [htake, filter_ne_prototypeWord_append hleading hbeforeOwner, List.filter_nil, List.append_nil]
    have hafter : segments.drop (leading.length + named.length + 1 + 1) = after := by
      rw [hsegments]
      simp [Nat.add_assoc]
    have hnames : u.qualifier = named ++ owner :: after.filter (· != prototypeWord) := by
      rw [hqualifier, hsegments, filter_ne_prototypeWord_append hleading hnamed]
      simp
    have hcall := callQualifier_eq_of_owner hindex hnames
    have hself : u.receiver? = some (decapitalize owner) := by simp [receiver?, hindex, hcall]
    rw [hcall, hself] at htested
    refine .owned howner ?_ ?_ ?_
    · rw [hbefore, hindex]
    · rw [hbefore, hafter, hnames]
    · rw [hafter]
      exact htested

/-- **The unit and the test of a function that is assigned to a chain of names.** The function is known by the last
name and reached through the others, except for the words `prototype`. An owner is kept if and only if one of these
words has a name before it. The owner is then the last name before the first such word, and its position among the
names is kept. In the test, the function is called through an instance of the owner and the names behind that
word; what comes before the owner is left out, and the instance stands for the own object in the observed calls.
Without an owner the function is called as it is reached, and no call through the own object is observed. -/
theorem attached_function_tested {src : SourceText} {p : Locus} {left : Tree} {segments : List String}
    {name : String} (hfunction : p.Holds functionExpressionKinds) (hleft : p.IsAssignedTo left)
    (hkind : left.kind = .identifier ∨ left.kind = .memberExpression)
    (hchain : left.ChainOfNames src (segments ++ [name])) :
    ∃ u ds, p.findings src = [.functionFound ⟨u, ds⟩] ∧ u.name = name ∧
      u.qualifier = segments.filter (· != prototypeWord) ∧
      (u.ownerIndex.isSome = true ↔ ∃ j, IsOwnedPrototype segments j) ∧
      (∀ k, u.ownerIndex = some k → k < u.qualifier.length) ∧ u.IsAttached segments := by
  have hbound : boundName? src p =
      some ⟨name, segments.filter (· != prototypeWord), ownerIndex? segments⟩ := by
    rw [hleft.boundName?_eq hkind hchain, FunctionName.ofChain?, List.getLast?_concat, List.dropLast_concat]
  have hfindings : p.findings src = functionExpressionFindings src p :=
    Locus.findings_eq_functionExpressionFindings hfunction
  rw [functionExpressionFindings, hbound] at hfindings
  have hattached : (functionReading src p.node
      ⟨name, segments.filter (· != prototypeWord), ownerIndex? segments⟩).unit.IsAttached segments :=
    FunctionUnit.isAttached rfl rfl rfl
  exact ⟨_, _, hfindings, rfl, rfl, hattached.isSome_ownerIndex, fun _ => hattached.lt_length,
    hattached⟩

/-- The listing of an assignment of a function to a member of the `prototype` of a member. -/
def attachedListing : List Row :=
  [.make 0 1 "assignment_expression" 0 63 none,
    .make 1 1 "member_expression" 0 30 "left", .make 2 1 "member_expression" 0 26 "object",
    .make 3 1 "member_expression" 0 16 "object", .make 4 1 "member_expression" 0 14 "object",
    .make 5 1 "member_expression" 0 4 "object", .make 6 1 "identifier" 0 2 "object",
    .make 6 0 "." 2 3 none, .make 6 1 "property_identifier" 3 4 "property", .make 5 0 "." 4 5 none,
    .make 5 1 "property_identifier" 5 14 "property", .make 4 0 "." 14 15 none,
    .make 4 1 "property_identifier" 15 16 "property", .make 3 0 "." 16 17 none,
    .make 3 1 "property_identifier" 17 26 "property", .make 2 0 "." 26 27 none,
    .make 2 1 "property_identifier" 27 30 "property", .make 1 0 "=" 31 32 none,
    .make 1 1 "function_expression" 33 63 "right", .make 2 0 "function" 33 41 none,
    .make 2 1 "formal_parameters" 41 43 "parameters", .make 3 0 "(" 41 42 none, .make 3 0 ")" 42 43 none,
    .make 2 1 "statement_block" 44 63 "body", .make 3 0 "\x7b" 44 45 none,
    .make 3 1 "expression_statement" 46 61 none, .make 4 1 "call_expression" 46 60 none,
    .make 5 1 "member_expression" 46 58 "function", .make 6 1 "member_expression" 46 54 "object",
    .make 7 1 "this" 46 50 "object", .make 7 0 "." 50 51 none,
    .make 7 1 "property_identifier" 51 54 "property", .make 6 0 "." 54 55 none,
    .make 6 1 "property_identifier" 55 58 "property", .make 5 1 "arguments" 58 60 "arguments",
    .make 6 0 "(" 58 59 none, .make 6 0 ")" 59 60 none, .make 4 0 ";" 60 61 none,
    .make 3 0 "\x7d" 62 63 none]

/-- The text of that assignment. -/
def attachedText : SourceText :=
  SourceText.ofString "ns.A.prototype.b.prototype.run = function() \x7b this.lib.get(); \x7d"

/-- The tree of that assignment. -/
def attachedTree : Tree := (Tree.ofRows? attachedListing).get rfl

/-- The place of the function in that assignment. -/
def attachedPlace : Locus := ⟨(attachedTree.childAt? .right).get rfl, [⟨attachedTree, 2⟩]⟩

/-- The function that is assigned to a member of the `prototype` of a member is called through the instance that
owns it. -/
theorem attached_function_tested_nested :
    ∃ u ds, attachedPlace.findings attachedText = [.functionFound ⟨u, ds⟩] ∧ u.name = "run" ∧
      u.qualifier = ["ns", "A", "b"] ∧ u.ownerIndex = some 1 ∧ u.TestedThrough ["a", "b", "run"] (some "a") := by
  have hchain : ((attachedTree.childAt? .left).get rfl).ChainOfNames attachedText
      (["ns"] ++ ["A"] ++ ["prototype"] ++ ["b"] ++ ["prototype"] ++ ["run"]) :=
    .member rfl rfl rfl rfl (.member rfl rfl rfl rfl (.member rfl rfl rfl rfl (.member rfl rfl rfl rfl
      (.member rfl rfl rfl rfl (.name rfl rfl)))))
  obtain ⟨u, ds, hfound, hname, hqualifier, -, -, hattached⟩ :=
    attached_function_tested (p := attachedPlace) ⟨rfl, by decide⟩ ⟨_, rfl, rfl, rfl, rfl⟩ (Or.inr rfl) hchain
  have hleading : ∀ s ∈ ([] : List String), s = prototypeWord := nofun
  have hnamed : prototypeWord ∉ ["ns"] ++ ["A"] := by decide
  have howner : OwnerAt ["ns", "A", "prototype", "b", "prototype"] 1 2 "A" := ownerAt_append hleading hnamed
  refine ⟨u, ds, hfound, hname, hqualifier, ?_⟩
  cases hattached with
  | owned h hindex _ htested =>
    obtain ⟨rfl, rfl, rfl⟩ := howner.unique h
    exact ⟨hindex, hname ▸ htested⟩
  | unowned hnone => exact absurd howner.first.1 (hnone 2)

end TestScaffold
