import TestScaffold.Proofs.OwnScope
import TestScaffold.Proofs.UnitNodes
import TestScaffold.Syntax.Listing

set_option autoImplicit false

/-!
# The calls in a body

The calls below a node are those of its nodes in document order, nested functions and classes included. A call is
recorded by the names that what is called is reached by. A part of an access that has no name, such as the result of
another call, is left out, and a call without any name is not recorded.

The nodes of a part of a tree stand together in document order, and so do the calls in it: the calls of a nested
function are a block among those of the function around it.

## Main definitions

* `TestScaffold.Tree.HasSegments` — the names at a node, without the parts that have no name.
* `TestScaffold.Tree.IsAccess` — a node accesses members only, from a name or from the own object.
* `TestScaffold.Tree.IsCallOf` — a node is a call that is recorded, with the chain that it is recorded by.

## Main results

* `TestScaffold.Tree.isCallOf_iff` — the chain of a call that accesses members only.
* `TestScaffold.calls_of_body` — the calls in a body, and those of a function in it.
-/

namespace TestScaffold

namespace Tree

/-! ## Names of an access -/

section Segments

variable {src : SourceText} {t : Tree}

/-- `t.HasSegments src names`: the names at the node `t`. A member access has those of its object and then that of
its property, as far as there are any. What is neither a name, the own object nor a member access has none. -/
inductive HasSegments (src : SourceText) : Tree → List String → Prop where
  /-- A name is its own text. -/
  | name {t : Tree} (hkind : t.kind = .identifier) : HasSegments src t [t.text src]
  /-- The own object has a word of its own. -/
  | own {t : Tree} (hkind : t.kind = .this) : HasSegments src t [CallChain.selfWord]
  /-- The property of a member access stands behind the names of the object. -/
  | member {t object : Tree} {names : List String} (hkind : t.kind = .memberExpression)
      (hobject : t.childAt? .object = some object) (hnames : HasSegments src object names) :
    HasSegments src t (names ++ (t.childAt? .property).toList.map (·.text src))
  /-- Without an object there is only the property. -/
  | bare {t : Tree} (hkind : t.kind = .memberExpression) (hobject : t.childAt? .object = none) :
    HasSegments src t ((t.childAt? .property).toList.map (·.text src))
  /-- Anything else has no name. -/
  | other {t : Tree} (hkind : t.kind ∉ [.identifier, .this, .memberExpression]) : HasSegments src t []

/-- The names at a node are those that are read there. -/
theorem hasSegments_nameChain (src : SourceText) (t : Tree) : t.HasSegments src (nameChain src t) := by
  induction t using inductionOn_children with
  | h t ih =>
    rw [nameChain_eq]
    split
    · next hkind => exact .name hkind
    · next hkind => exact .own hkind
    · next hkind =>
      cases hobject : t.childAt? .object with
      | none => exact .bare hkind hobject
      | some object => exact .member hkind hobject (ih object (List.mem_of_find?_eq_some hobject))
    · next hname hown hmember => exact .other (by simpa using ⟨hname, hown, hmember⟩)

/-- A node has only one list of names. -/
theorem HasSegments.nameChain_eq {names : List String} (h : t.HasSegments src names) : nameChain src t = names := by
  induction h with
  | name hkind => rw [TestScaffold.nameChain_eq, hkind]
  | own hkind => rw [TestScaffold.nameChain_eq, hkind]
  | member hkind hobject _ ih =>
    rw [TestScaffold.nameChain_eq, hkind, hobject, Option.map_some, Option.getD_some, ih]
  | bare hkind hobject =>
    rw [TestScaffold.nameChain_eq, hkind, hobject, Option.map_none, Option.getD_none, List.nil_append]
  | other hkind =>
    simp only [List.mem_cons, List.not_mem_nil, or_false, not_or] at hkind
    rw [TestScaffold.nameChain_eq]
    split <;> simp_all

/-- The names at a node, as they are read. -/
theorem hasSegments_iff {names : List String} : t.HasSegments src names ↔ nameChain src t = names :=
  ⟨HasSegments.nameChain_eq, fun h => h ▸ hasSegments_nameChain src t⟩

/-- `t.IsAccess src root properties`: the node `t` accesses the given properties, one after the other, from a name or
from the own object. -/
inductive IsAccess (src : SourceText) : Tree → String → List String → Prop where
  /-- A name is its own text. -/
  | name {t : Tree} (hkind : t.kind = .identifier) : IsAccess src t (t.text src) []
  /-- The own object has a word of its own. -/
  | own {t : Tree} (hkind : t.kind = .this) : IsAccess src t CallChain.selfWord []
  /-- A member access is one of what its object accesses. -/
  | member {t object property : Tree} {root : String} {properties : List String}
      (hkind : t.kind = .memberExpression) (hobject : t.childAt? .object = some object)
      (hproperty : t.childAt? .property = some property) (haccess : IsAccess src object root properties) :
    IsAccess src t root (properties ++ [property.text src])

/-- The names of an access are the root and the properties. -/
theorem IsAccess.hasSegments {root : String} {properties : List String} (h : t.IsAccess src root properties) :
    t.HasSegments src (root :: properties) := by
  induction h with
  | name hkind => exact .name hkind
  | own hkind => exact .own hkind
  | member hkind hobject hproperty _ ih =>
    have hmember := HasSegments.member hkind hobject ih
    rw [hproperty] at hmember
    exact hmember

end Segments

/-! ## Calls -/

section Calls

variable {src : SourceText} {t : Tree} {chain : CallChain}

/-- `t.IsCallOf src chain`: the node is a call of a name or of a member, and it is recorded by the given names. -/
structure IsCallOf (src : SourceText) (t : Tree) (chain : CallChain) : Prop where
  /-- The node is a call. -/
  kind : t.kind = .callExpression
  /-- What is called is a name or a member, and these are its names. -/
  callee : ∃ callee, t.childAt? .function = some callee ∧
    (callee.kind = .identifier ∨ callee.kind = .memberExpression) ∧ callee.HasSegments src chain.segments
  /-- There is at least one name. -/
  named : chain.segments ≠ []

/-- A call of a name or a member has the names of this as its chain if there are any. Other calls have no chain. -/
theorem callChain?_eq {callee : Tree} (hcallee : t.childAt? .function = some callee) :
    callChain? src t =
      if (callee.kind = .identifier ∨ callee.kind = .memberExpression) ∧ nameChain src callee ≠ [] then
        some ⟨nameChain src callee⟩
      else none := by
  rw [callChain?, hcallee, Option.bind_eq_bind, Option.bind_some]
  by_cases hname : callee.kind = .identifier
  · simp [hname, nameChain_eq]
  by_cases hmember : callee.kind = .memberExpression
  · simp [hmember]
  · simp [hname, hmember]

/-- The chain of a call. -/
theorem callChain?_eq_some :
    callChain? src t = some chain ↔ ∃ callee, t.childAt? .function = some callee ∧
      (callee.kind = .identifier ∨ callee.kind = .memberExpression) ∧ nameChain src callee = chain.segments ∧
        chain.segments ≠ [] := by
  obtain ⟨segments⟩ := chain
  cases hcallee : t.childAt? .function with
  | none => simp [callChain?, hcallee]
  | some callee =>
    rw [callChain?_eq hcallee]
    constructor
    · intro h
      obtain ⟨⟨hkind, hnamed⟩, hchain⟩ := Option.ite_none_right_eq_some.1 h
      obtain rfl : nameChain src callee = segments := congrArg CallChain.segments (Option.some.inj hchain)
      exact ⟨callee, rfl, hkind, rfl, hnamed⟩
    · rintro ⟨_, ⟨⟩, hkind, rfl, hnamed⟩
      exact if_pos ⟨hkind, hnamed⟩

/-- The calls that are recorded are those with a chain. -/
theorem isCallOf_iff_callChain? :
    (if t.kind == .callExpression then callChain? src t else none) = some chain ↔ t.IsCallOf src chain := by
  by_cases hcall : t.kind = .callExpression
  · rw [if_pos (beq_iff_eq.2 hcall), callChain?_eq_some]
    simp only [← hasSegments_iff]
    exact ⟨fun ⟨callee, hcallee, hkind, hnames, hnamed⟩ => ⟨hcall, ⟨callee, hcallee, hkind, hnames⟩, hnamed⟩,
      fun ⟨_, ⟨callee, hcallee, hkind, hnames⟩, hnamed⟩ => ⟨callee, hcallee, hkind, hnames, hnamed⟩⟩
  · rw [if_neg (by simpa using hcall)]
    exact ⟨nofun, fun h => absurd h.kind hcall⟩

/-- A call that accesses members only is recorded by the root and the properties, and by nothing else. -/
theorem isCallOf_iff {callee : Tree} {root : String} {properties : List String} (hkind : t.kind = .callExpression)
    (hcallee : t.childAt? .function = some callee) (hthis : callee.kind ≠ .this)
    (haccess : callee.IsAccess src root properties) :
    t.IsCallOf src chain ↔ chain.segments = root :: properties := by
  have hnames := haccess.hasSegments
  constructor
  · rintro ⟨-, ⟨callee', hcallee', -, hsegments⟩, -⟩
    obtain rfl : callee = callee' := Option.some.inj (hcallee.symm.trans hcallee')
    rw [← hsegments.nameChain_eq, hnames.nameChain_eq]
  · intro hchain
    refine ⟨hkind, ⟨callee, hcallee, ?_, hchain ▸ hnames⟩, by simp [hchain]⟩
    cases haccess with
    | name hname => exact .inl hname
    | own hown => exact absurd hown hthis
    | member hmember => exact .inr hmember

end Calls

end Tree

/-! ## Blocks of calls -/

section Blocks

variable {src : SourceText}

/-- What is recorded of the calls among some nodes. -/
theorem pickedOut_isCallOf {nodes : List Tree} {calls : List CallChain} :
    PickedOut (Tree.IsCallOf src) nodes calls ↔
      calls = (nodes.filter (·.kind == .callExpression)).filterMap (callChain? src) := by
  rw [pickedOut_iff fun _ _ => Tree.isCallOf_iff_callChain?, List.filterMap_filter]

/-- The calls below a node, in the order of its nodes. -/
theorem pickedOut_callChains (src : SourceText) (body : Tree) :
    PickedOut (Tree.IsCallOf src) body.preorder (callChains src body) :=
  pickedOut_isCallOf.2 rfl

/-- The calls among some nodes between others are a block. -/
theorem callChains_eq_append {body part : Tree} {before after : List Tree}
    (hsplit : body.preorder = before ++ part.preorder ++ after) :
    ∃ xs ys, PickedOut (Tree.IsCallOf src) before xs ∧ PickedOut (Tree.IsCallOf src) after ys ∧
      callChains src body = xs ++ callChains src part ++ ys :=
  ⟨_, _, pickedOut_isCallOf.2 rfl, pickedOut_isCallOf.2 rfl, by simp [callChains, hsplit]⟩

/-- The nodes of the body of a function stand together among the nodes of a tree with the function. -/
theorem preorder_eq_append_body {tree inner body : Tree} {before rest : List Tree}
    (hinner : tree.preorder = before ++ inner :: rest) (hbody : inner.childAt? .body = some body) :
    ∃ front back, front ++ body.preorder <+: inner.preorder ∧
      tree.preorder = before ++ front ++ body.preorder ++ back := by
  obtain ⟨after, hafter⟩ := Tree.preorder_isPrefix tree hinner
  obtain ⟨front, tail, hfront⟩ := List.append_of_mem
    (Tree.mem_preorder_of_childAt? (Tree.mem_preorder_self inner) hbody)
  obtain ⟨back, hback⟩ := Tree.preorder_isPrefix inner hfront
  refine ⟨front, back ++ after, ⟨back, ?_⟩, ?_⟩
  · rw [hfront, ← hback, List.append_assoc]
  · rw [hinner, ← hafter, hfront, ← hback]
    simp

end Blocks

/-- **The calls in a body** are recorded one by one in document order, in nested functions and classes too: those of
a name or a member with at least one name. A call that accesses members only is recorded by the root and all
properties. Wherever a function stands in the body of another, the calls in its body are a block among those of the
other, in the same order.

**Proof sketch.** Calls are read off the nodes in document order, one by one. The nodes of the body of a function
that stands in a tree are a block of the nodes of the tree. -/
theorem calls_of_body (src : SourceText) (body : Tree) :
    PickedOut (Tree.IsCallOf src) body.preorder (callChains src body) ∧
      (∀ (call callee : Tree) (root : String) (properties : List String), call.kind = .callExpression →
        call.childAt? .function = some callee → callee.kind ≠ .this → callee.IsAccess src root properties →
          ∀ chain, call.IsCallOf src chain ↔ chain.segments = root :: properties) ∧
      ∀ (func inner innerBody : Tree) (before rest : List Tree), func.childAt? .body = some body →
        inner.childAt? .body = some innerBody → body.preorder = before ++ inner :: rest →
          ∃ front back xs ys, front ++ innerBody.preorder <+: inner.preorder ∧
            body.preorder = before ++ front ++ innerBody.preorder ++ back ∧
            PickedOut (Tree.IsCallOf src) (before ++ front) xs ∧ PickedOut (Tree.IsCallOf src) back ys ∧
            (scopeFacts src func).calls = xs ++ (scopeFacts src inner).calls ++ ys := by
  refine ⟨pickedOut_callChains src body, fun call callee root properties hkind hcallee hthis haccess chain =>
    Tree.isCallOf_iff hkind hcallee hthis haccess, fun func inner innerBody before rest hbody hinnerBody hinner => ?_⟩
  obtain ⟨front, back, hpart, hsplit⟩ := preorder_eq_append_body hinner hinnerBody
  obtain ⟨xs, ys, hxs, hys, hcalls⟩ := callChains_eq_append hsplit
  refine ⟨front, back, xs, ys, hpart, hsplit, hxs, hys, ?_⟩
  rw [scopeFacts, hbody, scopeFacts, hinnerBody]
  exact hcalls

/-- The listing of a function with a call that is given an arrow function with another call, and with a third call
after these. -/
def nestedCallListing : List Row :=
  [.make 0 1 "function_declaration" 0 64 none, .make 1 0 "function" 0 8 none, .make 1 1 "identifier" 9 10 "name",
    .make 1 1 "formal_parameters" 10 12 "parameters", .make 2 0 "(" 10 11 none, .make 2 0 ")" 11 12 none,
    .make 1 1 "statement_block" 13 64 "body", .make 2 0 "\x7b" 13 14 none,
    .make 2 1 "expression_statement" 15 54 none, .make 3 1 "call_expression" 15 53 none,
    .make 4 1 "member_expression" 15 25 "function", .make 5 1 "identifier" 15 20 "object",
    .make 5 0 "." 20 21 none, .make 5 1 "property_identifier" 21 25 "property",
    .make 4 1 "arguments" 25 53 "arguments", .make 5 0 "(" 25 26 none, .make 5 1 "arrow_function" 26 52 none,
    .make 6 1 "formal_parameters" 26 29 "parameters", .make 7 0 "(" 26 27 none, .make 7 1 "identifier" 27 28 none,
    .make 7 0 ")" 28 29 none, .make 6 0 "=>" 30 32 none, .make 6 1 "statement_block" 33 52 "body",
    .make 7 0 "\x7b" 33 34 none, .make 7 1 "expression_statement" 35 50 none,
    .make 8 1 "call_expression" 35 49 none, .make 9 1 "member_expression" 35 46 "function",
    .make 10 1 "member_expression" 35 41 "object", .make 11 1 "identifier" 35 38 "object",
    .make 11 0 "." 38 39 none, .make 11 1 "property_identifier" 39 41 "property", .make 10 0 "." 41 42 none,
    .make 10 1 "property_identifier" 42 46 "property", .make 9 1 "arguments" 46 49 "arguments",
    .make 10 0 "(" 46 47 none, .make 10 1 "identifier" 47 48 none, .make 10 0 ")" 48 49 none,
    .make 8 0 ";" 49 50 none, .make 7 0 "\x7d" 51 52 none, .make 5 0 ")" 52 53 none, .make 3 0 ";" 53 54 none,
    .make 2 1 "expression_statement" 55 62 none, .make 3 1 "call_expression" 55 61 none,
    .make 4 1 "identifier" 55 59 "function", .make 4 1 "arguments" 59 61 "arguments", .make 5 0 "(" 59 60 none,
    .make 5 0 ")" 60 61 none, .make 3 0 ";" 61 62 none, .make 2 0 "\x7d" 63 64 none]

/-- The text of that function. -/
def nestedCallText : SourceText :=
  SourceText.ofString "function f() \x7b items.each((x) => \x7b lib.db.save(x); \x7d); done(); \x7d"

/-- The function. -/
def nestedCallTree : Tree := (Tree.ofRows? nestedCallListing).get rfl

/-- The body of the function. -/
def nestedCallBody : Tree := (nestedCallTree.childAt? .body).get rfl

/-- The arrow function in the body. -/
def nestedCallback : Tree := (nestedCallBody.preorder.find? (·.kind == .arrowFunction)).get rfl

/-- The calls of an arrow function stand among those of the function around it. -/
theorem calls_of_body_callback :
    nestedCallTree.childAt? .body = some nestedCallBody ∧ nestedCallback ∈ nestedCallBody.preorder ∧
      (scopeFacts nestedCallText nestedCallTree).calls.map (·.segments) =
        [["items", "each"], ["lib", "db", "save"], ["done"]] ∧
      (scopeFacts nestedCallText nestedCallback).calls.map (·.segments) = [["lib", "db", "save"]] ∧
      ∃ xs ys, (scopeFacts nestedCallText nestedCallTree).calls =
        xs ++ (scopeFacts nestedCallText nestedCallback).calls ++ ys := by
  have hbody : nestedCallTree.childAt? .body = some nestedCallBody := (Option.some_get _).symm
  have hinner : nestedCallback ∈ nestedCallBody.preorder := List.mem_of_find?_eq_some (Option.some_get _).symm
  have hinnerBody : nestedCallback.childAt? .body = some ((nestedCallback.childAt? .body).get rfl) :=
    (Option.some_get _).symm
  obtain ⟨before, rest, hsplit⟩ := List.append_of_mem hinner
  obtain ⟨-, -, hblock⟩ := calls_of_body nestedCallText nestedCallBody
  obtain ⟨-, -, xs, ys, -, -, -, -, hcalls⟩ := hblock _ _ _ before rest hbody hinnerBody hsplit
  exact ⟨hbody, hinner, by decide, by decide, xs, ys, hcalls⟩

end TestScaffold
