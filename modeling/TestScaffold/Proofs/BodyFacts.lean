import Mathlib.Data.List.Forall2
import TestScaffold.Proofs.Distinct
import TestScaffold.Proofs.OwnScope
import TestScaffold.Proofs.StepwisePlaces
import TestScaffold.Syntax.Listing

set_option autoImplicit false

/-!
# Facts about a body

Whether a body returns, which variables it declares and which members of the own object it assigns to is read in
the scope of the body. This scope is said here by places: a node belongs to it if no function, method or class
stands strictly between the body and the node. So nothing that stands inside a nested function, method or class
bears on these facts, whatever it is.

## Main definitions

* `TestScaffold.Tree.ownPlaces` — the places in the scope of a body.
* `TestScaffold.ScopeFacts.OfScope` — facts as they are read at these places.
* `TestScaffold.Tree.AlikeOutside`, `TestScaffold.Tree.DiffersInside` — trees and bodies that differ only inside
  functions, methods and classes.

## Main results

* `TestScaffold.Tree.map_node_ownPlaces` — the nodes of the scope stand at the places of the scope.
* `TestScaffold.Tree.DiffersInside.map_reading` — what is read off the nodes of a scope does not depend on what
  stands inside nested functions.
* `TestScaffold.facts_of_own_scope` — the facts about a body are those of its scope.
-/

namespace TestScaffold

namespace Tree

/-! ## Places in the scope of a body -/

/-- The places in the scope of a body, in document order. No function, method or class stands strictly between the
body and such a place; the last of the steps that lead to it starts at the body itself. -/
def ownPlaces (body : Tree) : List Locus :=
  (body.loci []).filter fun p => p.above.dropLast.all fun c => !c.parent.kind.opensScope

/-- Below a node are the nodes of its children if it is entered, and none else. -/
theorem preorderWhile_eq (enter : Tree → Bool) (t : Tree) :
    t.preorderWhile enter =
      [t] ++ (t.children.zipIdx.filter fun _ => enter t).flatMap fun e => e.1.preorderWhile enter := by
  obtain ⟨l, cs⟩ := t
  rw [flatMap_filter_zipIdx (fun _ => enter (node l cs)), preorderWhile, preorderWhileAll_eq_flatMap]
  cases enter (node l cs) <;> simp [children]

/-- **The nodes of the scope of a body** stand at the places of the scope. -/
theorem map_node_ownPlaces (body : Tree) : body.ownPlaces.map (·.node) = body.ownNodes := by
  let enter : Tree → Bool := fun t => !t.kind.opensScope
  have hplaces := flatMap_filter_loci (fun above => above.dropLast.all fun c => enter c.parent)
    (fun c => enter c.parent) (fun t => [t]) (fun _ _ _ => rfl) (preorderWhile_eq enter) rfl body
  rw [List.map_eq_flatMap, ownNodes, preorderWhileAll_eq_flatMap]
  refine hplaces.trans ?_
  have hall : ((body.children.zipIdx 0).filter fun _ => true).flatMap (fun e => e.1.preorderWhile enter) = _ :=
    flatMap_filter_zipIdx (fun _ => true) (preorderWhile enter) 0
  simpa using hall

end Tree

/-- `facts.OfScope src body`: the facts are those of the scope of a body. -/
structure ScopeFacts.OfScope (src : SourceText) (body : Tree) (facts : ScopeFacts) : Prop where
  /-- An expression returns its value, and a block returns if a `return` stands in its scope. -/
  returns_iff : facts.returns = true ↔
    body.kind ≠ .statementBlock ∨ ∃ p ∈ body.ownPlaces, p.node.kind = .returnStatement
  /-- The variables are those that are declared in the scope under a plain name, in document order. -/
  locals : PickedOut (fun p => p.node.DeclaresVariable src) body.ownPlaces facts.locals
  /-- The written members are those that are assigned to in the scope, each once, in the order of first
  assignments. -/
  writtenMembers : ∃ names, PickedOut (fun p => p.node.WritesField src) body.ownPlaces names ∧
    FirstOccurrences names facts.writtenMembers

/-- What is picked out of the nodes of a scope is picked out of its places. -/
theorem pickedOut_ownPlaces {β : Type} {f : Tree → Option β} {R : Tree → β → Prop}
    (hf : ∀ t b, f t = some b ↔ R t b) (body : Tree) :
    PickedOut (fun p => R p.node) body.ownPlaces (body.ownNodes.filterMap f) := by
  rw [← Tree.map_node_ownPlaces, List.filterMap_map]
  exact (pickedOut_iff fun (p : Locus) => hf p.node).2 rfl

/-- The facts about a node with a body are those of the scope of the body. -/
theorem ofScope_scopeFacts {src : SourceText} {func body : Tree} (hbody : func.childAt? .body = some body) :
    (scopeFacts src func).OfScope src body := by
  rw [scopeFacts, hbody]
  refine ⟨?_, pickedOut_ownPlaces (fun t _ => Tree.declaredName?_eq_some (t := t)) body,
    _, pickedOut_ownPlaces (fun t _ => Tree.writtenMember?_eq_some (t := t)) body, firstOccurrences_iff.2 rfl⟩
  dsimp only
  rw [returns, ← Tree.map_node_ownPlaces]
  simp

/-! ## What stands inside nested functions -/

namespace Tree

/-- `AlikeOutside src src' t t'`: two trees, each with its text, differ at most inside functions, methods and
classes. Outside of these the nodes correspond to each other: they have the same kinds and roles, and names are
spelled alike. -/
inductive AlikeOutside (src src' : SourceText) : Tree → Tree → Prop where
  /-- The roots correspond to each other, and so do their children if the roots are no functions, methods or
  classes. -/
  | node {t t' : Tree} (hkind : t'.kind = t.kind) (hfield : t'.field = t.field)
      (htext : t.kind = .identifier ∨ t.field = some .property → t'.text src' = t.text src)
      (hchildren : t.kind.opensScope = false → List.Forall₂ (AlikeOutside src src') t.children t'.children) :
    AlikeOutside src src' t t'

/-- `body.DiffersInside src src' body'`: two bodies, each with its text, differ at most inside functions, methods
and classes strictly below them. -/
structure DiffersInside (src src' : SourceText) (body body' : Tree) : Prop where
  /-- The bodies are of the same kind. -/
  kind : body'.kind = body.kind
  /-- Their children correspond to each other. -/
  children : List.Forall₂ (AlikeOutside src src') body.children body'.children

/-- What is read off a single node of a scope: its kind, the variable it declares and the member it assigns to. -/
def reading (src : SourceText) (t : Tree) : Kind × Option String × Option String :=
  (t.kind, declaredName? src t, writtenMember? src t)

section Alike

variable {src src' : SourceText} {t t' : Tree}

/-- What is read of the children in a role is the same if it is the same for children that correspond to each
other. -/
theorem bind_childAt?_eq {β : Type} {g g' : Tree → Option β} {f : Field}
    (h : List.Forall₂ (AlikeOutside src src') t.children t'.children)
    (hg : ∀ c c', AlikeOutside src src' c c' → c.field = some f → g' c' = g c) :
    (t'.childAt? f).bind g' = (t.childAt? f).bind g := by
  rw [childAt?, childAt?]
  generalize t.children = cs at h
  generalize t'.children = cs' at h
  induction h with
  | nil => rfl
  | @cons c c' cs cs' hc _ ih =>
    have hfield : c'.field = c.field := by cases hc with | node _ hfield => exact hfield
    rw [List.find?_cons, List.find?_cons, hfield]
    cases hf : c.field == some f with
    | true => exact hg c c' hc (eq_of_beq hf)
    | false => exact ih

/-- A plain name in a role is the same. -/
theorem identifierAt?_eq_of_forall₂ (h : List.Forall₂ (AlikeOutside src src') t.children t'.children)
    (f : Field) : identifierAt? src' f t' = identifierAt? src f t := by
  have hbind : ∀ (src : SourceText) (t : Tree), identifierAt? src f t =
      (t.childAt? f).bind fun c => if c.kind == .identifier then some (c.text src) else none := by
    intro src t
    unfold identifierAt?
    cases t.childAt? f <;> rfl
  rw [hbind, hbind]
  refine bind_childAt?_eq h fun c c' hc _ => ?_
  obtain ⟨hkind, _, htext, _⟩ := hc
  rw [hkind]
  split
  · next hname => rw [htext (Or.inl (eq_of_beq hname))]
  · rfl

/-- The member that is assigned to is the same. -/
theorem writtenMember?_eq_of_forall₂ (hkind : t'.kind = t.kind)
    (h : t.kind = .assignmentExpression → List.Forall₂ (AlikeOutside src src') t.children t'.children) :
    writtenMember? src' t' = writtenMember? src t := by
  unfold writtenMember?
  rw [hkind]
  by_cases hassign : t.kind = .assignmentExpression
  · simp only [hassign, beq_self_eq_true, guard_true]
    refine bind_childAt?_eq (h hassign) fun left left' hleft _ => ?_
    obtain ⟨hleftKind, _, _, hchildren⟩ := hleft
    rw [hleftKind]
    by_cases hmember : left.kind = .memberExpression
    · have hparts := hchildren (by rw [hmember]; rfl)
      simp only [hmember, beq_self_eq_true, guard_true]
      refine bind_childAt?_eq hparts fun object object' hobject _ => ?_
      obtain ⟨hobjectKind, _, _, _⟩ := hobject
      refine bind_childAt?_eq hparts fun property property' hproperty hrole => ?_
      obtain ⟨_, _, htext, _⟩ := hproperty
      rw [hobjectKind, htext (Or.inr hrole)]
    · simp [hmember]
  · simp [hassign]

/-- What is read off a node is the same if its children correspond to each other. -/
theorem reading_eq_of_forall₂ (hkind : t'.kind = t.kind)
    (h : t.kind.opensScope = false → List.Forall₂ (AlikeOutside src src') t.children t'.children) :
    t'.reading src' = t.reading src := by
  have hwritten := writtenMember?_eq_of_forall₂ hkind fun hassign => h (by rw [hassign]; rfl)
  have hdeclared : declaredName? src' t' = declaredName? src t := by
    unfold declaredName?
    rw [hkind]
    split
    · next hdeclarator =>
      exact identifierAt?_eq_of_forall₂ (h (by rw [eq_of_beq hdeclarator]; rfl)) .name
    · rfl
  rw [reading, reading, hkind, hwritten, hdeclared]

end Alike

section Scope

variable {src src' : SourceText}

/-- What is read off the nodes of several parts of a scope is the same if it is for each of them. -/
theorem map_reading_preorderWhileAll {cs cs' : List Tree} (h : List.Forall₂ (AlikeOutside src src') cs cs')
    (hall : ∀ c ∈ cs, ∀ c', AlikeOutside src src' c c' →
      (c'.preorderWhile fun u => !u.kind.opensScope).map (reading src') =
        (c.preorderWhile fun u => !u.kind.opensScope).map (reading src)) :
    (preorderWhileAll (fun u => !u.kind.opensScope) cs').map (reading src') =
      (preorderWhileAll (fun u => !u.kind.opensScope) cs).map (reading src) := by
  induction h with
  | nil => rw [preorderWhileAll, List.map_nil, List.map_nil]
  | @cons c c' cs cs' hc _ ih =>
    rw [preorderWhileAll, preorderWhileAll, List.map_append, List.map_append, hall c List.mem_cons_self c' hc,
      ih fun d hd => hall d (List.mem_cons_of_mem c hd)]

/-- What is read off the nodes of a part of a scope is the same. -/
theorem map_reading_preorderWhile {t t' : Tree} (h : AlikeOutside src src' t t') :
    (t'.preorderWhile fun u => !u.kind.opensScope).map (reading src') =
      (t.preorderWhile fun u => !u.kind.opensScope).map (reading src) := by
  induction t using inductionOn_children generalizing t' with
  | h t ih =>
    obtain ⟨hkind, _, _, hchildren⟩ := h
    have hhere := reading_eq_of_forall₂ hkind hchildren
    obtain ⟨l, cs⟩ := t
    obtain ⟨l', cs'⟩ := t'
    rw [preorderWhile, preorderWhile, List.map_cons, List.map_cons, hhere, hkind]
    cases hscope : (node l cs).kind.opensScope with
    | true => simp
    | false => exact congrArg _ (map_reading_preorderWhileAll (hchildren hscope) fun c hc _ h => ih c hc h)

/-- **What is read off the nodes of a scope** does not depend on what stands inside nested functions, methods and
classes. -/
theorem DiffersInside.map_reading {body body' : Tree} (h : body.DiffersInside src src' body') :
    body'.ownNodes.map (reading src') = body.ownNodes.map (reading src) := by
  rw [ownNodes, ownNodes, List.map_cons, List.map_cons, reading_eq_of_forall₂ h.kind fun _ => h.children,
    map_reading_preorderWhileAll h.children fun _ _ _ => map_reading_preorderWhile]

end Scope

end Tree

/-- The facts about two bodies that differ only inside nested functions, methods and classes are the same. -/
theorem scopeFacts_eq_of_differsInside {src src' : SourceText} {func func' body body' : Tree}
    (hbody : func.childAt? .body = some body) (hbody' : func'.childAt? .body = some body')
    (h : body.DiffersInside src src' body') :
    (scopeFacts src' func').returns = (scopeFacts src func).returns ∧
      (scopeFacts src' func').locals = (scopeFacts src func).locals ∧
      (scopeFacts src' func').writtenMembers = (scopeFacts src func).writtenMembers := by
  have hreading := h.map_reading
  have hreturns : body'.ownNodes.any (·.kind == .returnStatement) =
      body.ownNodes.any (·.kind == .returnStatement) := by
    simpa [Tree.reading, Function.comp_def] using congrArg (·.any (·.1 == .returnStatement)) hreading
  have hlocals : body'.ownNodes.filterMap (declaredName? src') = body.ownNodes.filterMap (declaredName? src) := by
    simpa [Tree.reading, Function.comp_def] using congrArg (·.filterMap (·.2.1)) hreading
  have hwritten : body'.ownNodes.filterMap (writtenMember? src') = body.ownNodes.filterMap (writtenMember? src) := by
    simpa [Tree.reading, Function.comp_def] using congrArg (·.filterMap (·.2.2)) hreading
  simp only [scopeFacts, hbody, hbody', returns, h.kind, hreturns, hlocals, hwritten, and_self]

/-- **The facts about a function, method or class member with a body** are those of the scope of the body: whether
it returns, the variables it declares and the members of the own object that it assigns to. So they stay as they
are whatever is put inside the functions, methods and classes strictly below the body.

**Proof sketch.** Going below the nodes that open no scope gets to the places of the scope, in document order. The
facts are computed from what is read off the nodes there, one by one, and this needs no more of a node than its
kind and the names in its roles. -/
theorem facts_of_own_scope {src : SourceText} {func body : Tree} (hbody : func.childAt? .body = some body) :
    (scopeFacts src func).OfScope src body ∧
      ∀ (src' : SourceText) (func' body' : Tree), func'.childAt? .body = some body' →
        body.DiffersInside src src' body' →
          (scopeFacts src' func').returns = (scopeFacts src func).returns ∧
            (scopeFacts src' func').locals = (scopeFacts src func).locals ∧
            (scopeFacts src' func').writtenMembers = (scopeFacts src func).writtenMembers :=
  ⟨ofScope_scopeFacts hbody, fun _ _ _ hbody' h => scopeFacts_eq_of_differsInside hbody hbody' h⟩

/-- The listing of a function that declares a variable and assigns to a member. The body of the arrow function that
the variable is set to takes the given rows, and as many bytes more than one as given. -/
def callbackListing (more : Nat) (callback : List Row) : List Row :=
  [.make 0 1 "function_declaration" 0 (47 + more) none, .make 1 0 "function" 0 8 none,
    .make 1 1 "identifier" 9 10 "name", .make 1 1 "formal_parameters" 10 12 "parameters",
    .make 2 0 "(" 10 11 none, .make 2 0 ")" 11 12 none, .make 1 1 "statement_block" 13 (47 + more) "body",
    .make 2 0 "\x7b" 13 14 none, .make 2 1 "lexical_declaration" 15 (33 + more) none,
    .make 3 0 "const" 15 20 "kind", .make 3 1 "variable_declarator" 21 (32 + more) none,
    .make 4 1 "identifier" 21 22 "name", .make 4 0 "=" 23 24 none,
    .make 4 1 "arrow_function" 25 (32 + more) "value", .make 5 1 "formal_parameters" 25 27 "parameters",
    .make 6 0 "(" 25 26 none, .make 6 0 ")" 26 27 none, .make 5 0 "=>" 28 30 none] ++ callback ++
  [.make 3 0 ";" (32 + more) (33 + more) none, .make 2 1 "expression_statement" (34 + more) (45 + more) none,
    .make 3 1 "assignment_expression" (34 + more) (44 + more) none,
    .make 4 1 "member_expression" (34 + more) (40 + more) "left",
    .make 5 1 "this" (34 + more) (38 + more) "object", .make 5 0 "." (38 + more) (39 + more) none,
    .make 5 1 "property_identifier" (39 + more) (40 + more) "property",
    .make 4 0 "=" (41 + more) (42 + more) none, .make 4 1 "identifier" (43 + more) (44 + more) "right",
    .make 3 0 ";" (44 + more) (45 + more) none, .make 2 0 "\x7d" (46 + more) (47 + more) none]

/-- The text of that function, with the text of the body of the arrow function. -/
def callbackText (callback : String) : SourceText :=
  SourceText.ofString ("function f() \x7b const a = () => " ++ callback ++ "; this.m = a; \x7d")

/-- The rows of a number. -/
def numberRows : List Row := [.make 5 1 "number" 31 32 "body"]

/-- The rows of a block that returns. -/
def returningRows : List Row :=
  [.make 5 1 "statement_block" 31 44 "body", .make 6 0 "\x7b" 31 32 none,
    .make 6 1 "return_statement" 33 42 none, .make 7 0 "return" 33 39 none,
    .make 7 1 "identifier" 40 41 none, .make 7 0 ";" 41 42 none, .make 6 0 "\x7d" 43 44 none]

/-- The function with a number as that body. -/
def plainCallback : Tree := (Tree.ofRows? (callbackListing 0 numberRows)).get rfl

/-- The function with a block that returns as that body. -/
def returningCallback : Tree := (Tree.ofRows? (callbackListing 12 returningRows)).get rfl

/-- The body of the function with a number as the body of the arrow function. -/
def plainBody : Tree := (plainCallback.childAt? .body).get rfl

/-- The body of the function with a block that returns as the body of the arrow function. -/
def returningBody : Tree := (returningCallback.childAt? .body).get rfl

/-- A function does not return because a function in it does. -/
theorem facts_of_own_scope_callback :
    plainCallback.childAt? .body = some plainBody ∧ returningCallback.childAt? .body = some returningBody ∧
      plainBody.DiffersInside (callbackText "1") (callbackText "\x7b return b; \x7d") returningBody ∧
      (scopeFacts (callbackText "1") plainCallback).OfScope (callbackText "1") plainBody ∧
      (scopeFacts (callbackText "\x7b return b; \x7d") returningCallback).returns = false ∧
      (scopeFacts (callbackText "\x7b return b; \x7d") returningCallback).locals = ["a"] ∧
      (scopeFacts (callbackText "\x7b return b; \x7d") returningCallback).writtenMembers = ["m"] := by
  have hbody : plainCallback.childAt? .body = some plainBody := (Option.some_get _).symm
  have hbody' : returningCallback.childAt? .body = some returningBody := (Option.some_get _).symm
  have hdiffers : plainBody.DiffersInside (callbackText "1") (callbackText "\x7b return b; \x7d") returningBody := by
    refine ⟨rfl, .cons (.node rfl rfl nofun fun _ => .nil) (.cons (.node rfl rfl nofun fun _ => ?declaration)
      (.cons (.node rfl rfl nofun fun _ => ?assignment) (.cons (.node rfl rfl nofun fun _ => .nil) .nil)))⟩
    case declaration =>
      refine .cons (.node rfl rfl nofun fun _ => .nil) (.cons (.node rfl rfl nofun fun _ => ?_)
        (.cons (.node rfl rfl nofun fun _ => .nil) .nil))
      -- the value is the only function
      exact .cons (.node rfl rfl (fun _ => rfl) fun _ => .nil) (.cons (.node rfl rfl nofun fun _ => .nil)
        (.cons (.node rfl rfl nofun nofun) .nil))
    case assignment =>
      refine .cons (.node rfl rfl nofun fun _ => ?_) (.cons (.node rfl rfl nofun fun _ => .nil) .nil)
      refine .cons (.node rfl rfl nofun fun _ => ?_) (.cons (.node rfl rfl nofun fun _ => .nil)
        (.cons (.node rfl rfl (fun _ => rfl) fun _ => .nil) .nil))
      exact .cons (.node rfl rfl nofun fun _ => .nil) (.cons (.node rfl rfl nofun fun _ => .nil)
        (.cons (.node rfl rfl (fun _ => rfl) fun _ => .nil) .nil))
  obtain ⟨hscope, hsame⟩ := @facts_of_own_scope (callbackText "1") _ _ hbody
  obtain ⟨hreturns, hlocals, hwritten⟩ := hsame _ _ _ hbody' hdiffers
  exact ⟨hbody, hbody', hdiffers, hscope, hreturns.trans (by decide), hlocals.trans (by decide),
    hwritten.trans (by decide)⟩

end TestScaffold
