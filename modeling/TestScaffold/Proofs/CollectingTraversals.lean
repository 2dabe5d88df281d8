import TestScaffold.Findings.Collection
import TestScaffold.Proofs.Distinct
import TestScaffold.Proofs.Traversal

set_option autoImplicit false

/-!
# What traversals collect

The findings of a module, the calls below a node and the facts about a body are defined by the places of a tree, or
its nodes, in document order. Each of them is also what one traversal has collected in the end: its visits add what
is read at a place to what was collected before.

## Main definitions

* `TestScaffold.recordCall` — the calls, when one more node is visited.
* `TestScaffold.ScopeFacts.visit` — the facts about a body, when one more node is visited.
* `TestScaffold.Locus.enteredFromBody` — whether the traversal of a body goes into a place.

## Main results

* `TestScaffold.Findings.ofTree_eq_traverse` — the findings of a module.
* `TestScaffold.callChains_eq_traverse` — the calls below a node.
* `TestScaffold.scopeFacts_eq_traverse` — the facts about a body.
-/

namespace TestScaffold

variable (src : SourceText)

/-! ## Findings and calls -/

/-- A traversal that goes into every place collects the findings of a module. -/
theorem Findings.ofTree_eq_traverse (specifier : String) (root : Tree) :
    Findings.ofTree src specifier root = Findings.ofList specifier
      (Locus.traverse (fun found p => (found ++ p.findings src, true)) [] ⟨root, []⟩) := by
  have hplaces : root.lociWhile (fun _ => true) [] = root.loci [] := Tree.lociWhile_true root []
  rw [Findings.ofTree, Locus.traverse_eq_foldl (fun found p => found ++ p.findings src) (fun _ => true),
    hplaces, List.flatMap_eq_foldl]

/-- The calls that were recorded, and that at `t` if it is a call with a chain. -/
def recordCall (calls : List CallChain) (t : Tree) : List CallChain :=
  if t.kind == .callExpression then
    match callChain? src t with
    | some chain => calls ++ [chain]
    | none => calls
  else calls

/-- The calls of one more node stand behind those that were recorded. -/
theorem recordCall_eq (calls : List CallChain) (t : Tree) :
    recordCall src calls t =
      calls ++ (([t].filter (·.kind == .callExpression)).filterMap (callChain? src)) := by
  unfold recordCall
  cases hcall : t.kind == .callExpression with
  | false => simp [hcall]
  | true => cases hchain : callChain? src t <;> simp [hcall, hchain]

/-- The calls of some nodes are those that are recorded when the nodes are visited. -/
theorem foldl_recordCall (ts : List Tree) :
    ts.foldl (recordCall src) [] = (ts.filter (·.kind == .callExpression)).filterMap (callChain? src) := by
  induction ts using List.reverseRecOn with
  | nil => rfl
  | append_singleton ts t ih =>
    rw [List.foldl_append, List.foldl_cons, List.foldl_nil, ih, recordCall_eq, List.filter_append,
      List.filterMap_append]

/-- A traversal that goes into every node collects the calls below a node. -/
theorem callChains_eq_traverse (body : Tree) :
    callChains src body = body.traverse (fun calls t => (recordCall src calls t, true)) [] := by
  rw [Tree.traverse_eq_foldl (recordCall src) (fun _ => true), Tree.preorderWhile_true, foldl_recordCall, callChains]

/-! ## Facts about a body -/

namespace ScopeFacts

variable {src} {facts : ScopeFacts} {t : Tree}

variable (src) in
/-- The facts that were read, and those that the node `t` reveals. -/
def visit (facts : ScopeFacts) (t : Tree) : ScopeFacts :=
  match t.kind with
  | .variableDeclarator =>
    match identifierAt? src .name t with
    | some name => { facts with locals := facts.locals ++ [name] }
    | none => facts
  | .returnStatement => { facts with returns := true }
  | .assignmentExpression =>
    match writtenMember? src t with
    | some member =>
      if member ∈ facts.writtenMembers then facts
      else { facts with writtenMembers := facts.writtenMembers ++ [member] }
    | none => facts
  | _ => facts

/-- What a node reveals is the variable it declares, the member it assigns to, or a return. -/
theorem visit_eq (h : facts.writtenMembers.eraseDups = facts.writtenMembers) :
    facts.visit src t =
      { facts with
        locals := facts.locals ++ (declaredName? src t).toList
        writtenMembers := (facts.writtenMembers ++ (writtenMember? src t).toList).eraseDups
        returns := facts.returns || t.kind == .returnStatement } := by
  obtain ⟨parameters, names, members, calls, returned⟩ := facts
  have hwritten : t.kind ≠ .assignmentExpression → writtenMember? src t = none := fun hkind => by
    rw [writtenMember?, beq_eq_false_iff_ne.2 hkind]
    rfl
  unfold visit declaredName?
  split
  · next hkind =>
    rw [hwritten (by simp [hkind])]
    cases identifierAt? src .name t <;> simp_all
  · next hkind =>
    rw [hwritten (by simp [hkind])]
    simp_all
  · next hkind =>
    cases writtenMember? src t with
    | none => simp_all
    | some member =>
      rw [Option.toList_some, eraseDups_append_singleton, h]
      by_cases hold : member ∈ members <;> simp [hkind, hold]
  · next hvariable hreturn hassign =>
    rw [hwritten hassign, beq_eq_false_iff_ne.2 hvariable, beq_eq_false_iff_ne.2 hreturn]
    simp_all

/-- `facts.Gathers src start ts`: the facts are those of `start`, and what the nodes `ts` reveal. -/
structure Gathers (facts : ScopeFacts) (src : SourceText) (start : ScopeFacts) (ts : List Tree) : Prop where
  /-- The parameters are those of `start`. -/
  parameters : facts.parameters = start.parameters
  /-- The variables that the nodes declare stand behind those of `start`. -/
  locals : facts.locals = start.locals ++ ts.filterMap (declaredName? src)
  /-- The members that the nodes assign to stand behind those of `start`, each once. -/
  writtenMembers : facts.writtenMembers = (start.writtenMembers ++ ts.filterMap (writtenMember? src)).eraseDups
  /-- The calls are those of `start`. -/
  calls : facts.calls = start.calls
  /-- Something is returned if it is in `start`, or by one of the nodes. -/
  returns : facts.returns = (start.returns || ts.any (·.kind == .returnStatement))

variable {start : ScopeFacts} {ts : List Tree}

/-- One more visit gathers what one more node reveals. -/
theorem Gathers.visit (h : facts.Gathers src start ts) : (facts.visit src t).Gathers src start (ts ++ [t]) := by
  have hkept : facts.writtenMembers.eraseDups = facts.writtenMembers := by
    rw [h.writtenMembers, eraseDups_eraseDups]
  rw [visit_eq hkept]
  refine ⟨h.parameters, ?_, ?_, h.calls, ?_⟩
  · rw [h.locals, List.filterMap_append, List.append_assoc]
    rfl
  · rw [h.writtenMembers, List.filterMap_append, ← List.append_assoc]
    exact eraseDups_append_congr (eraseDups_eraseDups _) rfl
  · rw [h.returns, List.any_append, Bool.or_assoc]
    simp

/-- Visits of some nodes, one after another, gather what they reveal. -/
theorem gathers_foldl (hstart : start.writtenMembers.eraseDups = start.writtenMembers) (ts : List Tree) :
    (ts.foldl (ScopeFacts.visit src) start).Gathers src start ts := by
  induction ts using List.reverseRecOn with
  | nil => exact ⟨rfl, by simp, by simp [hstart], rfl, by simp⟩
  | append_singleton ts t ih =>
    rw [List.foldl_append]
    exact ih.visit

end ScopeFacts

/-- Whether the traversal of a body goes into a place: into the body itself, and below it into all that is no
function, method or class. -/
def Locus.enteredFromBody (p : Locus) : Bool := p.above.isEmpty || !p.node.kind.opensScope

/-- The traversal of a body goes to the nodes of its scope. -/
theorem map_node_lociWhile_enteredFromBody (body : Tree) :
    (body.lociWhile Locus.enteredFromBody []).map (·.node) = body.ownNodes := by
  obtain ⟨l, cs⟩ := body
  have hroot : Locus.enteredFromBody ⟨.node l cs, []⟩ = true := rfl
  have hbelow : ∀ t c above, Locus.enteredFromBody ⟨t, c :: above⟩ = !t.kind.opensScope := fun _ _ _ => rfl
  rw [Tree.lociWhile, if_pos hroot, List.map_cons, Tree.map_node_lociWhileBelow hbelow]
  rfl

/-- **The facts about a body are collected by two traversals.** The first one begins with the parameters, and with a
return if the body is an expression. It goes into the body, and below it into all that is no function, method or
class, and at each place adds what the node there reveals. The second one collects the calls.

**Proof sketch.** Each visit keeps it so that what has been read is what the nodes visited reveal, and the places
visited are those of the nodes of the scope. -/
theorem scopeFacts_eq_traverse {func body : Tree} (hbody : func.childAt? .body = some body) :
    let start : ScopeFacts :=
      { parameters := parameterNames src func
        locals := []
        writtenMembers := []
        calls := []
        returns := body.kind != .statementBlock }
    scopeFacts src func =
      { Locus.traverse (fun (facts : ScopeFacts) p => (facts.visit src p.node, p.enteredFromBody)) start ⟨body, []⟩ with
        calls := body.traverse (fun calls t => (recordCall src calls t, true)) [] } := by
  intro start
  have hread : (body.ownNodes.foldl (ScopeFacts.visit src) start).Gathers src start body.ownNodes :=
    ScopeFacts.gathers_foldl rfl body.ownNodes
  rw [Locus.traverse_eq_foldl (fun (facts : ScopeFacts) p => facts.visit src p.node) Locus.enteredFromBody,
    ← List.foldl_map, map_node_lociWhile_enteredFromBody, ← callChains_eq_traverse, scopeFacts, hbody,
    ScopeFacts.mk.injEq]
  exact ⟨hread.parameters.symm, hread.locals.symm, hread.writtenMembers.symm, rfl, hread.returns.symm⟩

end TestScaffold
