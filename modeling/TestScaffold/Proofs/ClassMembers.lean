import Mathlib.Data.List.Forall2
import TestScaffold.Proofs.Distinct
import TestScaffold.Proofs.OwnScope
import TestScaffold.Proofs.UnitNodes
import TestScaffold.Syntax.Listing

set_option autoImplicit false

/-!
# The members of a class

What is recorded of a class is said here member by member, by what is written there. The methods are the method
definitions that are no accessors, and if none of them is a constructor then one without parameters stands before
them. The fields are those that are declared, by themselves or by marked parameters of a constructor, and behind
these the members of the own object that the methods assign to.

## Main definitions

* `TestScaffold.Tree.HasModifier`, `TestScaffold.Tree.IsMethodDefinition`,
  `TestScaffold.Tree.IsConstructorDefinition` — kinds of class members.
* `TestScaffold.Tree.ReadsMethod`, `TestScaffold.Tree.DeclaresFields`, `TestScaffold.Tree.WritesMembers` — what is
  written at a class member.
* `TestScaffold.Method.IsEmptyConstructor` — a constructor that does nothing.
* `TestScaffold.ClassUnit.ReadsMembers` — a class is recorded as its members are written.
* `TestScaffold.HasField` — a class has a field of some name.

## Main results

* `TestScaffold.ClassUnit.ReadsMembers.mem_fields_iff` — the fields of a class, one by one.
* `TestScaffold.class_members_read` — the class that is found at a class with a name.
-/

namespace TestScaffold

namespace Tree

/-! ## Class members -/

/-- `member.HasModifier k`: a word of the kind `k` stands before the name of a class member. -/
def HasModifier (member : Tree) (k : Kind) : Prop :=
  ∃ before nameNode after, member.children = before ++ nameNode :: after ∧ nameNode.field = some .name ∧
    (∀ t ∈ before, t.field ≠ some .name) ∧ ∃ t ∈ before, t.kind = k

/-- A class member is a getter or a setter. -/
structure IsAccessor (member : Tree) : Prop where
  /-- It is written like a method. -/
  kind : member.kind = .methodDefinition
  /-- The word `get` or `set` stands before the name. -/
  modifier : member.HasModifier .getKeyword ∨ member.HasModifier .setKeyword

/-- A class member is a method with a name, and no accessor. -/
structure IsMethodDefinition (member : Tree) : Prop where
  /-- It is written as a method. -/
  kind : member.kind = .methodDefinition
  /-- It has a name. -/
  named : (member.childAt? .name).isSome = true
  /-- It is no accessor. -/
  not_accessor : ¬member.IsAccessor

/-- A class member is a constructor. -/
structure IsConstructorDefinition (src : SourceText) (member : Tree) : Prop extends IsMethodDefinition member where
  /-- Its name is `constructor`. -/
  name : (member.childAt? .name).map (·.text src) = some "constructor"
  /-- It does not belong to the class itself. -/
  not_static : ¬member.HasModifier .staticKeyword

/-- `member.ReadsMethod src m`: a class member is a method definition, and the method `m` is what is written
there. -/
structure ReadsMethod (src : SourceText) (member : Tree) (m : Method) : Prop extends IsMethodDefinition member where
  /-- It has the name that is written. -/
  name : (member.childAt? .name).map (·.text src) = some m.name
  /-- It belongs to the class itself if the word `static` stands before the name. -/
  isStatic_iff : m.isStatic = true ↔ member.HasModifier .staticKeyword
  /-- It is a constructor if one is written. -/
  constructor_iff : m.role = .constructor ↔ member.IsConstructorDefinition src
  /-- Otherwise it is a method. -/
  method_iff : m.role = .method ↔ ¬member.IsConstructorDefinition src
  /-- The rest is what its body reveals. -/
  facts : scopeFacts src member = ⟨m.parameters, m.locals, m.writtenMembers, m.calls, m.returns⟩

/-- `member.DeclaresField src name`: a class member declares a field by itself. -/
structure DeclaresField (src : SourceText) (member : Tree) (name : String) : Prop where
  /-- It is written as a field. -/
  kind : member.kind = .publicFieldDefinition ∨ member.kind = .fieldDefinition
  /-- This is its name. -/
  name : ((member.childAt? .name).or (member.childAt? .property)).map (·.text src) = some name

/-- `param.MarksField src name`: a parameter of a constructor declares a field. -/
structure MarksField (src : SourceText) (param : Tree) (name : String) : Prop where
  /-- It is marked with an access level or as read-only. -/
  marked : ∃ c ∈ param.children, c.kind = .accessibilityModifier ∨ c.kind = .readonlyKeyword
  /-- It is a plain name. -/
  pattern : ∃ pattern, param.childAt? .pattern = some pattern ∧ pattern.kind = .identifier ∧
    pattern.text src = name

/-- `member.DeclaresFields src names`: these are the fields that are declared at a class member. -/
inductive DeclaresFields (src : SourceText) (member : Tree) : List String → Prop where
  /-- A field declares itself. -/
  | field {name : String} (hfield : member.DeclaresField src name) : DeclaresFields src member [name]
  /-- A constructor declares fields by its marked parameters. -/
  | constructor {params : Tree} {names : List String} (hconstructor : member.IsConstructorDefinition src)
      (hparams : member.childAt? .parameters = some params)
      (hnames : PickedOut (MarksField src) params.namedChildren names) :
    DeclaresFields src member names
  /-- Nothing is declared by anything else. -/
  | other (hfield : ∀ name, ¬member.DeclaresField src name)
      (hconstructor : member.IsConstructorDefinition src → member.childAt? .parameters = none) :
    DeclaresFields src member []

/-- `member.WritesMembers src names`: these are the members of the own object that are assigned to at a class
member, in the scope of its body. -/
inductive WritesMembers (src : SourceText) (member : Tree) : List String → Prop where
  /-- A method assigns to them in its body. -/
  | method {body : Tree} {names : List String} (hmethod : member.IsMethodDefinition)
      (hbody : member.childAt? .body = some body) (hnames : PickedOut (WritesField src) body.ownNodes names) :
    WritesMembers src member names
  /-- Nothing is assigned to by anything else. -/
  | other (hmethod : member.IsMethodDefinition → member.childAt? .body = none) : WritesMembers src member []

end Tree

/-- A constructor that does nothing. -/
structure Method.IsEmptyConstructor (m : Method) : Prop where
  /-- It is called like a constructor. -/
  name : m.name = "constructor"
  /-- It sets up a new object. -/
  role : m.role = .constructor
  /-- It does not belong to the class itself. -/
  not_static : m.isStatic = false
  /-- It has no parameters. -/
  parameters : m.parameters = []
  /-- It declares no variables. -/
  locals : m.locals = []
  /-- It assigns to no members. -/
  writtenMembers : m.writtenMembers = []
  /-- It calls nothing. -/
  calls : m.calls = []
  /-- It does not return. -/
  returns : m.returns = false

/-- `c.ReadsMembers src members`: a class is recorded as its members are written. -/
structure ClassUnit.ReadsMembers (src : SourceText) (members : List Tree) (c : ClassUnit) : Prop where
  /-- The methods are those that are written, in their order. If none of them is a constructor, then one that does
  nothing stands before them. -/
  methods : ∃ ms, PickedOut (Tree.ReadsMethod src) members ms ∧
    ((∃ m ∈ ms, m.role = .constructor) ∧ c.methods = ms ∨
      (∀ m ∈ ms, m.role ≠ .constructor) ∧ ∃ m : Method, m.IsEmptyConstructor ∧ c.methods = m :: ms)
  /-- There is exactly one constructor unless two are written. -/
  one_constructor :
    members.Pairwise (fun a b => ¬(a.IsConstructorDefinition src ∧ b.IsConstructorDefinition src)) →
      c.methods.countP (·.role == .constructor) = 1
  /-- The fields are those that are declared, and then those that are assigned to, each once. -/
  fields : ∃ declared written, List.Forall₂ (Tree.DeclaresFields src) members declared ∧
    List.Forall₂ (Tree.WritesMembers src) members written ∧
      FirstOccurrences (declared.flatten ++ written.flatten) c.fields

namespace Tree

section

variable {src : SourceText} {member t : Tree}

/-! ## How class members are read -/

/-- The words that are looked at are those before the name. -/
theorem modifiers_eq {before after : List Tree} {nameNode : Tree}
    (hchildren : member.children = before ++ nameNode :: after) (hfield : nameNode.field = some .name)
    (hbefore : ∀ u ∈ before, u.field ≠ some .name) : modifiers member = before := by
  rw [modifiers, hchildren, List.takeWhile_append_of_pos fun u hu => bne_iff_ne.2 (hbefore u hu),
    List.takeWhile_cons_of_neg (by simp [hfield]), List.append_nil]

/-- A word stands before the name if it is among those that are looked at. -/
theorem hasModifier_iff {nameNode : Tree} (hname : member.childAt? .name = some nameNode) {k : Kind} :
    member.HasModifier k ↔ (modifiers member).any (·.kind == k) = true := by
  rw [List.any_eq_true]
  constructor
  · rintro ⟨before, nameNode', after, hchildren, hfield, hbefore, u, hu, rfl⟩
    rw [modifiers_eq hchildren hfield hbefore]
    exact ⟨u, hu, beq_self_eq_true _⟩
  · rintro ⟨u, hu, hk⟩
    obtain ⟨hfield, before, after, hchildren, hbefore⟩ := List.find?_eq_some_iff_append.1 hname
    have hothers : ∀ u ∈ before, u.field ≠ some .name := fun u hu => by simpa using hbefore u hu
    rw [modifiers_eq hchildren (eq_of_beq hfield) hothers] at hu
    exact ⟨before, nameNode, after, hchildren, eq_of_beq hfield, hothers, u, hu, eq_of_beq hk⟩

/-- What is read as an accessor is one. -/
theorem isAccessor_iff (hkind : member.kind = .methodDefinition) {nameNode : Tree}
    (hname : member.childAt? .name = some nameNode) : isAccessor member = true ↔ member.IsAccessor := by
  have hmodifiers : isAccessor member = true ↔
      member.HasModifier .getKeyword ∨ member.HasModifier .setKeyword := by
    rw [hasModifier_iff hname, hasModifier_iff hname, isAccessor]
    simp [List.any_eq_true, exists_or, and_or_left]
  exact ⟨fun h => ⟨hkind, hmodifiers.1 h⟩, fun h => hmodifiers.2 h.modifier⟩

/-- A method definition is a constructor if its name says so and it does not belong to the class itself. -/
theorem IsMethodDefinition.isConstructorDefinition_iff (h : member.IsMethodDefinition) {nameNode : Tree}
    (hname : member.childAt? .name = some nameNode) : member.IsConstructorDefinition src ↔
      (nameNode.text src == "constructor" && !isStatic member) = true := by
  have hstatic : isStatic member = true ↔ member.HasModifier .staticKeyword := (hasModifier_iff hname).symm
  rw [Bool.and_eq_true, Bool.not_eq_true', ← Bool.not_eq_true, hstatic, beq_iff_eq]
  constructor
  · intro hconstructor
    have htext := hconstructor.name
    rw [hname] at htext
    exact ⟨Option.some.inj htext, hconstructor.not_static⟩
  · rintro ⟨htext, hnot⟩
    exact ⟨h, by rw [hname, Option.map_some, htext], hnot⟩

/-- The method definition at a class member. -/
def definedMethod? (src : SourceText) (member : Tree) : Option Method :=
  if member.kind == .methodDefinition then method? src member else none

/-- A method is read at a method definition, and it is what is written there. -/
theorem readsMethod_of_definedMethod? {m : Method} (h : definedMethod? src member = some m) :
    member.ReadsMethod src m := by
  unfold definedMethod? method? at h
  split at h
  · next hkind =>
    replace hkind := eq_of_beq hkind
    split at h
    · cases h
    · next nameNode hname =>
      split at h
      · cases h
      · next haccessor =>
        obtain rfl := Option.some.inj h
        have hmethod : member.IsMethodDefinition :=
          ⟨hkind, by rw [hname]; rfl, fun h => haccessor ((isAccessor_iff hkind hname).2 h)⟩
        have hconstructor : member.IsConstructorDefinition src ↔
            (nameNode.text src == "constructor" && !isStatic member) = true :=
          hmethod.isConstructorDefinition_iff hname
        refine ⟨hmethod, by rw [hname]; rfl, (hasModifier_iff hname).symm, ?_, ?_, rfl⟩
        · rw [hconstructor]
          simp
        · rw [hconstructor]
          simp
  · cases h

/-- No method is read where there is no method definition. -/
theorem not_isMethodDefinition_of_definedMethod? (h : definedMethod? src member = none) :
    ¬member.IsMethodDefinition := by
  intro hmethod
  obtain ⟨nameNode, hname⟩ := Option.isSome_iff_exists.1 hmethod.named
  have haccessor : isAccessor member = false := by
    rw [← Bool.not_eq_true, isAccessor_iff hmethod.kind hname]
    exact hmethod.not_accessor
  simp [definedMethod?, hmethod.kind, method?, hname, haccessor] at h

/-- One method at most is written at a class member. -/
theorem ReadsMethod.unique {m m' : Method} (h : member.ReadsMethod src m) (h' : member.ReadsMethod src m') :
    m' = m := by
  have hname : m'.name = m.name := Option.some.inj (h'.name.symm.trans h.name)
  have hstatic : m'.isStatic = m.isStatic := Bool.eq_iff_iff.2 (h'.isStatic_iff.trans h.isStatic_iff.symm)
  have hrole : m'.role = m.role := by
    by_cases hconstructor : member.IsConstructorDefinition src
    · rw [h'.constructor_iff.2 hconstructor, h.constructor_iff.2 hconstructor]
    · rw [h'.method_iff.2 hconstructor, h.method_iff.2 hconstructor]
  have hfacts := h'.facts.symm.trans h.facts
  obtain ⟨name, role, isStatic, parameters, locals, writtenMembers, calls, returns⟩ := m
  obtain ⟨name', role', isStatic', parameters', locals', writtenMembers', calls', returns'⟩ := m'
  simp_all

/-- The method that is read at a class member is the one that is written there. -/
theorem definedMethod?_eq_some {m : Method} : definedMethod? src member = some m ↔ member.ReadsMethod src m := by
  refine ⟨readsMethod_of_definedMethod?, fun h => ?_⟩
  cases hread : definedMethod? src member with
  | none => exact absurd h.toIsMethodDefinition (not_isMethodDefinition_of_definedMethod? hread)
  | some m' => rw [(readsMethod_of_definedMethod? hread).unique h]

/-- The field that a parameter declares by a mark. -/
def markedField? (src : SourceText) (param : Tree) : Option String :=
  if param.hasChildOfKind .accessibilityModifier || param.hasChildOfKind .readonlyKeyword then
    identifierAt? src .pattern param
  else none

/-- The field that a marked parameter declares is read. -/
theorem markedField?_eq_some {name : String} : markedField? src t = some name ↔ t.MarksField src name := by
  have hmarked : (t.hasChildOfKind .accessibilityModifier || t.hasChildOfKind .readonlyKeyword) = true ↔
      ∃ c ∈ t.children, c.kind = .accessibilityModifier ∨ c.kind = .readonlyKeyword := by
    simp [hasChildOfKind, and_or_left, exists_or]
  unfold markedField?
  rw [Option.ite_none_right_eq_some, hmarked, identifierAt?_eq_some]
  exact ⟨fun h => ⟨h.1, h.2⟩, fun h => ⟨h.marked, h.pattern⟩⟩

/-! ## How the fields of a class are read -/

/-- Only a field declares itself. -/
theorem not_declaresField (hpublic : member.kind ≠ .publicFieldDefinition)
    (hplain : member.kind ≠ .fieldDefinition) (name : String) : ¬member.DeclaresField src name :=
  fun h => h.kind.elim hpublic hplain

/-- A constructor is one of the methods that are read. -/
theorem isConstructorDefinition_iff : member.IsConstructorDefinition src ↔
    ∃ m, definedMethod? src member = some m ∧ m.role = .constructor := by
  constructor
  · intro h
    cases hm : definedMethod? src member with
    | none => exact absurd h.toIsMethodDefinition (not_isMethodDefinition_of_definedMethod? hm)
    | some m => exact ⟨m, rfl, (definedMethod?_eq_some.1 hm).constructor_iff.2 h⟩
  · rintro ⟨m, hm, hrole⟩
    exact (definedMethod?_eq_some.1 hm).constructor_iff.1 hrole

/-- What is written as a field declares itself, if it has a name. -/
theorem declaresFields_toList (hkind : member.kind = .publicFieldDefinition ∨ member.kind = .fieldDefinition) :
    member.DeclaresFields src
      (((member.childAt? .name).or (member.childAt? .property)).map (·.text src)).toList := by
  cases hname : ((member.childAt? .name).or (member.childAt? .property)).map (·.text src) with
  | some name => exact .field ⟨hkind, hname⟩
  | none =>
    refine .other (fun name h => ?_) fun h => ?_
    · rw [h.name] at hname
      cases hname
    · have hmethod := h.kind
      rcases hkind with hkind | hkind <;> simp [hkind] at hmethod

/-- A constructor declares the fields that are read off its parameters. -/
theorem declaresFields_markedFields (h : member.IsConstructorDefinition src) :
    member.DeclaresFields src (markedFields src member) := by
  unfold markedFields
  split
  · next hparams =>
    exact .other (not_declaresField (by simp [h.kind]) (by simp [h.kind])) fun _ => hparams
  · next params hparams =>
    refine .constructor h hparams ((pickedOut_iff fun _ _ => markedField?_eq_some).2 ?_)
    rw [List.filterMap_filter]
    rfl

/-- The fields that are read at a class member are those that are declared there. -/
theorem declaresFields_declaredFields (src : SourceText) (member : Tree) :
    member.DeclaresFields src (declaredFields src member) := by
  unfold declaredFields
  split
  · next hkind => exact declaresFields_toList (Or.inl hkind)
  · next hkind => exact declaresFields_toList (Or.inr hkind)
  · next hkind =>
    have hnone : ∀ name, ¬member.DeclaresField src name :=
      not_declaresField (by simp [hkind]) (by simp [hkind])
    have hmethod : method? src member = definedMethod? src member := by simp [definedMethod?, hkind]
    rw [hmethod]
    split
    · next m hm =>
      split
      · next hrole => exact declaresFields_markedFields (isConstructorDefinition_iff.2 ⟨m, hm, eq_of_beq hrole⟩)
      · next hrole =>
        refine .other hnone fun h => absurd ?_ hrole
        rw [(definedMethod?_eq_some.1 hm).constructor_iff.2 h]
        rfl
    · next hm =>
      exact .other hnone fun h =>
        absurd h.toIsMethodDefinition (not_isMethodDefinition_of_definedMethod? hm)
  · next hpublic hplain hkind =>
    exact .other (not_declaresField hpublic hplain) fun h => absurd h.kind hkind

/-- The members of the own object that are assigned to at a class member, each as often as it is. -/
def writtenNames (src : SourceText) (member : Tree) : List String :=
  match definedMethod? src member, member.childAt? .body with
  | some _, some body => body.ownNodes.filterMap (writtenMember? src)
  | _, _ => []

/-- The members that are assigned to are read. -/
theorem writesMembers_writtenNames (src : SourceText) (member : Tree) :
    member.WritesMembers src (writtenNames src member) := by
  unfold writtenNames
  cases hmethod : definedMethod? src member with
  | none => exact .other fun h => absurd h (not_isMethodDefinition_of_definedMethod? hmethod)
  | some m =>
    cases hbody : member.childAt? .body with
    | none => exact .other fun _ => hbody
    | some body =>
      exact .method (definedMethod?_eq_some.1 hmethod).toIsMethodDefinition hbody
        ((pickedOut_iff fun _ _ => writtenMember?_eq_some).2 rfl)

/-- A method keeps the members that it assigns to, each once. -/
theorem flatMap_writtenMembers (src : SourceText) (member : Tree) :
    (definedMethod? src member).toList.flatMap Method.writtenMembers = (writtenNames src member).eraseDups := by
  unfold writtenNames
  cases hmethod : definedMethod? src member with
  | none => rfl
  | some m =>
    have hwritten : (scopeFacts src member).writtenMembers = m.writtenMembers :=
      congrArg ScopeFacts.writtenMembers (definedMethod?_eq_some.1 hmethod).facts
    rw [Option.toList_some, List.flatMap_singleton, ← hwritten, scopeFacts]
    cases member.childAt? .body <;> rfl

/-- The methods of several members, without these. -/
theorem map_snd_methodMembers (src : SourceText) (members : List Tree) :
    (methodMembers src members).map (·.2) = members.filterMap (definedMethod? src) := by
  rw [methodMembers, List.filterMap_filter, List.map_filterMap]
  refine List.filterMap_congr fun member _ => ?_
  unfold definedMethod?
  split
  · rw [Option.map_map]
    exact congrFun Option.map_id _
  · rfl

end

end Tree

/-- The fields of a class are those that its members declare and then those that they assign to. -/
theorem fields_classReading (src : SourceText) (node : Tree) (name : String) :
    (classReading src node name).unit.fields =
      ((classMembers node).flatMap (declaredFields src) ++
        (classMembers node).flatMap (Tree.writtenNames src)).eraseDups := by
  have hwritten : ((methodMembers src (classMembers node)).flatMap fun entry => entry.2.writtenMembers) =
      (classMembers node).flatMap fun member => (Tree.writtenNames src member).eraseDups := by
    rw [← List.flatMap_map, Tree.map_snd_methodMembers, List.filterMap_eq_flatMap_toList, List.flatMap_assoc]
    exact List.flatMap_congr fun member _ => Tree.flatMap_writtenMembers src member
  have hfields : (classReading src node name).unit.fields = ((classMembers node).flatMap (declaredFields src) ++
      (methodMembers src (classMembers node)).flatMap fun entry => entry.2.writtenMembers).eraseDups := rfl
  rw [hfields, hwritten]
  exact eraseDups_append_congr rfl (eraseDups_flatMap_eraseDups (Tree.writtenNames src) (classMembers node))

/-- A constructor that does nothing stands before the methods of a class if none of them is a constructor. -/
theorem withConstructor_cases (ms : List Method) :
    (∃ m ∈ ms, m.role = .constructor) ∧ withConstructor ms = ms ∨
      (∀ m ∈ ms, m.role ≠ .constructor) ∧
        ∃ m : Method, m.IsEmptyConstructor ∧ withConstructor ms = m :: ms := by
  have hempty : Method.emptyConstructor.IsEmptyConstructor := ⟨rfl, rfl, rfl, rfl, rfl, rfl, rfl, rfl⟩
  unfold withConstructor
  split
  · next hany => exact Or.inl ⟨by simpa using hany, rfl⟩
  · next hnone => exact Or.inr ⟨by simpa using hnone, _, hempty, rfl⟩

/-- Of several methods one at most is a constructor, if no two of them are. -/
theorem countP_constructor_le {ms : List Method}
    (h : ms.Pairwise fun m m' => ¬(m.role = .constructor ∧ m'.role = .constructor)) :
    ms.countP (·.role == .constructor) ≤ 1 := by
  rw [List.countP_eq_length_filter]
  have hfilter := h.filter (·.role == .constructor)
  generalize hms : ms.filter (·.role == .constructor) = constructors at hfilter
  have hrole : ∀ m ∈ constructors, m.role = .constructor := by
    intro m hm
    rw [← hms] at hm
    exact eq_of_beq (List.mem_filter.1 hm).2
  match constructors with
  | [] => exact Nat.zero_le 1
  | [m] => exact le_rfl
  | m :: m' :: rest =>
    exact absurd ⟨hrole m (by simp), hrole m' (by simp)⟩ ((List.pairwise_cons.1 hfilter).1 m' (by simp))

/-- There is exactly one constructor if no two of the methods are constructors. -/
theorem countP_withConstructor {ms : List Method}
    (h : ms.Pairwise fun m m' => ¬(m.role = .constructor ∧ m'.role = .constructor)) :
    (withConstructor ms).countP (·.role == .constructor) = 1 := by
  have hle := countP_constructor_le h
  rcases withConstructor_cases ms with ⟨⟨m, hm, hrole⟩, heq⟩ | ⟨hnone, m, hempty, heq⟩
  · have hpos : 0 < ms.countP (·.role == .constructor) := List.countP_pos_iff.2 ⟨m, hm, by simp [hrole]⟩
    rw [heq]
    omega
  · have hzero : ms.countP (·.role == .constructor) = 0 := List.countP_eq_zero.2 fun m hm => by
      simpa using hnone m hm
    rw [heq, List.countP_cons, hzero, hempty.role]
    rfl

/-- **A class is recorded as its members are written.**

**Proof sketch.** The methods are read member by member, and so are the fields that are declared. The members that
are assigned to are kept once for each method and then once for the class, which is the same as once for the
class. -/
theorem readsMembers_classReading (src : SourceText) (node : Tree) (name : String) :
    (classReading src node name).unit.ReadsMembers src (classMembers node) := by
  have hmethods : (classReading src node name).unit.methods =
      withConstructor ((classMembers node).filterMap (Tree.definedMethod? src)) := by
    rw [← Tree.map_snd_methodMembers]
    rfl
  have hpicked : PickedOut (Tree.ReadsMethod src) (classMembers node)
      ((classMembers node).filterMap (Tree.definedMethod? src)) :=
    (pickedOut_iff fun _ _ => Tree.definedMethod?_eq_some).2 rfl
  refine ⟨⟨_, hpicked, hmethods ▸ withConstructor_cases _⟩, fun hpairwise => ?_, ?_⟩
  · rw [hmethods]
    refine countP_withConstructor (hpairwise.filterMap _ fun a a' hnot m hm m' hm' hroles => hnot ?_)
    exact ⟨Tree.isConstructorDefinition_iff.2 ⟨m, hm, hroles.1⟩,
      Tree.isConstructorDefinition_iff.2 ⟨m', hm', hroles.2⟩⟩
  · refine ⟨_, _, List.forall₂_map_right_iff.2 (List.forall₂_same.2 fun member _ =>
      Tree.declaresFields_declaredFields src member), List.forall₂_map_right_iff.2
        (List.forall₂_same.2 fun member _ => Tree.writesMembers_writtenNames src member), ?_⟩
    rw [firstOccurrences_iff, fields_classReading, List.flatMap_def, List.flatMap_def]

/-! ## The fields one by one -/

/-- What is read off each of several entries is read off one of them. -/
theorem mem_flatten_iff {α β : Type} {S : α → List β → Prop} {P : α → Prop} {xs : List α} {yss : List (List β)}
    {b : β} (h : List.Forall₂ S xs yss) (hmem : ∀ {a ys}, S a ys → (b ∈ ys ↔ P a)) :
    b ∈ yss.flatten ↔ ∃ a ∈ xs, P a := by
  induction h with
  | nil => simp
  | cons hread _ ih => simp [hmem hread, ih]

namespace Tree

section

variable {src : SourceText} {member : Tree} {names : List String} {name : String}

/-- A field has one name. -/
theorem DeclaresField.unique {name' : String} (h : member.DeclaresField src name)
    (h' : member.DeclaresField src name') : name' = name :=
  Option.some.inj (h'.name.symm.trans h.name)

/-- A constructor is not written as a field. -/
theorem DeclaresField.not_isConstructorDefinition (h : member.DeclaresField src name) :
    ¬member.IsConstructorDefinition src :=
  fun hconstructor => not_declaresField (by simp [hconstructor.kind]) (by simp [hconstructor.kind]) name h

/-- The fields that are declared at a class member are the field that is written, and those that the parameters of a
constructor declare by a mark. -/
theorem DeclaresFields.mem_iff (h : member.DeclaresFields src names) : name ∈ names ↔
    member.DeclaresField src name ∨ member.IsConstructorDefinition src ∧ ∃ params,
      member.childAt? .parameters = some params ∧ ∃ param ∈ params.namedChildren, param.MarksField src name := by
  cases h with
  | field hfield =>
    have hnone := hfield.not_isConstructorDefinition
    rw [List.mem_singleton]
    exact ⟨fun h => Or.inl (h ▸ hfield), fun h => (h.resolve_right fun h => hnone h.1).unique hfield ▸ rfl⟩
  | constructor hconstructor hparams hnames =>
    have hnone : ¬member.DeclaresField src name := fun h => h.not_isConstructorDefinition hconstructor
    rw [hnames.mem_iff fun _ _ => markedField?_eq_some]
    simp [hnone, hconstructor, hparams]
  | other hfield hconstructor =>
    simp only [List.not_mem_nil, hfield, false_or, false_iff]
    rintro ⟨h, params, hparams, -⟩
    simp [hconstructor h] at hparams

/-- The members that are assigned to at a class member are those that nodes of its own scope assign to. -/
theorem WritesMembers.mem_iff (h : member.WritesMembers src names) : name ∈ names ↔
    member.IsMethodDefinition ∧ ∃ body, member.childAt? .body = some body ∧
      ∃ t, body.IsOwnNode t ∧ t.WritesField src name := by
  cases h with
  | method hmethod hbody hnames =>
    rw [hnames.mem_iff fun _ _ => writtenMember?_eq_some]
    simp [hmethod, hbody, mem_ownNodes_iff]
  | other hmethod =>
    simp only [List.not_mem_nil, false_iff]
    rintro ⟨h, body, hbody, -⟩
    simp [hmethod h] at hbody

end

end Tree

/-- `HasField src members name`: a class with the given members has a field of this name. -/
inductive HasField (src : SourceText) (members : List Tree) (name : String) : Prop where
  /-- A member declares it by itself. -/
  | declared {member : Tree} (hmember : member ∈ members) (hfield : member.DeclaresField src name) :
    HasField src members name
  /-- A constructor declares it by a marked parameter. -/
  | marked {member params param : Tree} (hmember : member ∈ members)
      (hconstructor : member.IsConstructorDefinition src) (hparams : member.childAt? .parameters = some params)
      (hparam : param ∈ params.namedChildren) (hmarks : param.MarksField src name) :
    HasField src members name
  /-- A method assigns to it in its own scope. -/
  | written {member body t : Tree} (hmember : member ∈ members) (hmethod : member.IsMethodDefinition)
      (hbody : member.childAt? .body = some body) (hnode : body.IsOwnNode t) (hwrites : t.WritesField src name) :
    HasField src members name

/-- **The fields of a class** are those that it declares by themselves, those that the marked parameters of a
constructor declare, and the members of the own object that its methods assign to in their own scope. -/
theorem ClassUnit.ReadsMembers.mem_fields_iff {src : SourceText} {members : List Tree} {c : ClassUnit}
    (h : c.ReadsMembers src members) {name : String} : name ∈ c.fields ↔ HasField src members name := by
  obtain ⟨declared, written, hdeclared, hwritten, hfields⟩ := h.fields
  rw [hfields.mem_iff, List.mem_append, mem_flatten_iff hdeclared Tree.DeclaresFields.mem_iff,
    mem_flatten_iff hwritten Tree.WritesMembers.mem_iff]
  constructor
  · rintro (⟨member, hmember, hfield | ⟨hconstructor, params, hparams, param, hparam, hmarks⟩⟩ |
      ⟨member, hmember, hmethod, body, hbody, t, hnode, hwrites⟩)
    · exact .declared hmember hfield
    · exact .marked hmember hconstructor hparams hparam hmarks
    · exact .written hmember hmethod hbody hnode hwrites
  · intro hname
    cases hname with
    | declared hmember hfield => exact Or.inl ⟨_, hmember, Or.inl hfield⟩
    | marked hmember hconstructor hparams hparam hmarks =>
      exact Or.inl ⟨_, hmember, Or.inr ⟨hconstructor, _, hparams, _, hparam, hmarks⟩⟩
    | written hmember hmethod hbody hnode hwrites =>
      exact Or.inr ⟨_, hmember, hmethod, _, hbody, _, hnode, hwrites⟩

/-! ## Accessors and static members -/

section

variable {src : SourceText} {member : Tree}

/-- An accessor is no method, declares no field and assigns to none. -/
theorem Tree.IsAccessor.contributes_nothing (h : member.IsAccessor) (src : SourceText) :
    (∀ m, ¬member.ReadsMethod src m) ∧ (∀ {names}, member.DeclaresFields src names → names = []) ∧
      ∀ {names}, member.WritesMembers src names → names = [] := by
  have hmethod : ¬member.IsMethodDefinition := fun hm => hm.not_accessor h
  refine ⟨fun m hm => hmethod hm.toIsMethodDefinition, fun hnames => ?_, fun hnames => ?_⟩
  · cases hnames with
    | field hfield => exact absurd hfield (Tree.not_declaresField (by simp [h.kind]) (by simp [h.kind]) _)
    | constructor hconstructor => exact absurd hconstructor.toIsMethodDefinition hmethod
    | other => rfl
  · cases hnames with
    | method hdefinition => exact absurd hdefinition hmethod
    | other => rfl

/-- A method that belongs to the class itself is no constructor, whatever its name is. -/
theorem Tree.ReadsMethod.role_of_static {m : Method} (h : member.ReadsMethod src m)
    (hstatic : member.HasModifier .staticKeyword) : m.role = .method :=
  h.method_iff.2 fun hconstructor => hconstructor.not_static hstatic

end

/-! ## Classes -/

/-- The node at a place is the value of a variable with a plain name. -/
def Locus.Initialises (src : SourceText) (p : Locus) (name : String) : Prop :=
  ∃ step ∈ p.above.head?, step.parent.kind = .variableDeclarator ∧ step.fills .value = true ∧
    ∃ nameNode, step.parent.childAt? .name = some nameNode ∧ nameNode.kind = .identifier ∧
      nameNode.text src = name

/-- `p.NamesClass src name`: a class is known by the variable that it is the value of, and else by its own name. -/
inductive Locus.NamesClass (src : SourceText) (p : Locus) : String → Prop where
  /-- The class is the value of a variable. -/
  | initialised {name : String} (hvariable : p.Initialises src name) : NamesClass src p name
  /-- The class has a name of its own. -/
  | own {nameNode : Tree} (hvariable : ∀ name, ¬p.Initialises src name)
      (hname : p.node.childAt? .name = some nameNode) : NamesClass src p (nameNode.text src)

/-- The variable that a node is the value of is read. -/
theorem Locus.initialisedVariable?_eq_some {src : SourceText} {p : Locus} {name : String} :
    initialisedVariable? src p = some name ↔ p.Initialises src name := by
  unfold initialisedVariable? Initialises
  obtain ⟨node, above⟩ := p
  cases above with
  | nil => simp
  | cons step above => simp [Option.ite_none_right_eq_some, Tree.identifierAt?_eq_some, and_assoc]

/-- The name that a class is known by is read. -/
theorem Locus.NamesClass.reachableName?_eq {src : SourceText} {p : Locus} {name : String}
    (h : p.NamesClass src name) : reachableName? src p = some name := by
  unfold reachableName?
  cases h with
  | initialised hvariable => rw [initialisedVariable?_eq_some.2 hvariable, Option.some_or]
  | own hvariable hname =>
    have hnone : initialisedVariable? src p = none :=
      Option.eq_none_iff_forall_not_mem.2 fun name h => hvariable name (initialisedVariable?_eq_some.1 h)
    rw [hnone, hname, Option.none_or, Option.map_some]

/-- **The class that is found at a class with a name.** There is exactly one, and it is recorded as its members are
written. Its methods are the method definitions with a name that are no accessors, in their order, behind a
constructor without parameters if none of them is a constructor; so there is exactly one constructor unless two are
written. Its fields are pairwise distinct and stand in the order of first occurrences: those that are declared by
themselves or by marked parameters of a constructor, and then the members of the own object that its methods assign
to in their own scope. A static method is no constructor, and accessors contribute neither methods nor fields. -/
theorem class_members_read {src : SourceText} {p : Locus} {name : String} (hclass : p.Holds classKinds)
    (hname : p.NamesClass src name) :
    ∃ r, p.findings src = [.classFound r] ∧ r.unit.name = name ∧
      r.unit.ReadsMembers src (classMembers p.node) ∧ r.unit.fields.Nodup ∧
      (∀ field, field ∈ r.unit.fields ↔ HasField src (classMembers p.node) field) ∧
      (∀ (member : Tree) (m : Method), member.ReadsMethod src m → member.HasModifier .staticKeyword →
        m.role = .method) ∧
      ∀ member : Tree, member.IsAccessor → (∀ m, ¬member.ReadsMethod src m) ∧
        ∀ names, member.DeclaresFields src names ∨ member.WritesMembers src names → names = [] := by
  have hfound : p.findings src = [.classFound (classReading src p.node name)] := by
    rw [Locus.findings_eq_classFindings hclass, classFindings, hname.reachableName?_eq]
  have hreads := readsMembers_classReading src p.node name
  obtain ⟨_, _, _, _, hfields⟩ := hreads.fields
  refine ⟨_, hfound, rfl, hreads, hfields.nodup, fun _ => hreads.mem_fields_iff,
    fun _ _ hm => hm.role_of_static, fun member h => ?_⟩
  obtain ⟨hmethod, hdeclares, hwrites⟩ := h.contributes_nothing src
  exact ⟨hmethod, fun names hnames => hnames.elim hdeclares hwrites⟩

/-- The listing of a class with a field, a constructor, a getter and a static method named `constructor`. -/
def membersListing : List Row :=
  [.make 0 1 "class_declaration" 0 92 none, .make 1 0 "class" 0 5 none, .make 1 1 "type_identifier" 6 7 "name",
    .make 1 1 "class_body" 8 92 "body", .make 2 0 "\x7b" 8 9 none,
    .make 2 1 "public_field_definition" 10 15 none, .make 3 1 "property_identifier" 10 11 "name",
    .make 3 0 "=" 12 13 none, .make 3 1 "number" 14 15 "value", .make 2 0 ";" 15 16 none,
    .make 2 1 "method_definition" 17 55 none, .make 3 1 "property_identifier" 17 28 "name",
    .make 3 1 "formal_parameters" 28 39 "parameters", .make 4 0 "(" 28 29 none,
    .make 4 1 "required_parameter" 29 38 none, .make 5 1 "accessibility_modifier" 29 36 none,
    .make 5 1 "identifier" 37 38 "pattern", .make 4 0 ")" 38 39 none, .make 3 1 "statement_block" 40 55 "body",
    .make 4 0 "\x7b" 40 41 none, .make 4 1 "expression_statement" 42 53 none,
    .make 5 1 "assignment_expression" 42 52 none, .make 6 1 "member_expression" 42 48 "left",
    .make 7 1 "this" 42 46 "object", .make 7 0 "." 46 47 none,
    .make 7 1 "property_identifier" 47 48 "property", .make 6 0 "=" 49 50 none,
    .make 6 1 "identifier" 51 52 "right", .make 5 0 ";" 52 53 none, .make 4 0 "\x7d" 54 55 none,
    .make 2 1 "method_definition" 56 66 none, .make 3 0 "get" 56 59 none,
    .make 3 1 "property_identifier" 60 61 "name", .make 3 1 "formal_parameters" 61 63 "parameters",
    .make 4 0 "(" 61 62 none, .make 4 0 ")" 62 63 none, .make 3 1 "statement_block" 64 66 "body",
    .make 4 0 "\x7b" 64 65 none, .make 4 0 "\x7d" 65 66 none, .make 2 1 "method_definition" 67 90 none,
    .make 3 0 "static" 67 73 none, .make 3 1 "property_identifier" 74 85 "name",
    .make 3 1 "formal_parameters" 85 87 "parameters", .make 4 0 "(" 85 86 none, .make 4 0 ")" 86 87 none,
    .make 3 1 "statement_block" 88 90 "body", .make 4 0 "\x7b" 88 89 none, .make 4 0 "\x7d" 89 90 none,
    .make 2 0 "\x7d" 91 92 none]

/-- The text of that class. -/
def membersText : SourceText :=
  SourceText.ofString
    ("class A \x7b x = 1; constructor(private y) \x7b this.z = y; \x7d " ++
      "get w() \x7b\x7d static constructor() \x7b\x7d \x7d")

/-- The tree of that class. -/
def membersTree : Tree := (Tree.ofRows? membersListing).get rfl

/-- The class is found with its constructor and three fields. -/
theorem class_members_read_fields :
    ∃ r, Locus.findings membersText ⟨membersTree, []⟩ = [.classFound r] ∧ r.unit.name = "A" ∧
      r.unit.ReadsMembers membersText (classMembers membersTree) ∧ r.unit.fields = ["x", "y", "z"] ∧
      r.unit.methods.map (fun m => (m.name, m.role)) =
        [("constructor", .constructor), ("constructor", .method)] := by
  have hvariable : ∀ name, ¬Locus.Initialises membersText ⟨membersTree, []⟩ name := by
    rintro name ⟨step, hstep, -⟩
    cases hstep
  have hown : (Locus.mk membersTree []).node.childAt? .name = some ((membersTree.childAt? .name).get rfl) := rfl
  have hclass : Locus.NamesClass membersText ⟨membersTree, []⟩ "A" := .own hvariable hown
  obtain ⟨r, hfound, hname, hreads, -⟩ := class_members_read ⟨rfl, by decide⟩ hclass
  have hread : [Finding.classFound (classReading membersText membersTree "A")] = [Finding.classFound r] := hfound
  obtain rfl : classReading membersText membersTree "A" = r := Finding.classFound.inj (List.cons.inj hread).1
  exact ⟨_, hfound, hname, hreads, rfl, rfl⟩

end TestScaffold
