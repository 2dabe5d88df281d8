import TestScaffold.Findings.Basic
import TestScaffold.Findings.Scope

set_option autoImplicit false

/-!
# Classes

A class is read member by member. Its fields are those it declares, those its constructor declares by
marked parameters, and those its methods assign to; its methods are those that are no accessors.

## Main definitions

* `TestScaffold.reachableName?` — the name a class is known by.
* `TestScaffold.method?` — one method of a class body.
* `TestScaffold.classReading`, `TestScaffold.classFindings` — a class as a finding.
-/

namespace TestScaffold

/-- The name of the class at a place: that of the variable it initialises, for it is reachable under no
other name, else its own. -/
def reachableName? (src : SourceText) (p : Locus) : Option String :=
  (initialisedVariable? src p).or ((p.node.childAt? .name).map (·.text src))

/-- The words before the name of a class member, such as `static` and `get`. -/
def modifiers (member : Tree) : List Tree :=
  member.children.takeWhile (·.field != some .name)

/-- Whether a class member is an accessor, that is, reads or writes like a field. -/
def isAccessor (member : Tree) : Bool :=
  (modifiers member).any fun t => t.kind == .getKeyword || t.kind == .setKeyword

/-- Whether a class member belongs to the class itself. -/
def isStatic (member : Tree) : Bool := (modifiers member).any (·.kind == .staticKeyword)

/-- The method at a class member. An accessor is none. -/
def method? (src : SourceText) (member : Tree) : Option Method :=
  match member.childAt? .name with
  | none => none
  | some nameNode =>
    if isAccessor member then none
    else
      let name := nameNode.text src
      let facts := scopeFacts src member
      some
        { name
          role := if name == "constructor" && !isStatic member then .constructor else .method
          isStatic := isStatic member
          parameters := facts.parameters
          locals := facts.locals
          writtenMembers := facts.writtenMembers
          calls := facts.calls
          returns := facts.returns }

/-- The fields that a constructor declares by parameters marked with an access level or as read-only. -/
def markedFields (src : SourceText) (ctor : Tree) : List String :=
  match ctor.childAt? .parameters with
  | none => []
  | some params =>
    (params.namedChildren.filter fun param =>
      param.hasChildOfKind .accessibilityModifier || param.hasChildOfKind .readonlyKeyword).filterMap
      (identifierAt? src .pattern)

/-- The methods of a class body with the members they are read from. -/
def methodMembers (src : SourceText) (members : List Tree) : List (Tree × Method) :=
  (members.filter (·.kind == .methodDefinition)).filterMap fun member =>
    (method? src member).map fun m => (member, m)

/-- The fields that one member of a class body declares. -/
def declaredFields (src : SourceText) (member : Tree) : List String :=
  match member.kind with
  | .publicFieldDefinition | .fieldDefinition =>
    (((member.childAt? .name).or (member.childAt? .property)).map (·.text src)).toList
  | .methodDefinition =>
    match method? src member with
    | some m => if m.role == .constructor then markedFields src member else []
    | none => []
  | _ => []

/-- The methods of a class, with a constructor before them if none of them is one. -/
def withConstructor (methods : List Method) : List Method :=
  if methods.any (·.role == .constructor) then methods
  else Method.emptyConstructor :: methods

/-- The class at a node under a given name. -/
def classReading (src : SourceText) (node : Tree) (name : String) : Reading ClassUnit :=
  let members := ((node.childAt? .body).map Tree.namedChildren).getD []
  let methods := methodMembers src members
  { unit :=
      { name
        fields :=
          (members.flatMap (declaredFields src) ++
            methods.flatMap fun (_, m) => m.writtenMembers).eraseDups
        methods := withConstructor (methods.map (·.2)) }
    diagnostics := methods.flatMap fun (member, _) => parameterDiagnostics src member }

/-- The finding at a class: the class, or a report if it has no name. -/
def classFindings (src : SourceText) (p : Locus) : List Finding :=
  match reachableName? src p with
  | some name => [.classFound (classReading src p.node name)]
  | none => [.flagged ⟨.namelessClass, p.node.line src⟩]

end TestScaffold
