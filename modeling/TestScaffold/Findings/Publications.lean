import TestScaffold.Text.Literal
import TestScaffold.Findings.Basic
import TestScaffold.Findings.Scope

set_option autoImplicit false

/-!
# Publications

The names that a module publishes, by `export` statements and by assignments to its export slot.

## Main definitions

* `TestScaffold.exportFindings` — the findings at an `export` statement.
* `TestScaffold.slotFindings` — the findings at an assignment.

## Implementation notes

A name passed on from another module has nothing behind it in this one. A default export that is passed on
has no name to import it by and is left out, as is everything published by a star.
-/

namespace TestScaffold

/-- The name of the default export when it is addressed like a named one. -/
def defaultWord : String := "default"

/-! ## Export statements -/

/-- A name published under a name inside the module. -/
def localExport (kind : ExportKind) (exported localName : String) : Finding :=
  .exported ⟨kind, exported, localName, none⟩

/-- The named children of a node that are of kind `k`. -/
def namedOfKind (k : Kind) (t : Tree) : List Tree := t.namedChildren.filter (·.kind == k)

/-- The names that a child of a re-export passes on. -/
def reexportedNames (src : SourceText) (child : Tree) : List String :=
  match child.kind with
  | .namespaceExport => (child.firstNamed?.map (·.text src)).toList
  | .exportClause =>
    (namedOfKind .exportSpecifier child).filterMap fun spec =>
      ((spec.childAt? .newName).or (spec.childAt? .name)).map (·.text src)
  | _ => []

/-- The findings at an `export` statement that passes names on from the module `source`. -/
def reexportFindings (src : SourceText) (source : String) (statement : Tree) : List Finding :=
  ((statement.namedChildren.flatMap (reexportedNames src)).filter (· != defaultWord)).map fun name =>
    .exported ⟨.named, name, name, some source⟩

/-- The names that an exported declaration declares. -/
def declaredNames (src : SourceText) (declaration : Tree) : List String :=
  match declaration.kind with
  | .classDeclaration | .abstractClassDeclaration | .functionDeclaration
  | .generatorFunctionDeclaration => ((declaration.childAt? .name).map (·.text src)).toList
  | .lexicalDeclaration | .variableDeclaration =>
    (namedOfKind .variableDeclarator declaration).filterMap (identifierAt? src .name)
  | _ => []

/-- The name of a value that is exported as the default. -/
def valueName? (src : SourceText) (value : Tree) : Option String :=
  match value.kind with
  | .identifier => some (value.text src)
  | .classExpression | .functionExpression | .function | .generatorFunction =>
    (value.childAt? .name).map (·.text src)
  | _ => none

/-- The finding at one part of an export clause. -/
def specifierFinding? (src : SourceText) (spec : Tree) : Option Finding :=
  (spec.childAt? .name).map fun nameNode =>
    let localName := nameNode.text src
    let exported := ((spec.childAt? .newName).map (·.text src)).getD localName
    localExport (if exported == defaultWord then .default else .named) exported localName

/-- The findings at an `export` statement. -/
def exportFindings (src : SourceText) (statement : Tree) : List Finding :=
  match statement.childAt? .source with
  | some source => reexportFindings src (stripQuotes (source.text src)) statement
  | none =>
    match statement.childAt? .declaration with
    | some declaration =>
      let kind := if statement.hasChildOfKind .defaultKeyword then .default else .named
      (declaredNames src declaration).map fun name => localExport kind name name
    | none =>
      match statement.childAt? .value with
      | some value =>
        match valueName? src value with
        | some name => [localExport .default name name]
        | none => [.flagged ⟨.namelessDefault, statement.line src⟩]
      | none =>
        ((namedOfKind .exportClause statement).flatMap (namedOfKind .exportSpecifier)).filterMap
          (specifierFinding? src)

/-! ## The export slot -/

/-- Whether a node is the export slot, `module.exports`. -/
def isExportSlot (src : SourceText) (t : Tree) : Bool :=
  t.kind == .memberExpression &&
    match t.childAt? .object, t.childAt? .property with
    | some object, some property =>
      object.kind == .identifier && object.text src == "module" && property.text src == "exports"
    | _, _ => false

/-- Whether a node is the export slot under either of its names. -/
def isExportObject (src : SourceText) (t : Tree) : Bool :=
  isExportSlot src t || t.kind == .identifier && t.text src == "exports"

/-- A name published through the export slot. -/
def slotExport (exported bound : String) (part : SlotPart) : Finding :=
  .slotExported ⟨exported, bound, part⟩

/-- The findings at one property of an object that is assigned to the export slot. -/
def objectPropertyFindings (src : SourceText) (prop : Tree) : List Finding :=
  match prop.kind with
  | .shorthandPropertyIdentifier => [slotExport (prop.text src) (prop.text src) .property]
  | .pair =>
    match prop.childAt? .key, prop.childAt? .value with
    | some key, some value =>
      if value.kind == .identifier && key.kind != .computedPropertyName then
        [slotExport (stripQuotes (key.text src)) (value.text src) .property]
      else if value.kind.isFunctionExpression then [.flagged ⟨.inlineProperty, prop.line src⟩]
      else []
    | _, _ => []
  | .methodDefinition => [.flagged ⟨.inlineProperty, prop.line src⟩]
  | _ => []

/-- The findings at an assignment to the whole export slot. -/
def wholeSlotFindings (src : SourceText) (assignment value : Tree) : List Finding :=
  match value.kind with
  | .identifier => [slotExport (value.text src) (value.text src) .whole]
  | .object => value.namedChildren.flatMap (objectPropertyFindings src)
  | k =>
    if k.isFunctionExpression || k == .classExpression then
      [.flagged ⟨.inlineExport, assignment.line src⟩]
    else []

/-- The findings at an assignment to the property of the export slot named at the node `property`. -/
def propertySlotFindings (src : SourceText) (assignment property value : Tree) : List Finding :=
  match value.kind with
  | .identifier => [slotExport (property.text src) (value.text src) .property]
  | k => if k.isFunctionExpression then [.flagged ⟨.inlineExport, assignment.line src⟩] else []

/-- The findings at an assignment; none unless it is to the export slot or to a property of it. -/
def slotFindings (src : SourceText) (assignment : Tree) : List Finding :=
  match assignment.childAt? .left, assignment.childAt? .right with
  | some left, some right =>
    if left.kind != .memberExpression then []
    else if isExportSlot src left then wholeSlotFindings src assignment right
    else
      match left.childAt? .object, left.childAt? .property with
      | some object, some property =>
        if isExportObject src object then propertySlotFindings src assignment property right else []
      | _, _ => []
  | _, _ => []

end TestScaffold
