set_option autoImplicit false

/-!
# Kinds and fields of syntax nodes

Every node of a syntax tree carries the name of its grammar rule, its *kind*, and may carry the name of
the role it plays in its parent, its *field*. The names that the reading of a module depends on are
constructors here; every other name is kept as text.

## Main definitions

* `TestScaffold.Kind`, `TestScaffold.Kind.ofText`, `TestScaffold.Kind.text` — kinds and their names.
* `TestScaffold.Kind.opensScope` — the kinds that open a function or class scope of their own.
* `TestScaffold.Field`, `TestScaffold.Field.ofText`, `TestScaffold.Field.text` — fields and their names.

## Main results

* `TestScaffold.Kind.text_ofText`, `TestScaffold.Field.text_ofText` — no name is lost by reading it.

## Implementation notes

An anonymous token such as the keyword `class` carries the same kind as the expression of that name, so a
kind alone does not say whether a node is named.
-/

namespace TestScaffold

/-- The kind of a syntax node. -/
inductive Kind where
  | importStatement | importClause | importSpecifier | namedImports | namespaceImport
  | exportStatement | exportClause | exportSpecifier | namespaceExport
  | classDeclaration | abstractClassDeclaration | classExpression
  | fieldDefinition | publicFieldDefinition | methodDefinition
  | functionDeclaration | generatorFunctionDeclaration
  | functionExpression | function | generatorFunction | arrowFunction
  | requiredParameter | optionalParameter | accessibilityModifier
  | variableDeclarator | lexicalDeclaration | variableDeclaration
  | callExpression | memberExpression | assignmentExpression
  | parenthesizedExpression | awaitExpression
  | statementBlock | returnStatement
  | identifier | this | object | pair | computedPropertyName | shorthandPropertyIdentifier
  | string | templateString | templateSubstitution
  | objectPattern | arrayPattern | pairPattern | restPattern
  | assignmentPattern | objectAssignmentPattern | shorthandPropertyIdentifierPattern
  | comment | decorator
  | typeKeyword | defaultKeyword | staticKeyword | getKeyword | setKeyword | readonlyKeyword
  | other (name : String)
deriving DecidableEq, Repr

namespace Kind

/-- The name of a kind in the grammar. -/
def text : Kind → String
  | importStatement => "import_statement"
  | importClause => "import_clause"
  | importSpecifier => "import_specifier"
  | namedImports => "named_imports"
  | namespaceImport => "namespace_import"
  | exportStatement => "export_statement"
  | exportClause => "export_clause"
  | exportSpecifier => "export_specifier"
  | namespaceExport => "namespace_export"
  | classDeclaration => "class_declaration"
  | abstractClassDeclaration => "abstract_class_declaration"
  | classExpression => "class"
  | fieldDefinition => "field_definition"
  | publicFieldDefinition => "public_field_definition"
  | methodDefinition => "method_definition"
  | functionDeclaration => "function_declaration"
  | generatorFunctionDeclaration => "generator_function_declaration"
  | functionExpression => "function_expression"
  | function => "function"
  | generatorFunction => "generator_function"
  | arrowFunction => "arrow_function"
  | requiredParameter => "required_parameter"
  | optionalParameter => "optional_parameter"
  | accessibilityModifier => "accessibility_modifier"
  | variableDeclarator => "variable_declarator"
  | lexicalDeclaration => "lexical_declaration"
  | variableDeclaration => "variable_declaration"
  | callExpression => "call_expression"
  | memberExpression => "member_expression"
  | assignmentExpression => "assignment_expression"
  | parenthesizedExpression => "parenthesized_expression"
  | awaitExpression => "await_expression"
  | statementBlock => "statement_block"
  | returnStatement => "return_statement"
  | identifier => "identifier"
  | this => "this"
  | object => "object"
  | pair => "pair"
  | computedPropertyName => "computed_property_name"
  | shorthandPropertyIdentifier => "shorthand_property_identifier"
  | string => "string"
  | templateString => "template_string"
  | templateSubstitution => "template_substitution"
  | objectPattern => "object_pattern"
  | arrayPattern => "array_pattern"
  | pairPattern => "pair_pattern"
  | restPattern => "rest_pattern"
  | assignmentPattern => "assignment_pattern"
  | objectAssignmentPattern => "object_assignment_pattern"
  | shorthandPropertyIdentifierPattern => "shorthand_property_identifier_pattern"
  | comment => "comment"
  | decorator => "decorator"
  | typeKeyword => "type"
  | defaultKeyword => "default"
  | staticKeyword => "static"
  | getKeyword => "get"
  | setKeyword => "set"
  | readonlyKeyword => "readonly"
  | other name => name

/-- The kinds with a constructor of their own. -/
def known : List Kind :=
  [importStatement, importClause, importSpecifier, namedImports, namespaceImport, exportStatement,
    exportClause, exportSpecifier, namespaceExport, classDeclaration, abstractClassDeclaration,
    classExpression, fieldDefinition, publicFieldDefinition, methodDefinition, functionDeclaration,
    generatorFunctionDeclaration, functionExpression, function, generatorFunction, arrowFunction,
    requiredParameter, optionalParameter, accessibilityModifier, variableDeclarator,
    lexicalDeclaration, variableDeclaration, callExpression, memberExpression,
    assignmentExpression, parenthesizedExpression, awaitExpression, statementBlock,
    returnStatement, identifier, this, object, pair, computedPropertyName,
    shorthandPropertyIdentifier, string, templateString, templateSubstitution, objectPattern,
    arrayPattern, pairPattern, restPattern, assignmentPattern, objectAssignmentPattern,
    shorthandPropertyIdentifierPattern, comment, decorator, typeKeyword, defaultKeyword,
    staticKeyword, getKeyword, setKeyword, readonlyKeyword]

/-- The kind of a given name. -/
def ofText (name : String) : Kind :=
  (known.find? (·.text == name)).getD (other name)

/-- Reading a kind keeps its name. -/
@[simp] theorem text_ofText (name : String) : (ofText name).text = name := by
  unfold ofText
  cases h : known.find? (·.text == name) with
  | none => rfl
  | some k => simpa using List.find?_some h

/-- The kinds of functions, methods and classes: what stands below such a node belongs to a scope of its
own. -/
def opensScope : Kind → Bool
  | functionDeclaration | generatorFunctionDeclaration | functionExpression | function
  | generatorFunction | arrowFunction | methodDefinition | classExpression | classDeclaration
  | abstractClassDeclaration => true
  | _ => false

/-- The kinds of function expressions, arrow functions included. -/
def isFunctionExpression : Kind → Bool
  | functionExpression | function | generatorFunction | arrowFunction => true
  | _ => false

/-- A function expression opens a scope. -/
theorem opensScope_of_isFunctionExpression {k : Kind} (h : k.isFunctionExpression = true) :
    k.opensScope = true := by
  cases k <;> first | rfl | cases h

end Kind

/-- The role a syntax node plays in its parent. -/
inductive Field where
  | name | newName | source | declaration | value
  | function | arguments | object | property | left | right | key
  | parameter | parameters | pattern | body
  | other (word : String)
deriving DecidableEq, Repr

namespace Field

/-- The name of a field in the grammar. -/
def text : Field → String
  | name => "name"
  | newName => "alias"
  | source => "source"
  | declaration => "declaration"
  | value => "value"
  | function => "function"
  | arguments => "arguments"
  | object => "object"
  | property => "property"
  | left => "left"
  | right => "right"
  | key => "key"
  | parameter => "parameter"
  | parameters => "parameters"
  | pattern => "pattern"
  | body => "body"
  | other word => word

/-- The fields with a constructor of their own. -/
def known : List Field :=
  [name, newName, source, declaration, value, function, arguments, object, property, left, right,
    key, parameter, parameters, pattern, body]

/-- The field of a given name. -/
def ofText (word : String) : Field :=
  (known.find? (·.text == word)).getD (other word)

/-- Reading a field keeps its name. -/
@[simp] theorem text_ofText (word : String) : (ofText word).text = word := by
  unfold ofText
  cases h : known.find? (·.text == word) with
  | none => rfl
  | some f => simpa using List.find?_some h

end Field

end TestScaffold
