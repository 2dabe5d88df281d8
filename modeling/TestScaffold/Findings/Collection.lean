import TestScaffold.Findings.Callables
import TestScaffold.Findings.Classes
import TestScaffold.Findings.Dependencies
import TestScaffold.Findings.Publications

set_option autoImplicit false

/-!
# Collecting findings

All findings of a module: what is found at each named node, in document order.

## Main definitions

* `TestScaffold.Locus.findings` — what is found at one place.
* `TestScaffold.Findings.ofTree` — all findings of a tree.

## Implementation notes

A token such as the keyword `class` has the kind of the class it opens; only named nodes are looked at.
-/

namespace TestScaffold

/-- What is found at one place of a tree, apart from what is found below it. -/
def Locus.findings (src : SourceText) (p : Locus) : List Finding :=
  if !p.node.isNamed then []
  else
    match p.node.kind with
    | .importStatement => ((import? src p.node).map .imported).toList
    | .exportStatement => exportFindings src p.node
    | .classDeclaration | .abstractClassDeclaration | .classExpression => classFindings src p
    | .functionDeclaration | .generatorFunctionDeclaration => declarationFindings src p.node
    | .functionExpression | .function | .generatorFunction | .arrowFunction =>
      functionExpressionFindings src p
    | .callExpression => requireFindings src p
    | .assignmentExpression => slotFindings src p.node
    | _ => []

/-- All findings of a tree, in document order. -/
def Findings.ofTree (src : SourceText) (specifier : String) (root : Tree) : Findings :=
  Findings.ofList specifier ((root.loci []).flatMap (Locus.findings src))

end TestScaffold
