import TestScaffold.Scaffold.Framework

set_option autoImplicit false

/-!
# The probe framework

A framework that writes down what it is asked. It shows what a scaffold asks of its framework, apart from
how any one framework answers.

## Main definitions

* `TestScaffold.probe` — the framework.
-/

namespace TestScaffold

namespace Probe

/-- Names joined by commas between square brackets. -/
def bracketed (names : List String) : String := "[" ++ ",".intercalate names ++ "]"

/-- A line of words that ends in a semicolon. -/
def sentence (words : List String) : Statement := .line (" ".intercalate words ++ ";")

/-- A block opened by a word and a description. -/
def wrapper (word description : String) (body : List Statement) : Statement :=
  .block (word ++ " " ++ description ++ " \x7b") body "\x7d"

end Probe

/-- The framework that writes down what it is asked. -/
def probe : Framework where
  preamble := [Probe.sentence ["probe", "imports"]]
  beforeEach instances :=
    instances.map fun i => Probe.sentence ["setup", i.name, i.binding, Probe.bracketed i.parameters]
  afterEach usages imports :=
    [Probe.sentence
      ["teardown", Probe.bracketed (usages.map (·.name)), toString imports.length]]
  substitute d usages :=
    [Probe.sentence
      ["mock", d.modulePath, Probe.bracketed d.localNames, toString usages.length]]
  observe sites requires imports receiver :=
    [Probe.sentence
      ["spy", Probe.bracketed (sites.map (·.text)), toString requires.length,
        toString imports.length, receiver.getD "-"]]
  epilogue := [.blank, Probe.sentence ["post"]]
  test := Probe.wrapper "it"
  suite := Probe.wrapper "suite"

end TestScaffold
