import TestScaffold.Files.Fault

set_option autoImplicit false

/-!
# Errors

Why no scaffold is written for a module, or none at all.

## Main definitions

* `TestScaffold.ScaffoldError`, `TestScaffold.ScaffoldError.message` — the causes and their texts.
-/

namespace TestScaffold

/-- Why no scaffold is written. -/
inductive ScaffoldError where
  /-- An operation on the file or directory at `path` fails. -/
  | file (path : String) (fault : FileFault)
  /-- No grammar is known for files with this extension. -/
  | unknownExtension (extension : String)
  /-- The text of a module does not follow its grammar, first at this place. -/
  | faultySyntax (filename : String) (line column : Nat)
  /-- The parser does not admit a grammar. -/
  | refusedGrammar (message : String)
  /-- A file pattern is not well formed. -/
  | invalidPattern (pattern message : String)
  /-- No file matches the patterns. -/
  | nothingMatched (tried : String)
  /-- Cutting the extension off a file name would cut through a character. -/
  | splitCharacter (filename : String)
deriving DecidableEq, Repr

/-- The text of an error. -/
def ScaffoldError.message : ScaffoldError → String
  | file path fault => path ++ ": " ++ fault.text
  | unknownExtension extension => "unsupported extension: ." ++ extension
  | faultySyntax filename line column =>
    filename ++ ":" ++ toString line ++ ":" ++ toString column ++ ": parse failed"
  | refusedGrammar message => "parser language: " ++ message
  | invalidPattern pattern message => "invalid pattern " ++ pattern ++ ": " ++ message
  | nothingMatched tried => "No matching files. Tried: " ++ tried
  | splitCharacter filename => filename ++ ": extension ends inside a character"

end TestScaffold
