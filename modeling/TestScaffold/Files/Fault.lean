set_option autoImplicit false

/-!
# Faults of file operations

Why an operation on files fails, with the words of the operating system for it.

## Main definitions

* `TestScaffold.FileFault`, `TestScaffold.FileFault.text` — the causes and their texts.
-/

namespace TestScaffold

/-- Why an operation on files fails. -/
inductive FileFault where
  /-- A file or directory on the way, or the one meant, does not exist. -/
  | notFound
  /-- What is to be made exists already. -/
  | alreadyExists
  /-- What is used as a directory is a file. -/
  | notDirectory
  /-- What is used as a file is a directory. -/
  | isDirectory
  /-- A name is longer than the file system admits. -/
  | nameTooLong
  /-- The content of a file is no text. -/
  | invalidText
  /-- Any other cause, in words. -/
  | other (message : String)
deriving DecidableEq, Repr

namespace FileFault

/-- The text and number that the operating system has for a cause. -/
def osText (message : String) (code : Nat) : String :=
  message ++ " (os error " ++ toString code ++ ")"

/-- The text of a cause. -/
def text : FileFault → String
  | notFound => osText "No such file or directory" 2
  | alreadyExists => osText "File exists" 17
  | notDirectory => osText "Not a directory" 20
  | isDirectory => osText "Is a directory" 21
  | nameTooLong => osText "File name too long" 36
  | invalidText => "stream did not contain valid UTF-8"
  | other message => message

end FileFault

end TestScaffold
