set_option autoImplicit false

/-!
# String literals

Text inside a scaffold stands in double quotes. Inside them a double quote and a backslash are written
with a backslash before them, and a line feed as a backslash and an `n`; every other character stands for
itself.

## Main definitions

* `TestScaffold.quoted` — the literal of a text.
* `TestScaffold.Literal.scan` — the text of a literal, read up to its closing quote.
* `TestScaffold.stripQuotes` — a literal without the quotes at its ends.

## Main results

* `TestScaffold.Literal.scan_escape_append` — a literal is read back whatever follows it.
-/

namespace TestScaffold

namespace Literal

/-- The form of one character inside double quotes. -/
def escapeChar : Char → List Char
  | '"' => ['\\', '"']
  | '\\' => ['\\', '\\']
  | '\n' => ['\\', 'n']
  | c => [c]

/-- The form of a text inside double quotes. -/
def escape (cs : List Char) : List Char := cs.flatMap escapeChar

/-- The character that a backslash and `c` stand for. -/
def unescapeChar (c : Char) : Char := if c = 'n' then '\n' else c

/-- Reads what follows an opening quote: the text up to the first quote that no backslash precedes, and
what comes after that quote. There is none if the text ends first or holds a line feed as such. -/
def scan : List Char → Option (List Char × List Char)
  | [] => none
  | '\\' :: [] => none
  | '\\' :: c :: rest => (scan rest).map fun (text, after) => (unescapeChar c :: text, after)
  | c :: rest =>
    if c = '"' then some ([], rest)
    else if c = '\n' then none
    else (scan rest).map fun (text, after) => (c :: text, after)

/-- One character is read back from its form inside double quotes. -/
theorem scan_escapeChar_append (c : Char) (t : List Char) :
    scan (escapeChar c ++ t) = (scan t).map fun (text, after) => (c :: text, after) := by
  unfold escapeChar
  split
  · rfl
  · rfl
  · rfl
  · next h₁ h₂ h₃ =>
    rw [List.singleton_append, scan.eq_def]
    split
    · contradiction
    · simp_all
    · simp_all
    · next _ _ heq =>
      obtain ⟨rfl, rfl⟩ := List.cons.inj heq
      rw [if_neg (fun h => h₁ h), if_neg (fun h => h₃ h)]

/-- A text is read back from its literal, and the reading stops behind the closing quote, whatever
follows. -/
theorem scan_escape_append (cs t : List Char) : scan (escape cs ++ '"' :: t) = some (cs, t) := by
  induction cs with
  | nil => rfl
  | cons c cs ih =>
    rw [escape, List.flatMap_cons, List.append_assoc, scan_escapeChar_append]
    change ((scan (escape cs ++ '"' :: t)).map _) = _
    rw [ih]
    rfl

/-- Whether a character delimits string literals. -/
def isQuote (c : Char) : Bool := c == '\'' || c == '"' || c == '\x60'

end Literal

/-- The double-quoted literal of a text. -/
def quoted (s : String) : String :=
  String.ofList ('"' :: (Literal.escape s.toList ++ ['"']))

/-- The text without the quotes, of any kind and number, at its two ends. -/
def stripQuotes (s : String) : String :=
  String.ofList ((s.toList.dropWhile Literal.isQuote).reverse.dropWhile Literal.isQuote).reverse

end TestScaffold
