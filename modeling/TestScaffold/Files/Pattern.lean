set_option autoImplicit false

/-!
# File patterns

A file pattern is a path whose parts may hold wildcards: `?` stands for one character, `*` for any number
of them, and a bracket for one of a set of characters. The part `**` stands for any number of directories.

## Main definitions

* `TestScaffold.Wildcard`, `TestScaffold.Wildcard.scan` — the tokens of a pattern and their reading.
* `TestScaffold.Wildcard.matchesAll` — whether a name matches a list of tokens.
* `TestScaffold.PatternPart`, `TestScaffold.FilePattern` — patterns part by part.
* `TestScaffold.FilePattern.parse` — the reading of a pattern.

## Implementation notes

A pattern is read as a whole first, and then part by part. A bracket that holds a slash is well formed as
part of the whole and found broken when the parts are read.
-/

namespace TestScaffold

/-! ## Tokens -/

/-- One token of a pattern. -/
inductive Wildcard where
  /-- The character itself. -/
  | literal (c : Char)
  /-- Any one character. -/
  | anyChar
  /-- Any characters. -/
  | anySequence
  /-- Any directories. -/
  | anyDirectories
  /-- One character from one of the ranges, or from none of them if the set is negated. -/
  | oneOf (negated : Bool) (ranges : List (Char × Char))
deriving DecidableEq, Repr

/-- Why a pattern is not well formed. -/
inductive PatternFlaw where
  /-- More than two stars in a row. -/
  | tooManyStars
  /-- Two stars that are not a whole part. -/
  | partialRecursion
  /-- A bracket that is not closed or holds nothing. -/
  | brokenBracket
deriving DecidableEq, Repr

/-- The description of a flaw. -/
def PatternFlaw.text : PatternFlaw → String
  | tooManyStars => "wildcards are either regular \x60*\x60 or recursive \x60**\x60"
  | partialRecursion => "recursive wildcards must form a single path component"
  | brokenBracket => "invalid range pattern"

/-- A flaw at a position, counted in characters from zero. -/
structure PatternError where
  /-- The position. -/
  position : Nat
  /-- The flaw. -/
  flaw : PatternFlaw
deriving DecidableEq, Repr

/-- The text of an error. -/
def PatternError.text (e : PatternError) : String :=
  "Pattern syntax error near position " ++ toString e.position ++ ": " ++ e.flaw.text

namespace Wildcard

/-- The ranges of a bracket. A hyphen between two characters makes them the ends of a range. -/
def ranges : List Char → List (Char × Char)
  | a :: '-' :: b :: rest => (a, b) :: ranges rest
  | a :: rest => (a, a) :: ranges rest
  | [] => []

/-- Reads what follows an opening bracket: whether it is negated, what it holds, and what comes after it.
The first character inside never closes the bracket. -/
def bracket? (cs : List Char) : Option (Bool × List Char × List Char) :=
  let negated := cs.head? == some '!'
  match if negated then cs.drop 1 else cs with
  | [] => none
  | c :: rest =>
    if rest.contains ']' then
      some (negated, c :: rest.takeWhile (· != ']'), (rest.dropWhile (· != ']')).drop 1)
    else none

/-- What comes after a bracket is shorter than what comes after its opening. -/
theorem length_of_bracket? {cs inside after : List Char} {negated : Bool}
    (h : bracket? cs = some (negated, inside, after)) : after.length < cs.length := by
  unfold bracket? at h
  simp only at h
  split at h
  · cases h
  · next c rest hcs =>
    split at h
    · have hle : (c :: rest).length ≤ cs.length := by
        rw [← hcs]
        split
        · exact (List.drop_sublist 1 cs).length_le
        · exact Nat.le_refl _
      have hafter : after = (rest.dropWhile (· != ']')).drop 1 := by
        simp only [Option.some.injEq, Prod.mk.injEq] at h
        exact h.2.2.symm
      have hsub : after.length ≤ rest.length := by
        rw [hafter]
        exact ((List.drop_sublist 1 _).trans (List.dropWhile_sublist _)).length_le
      simp only [List.length_cons] at hle
      omega
    · cases h

/-- Whether a character is the first of a part, given the one before it. -/
def beginsPart (previous : Option Char) : Bool := previous == none || previous == some '/'

/-- Reads the tokens of a pattern from a position on, given the character before it. -/
def scan (previous : Option Char) (position : Nat) (cs : List Char) :
    Except PatternError (List Wildcard) :=
  match cs with
  | [] => .ok []
  | '?' :: rest => (scan (some '?') (position + 1) rest).map (anyChar :: ·)
  | '*' :: '*' :: '*' :: _ => .error ⟨position + 2, .tooManyStars⟩
  | '*' :: '*' :: rest =>
    if beginsPart previous then
      match rest with
      | [] => .ok [anyDirectories]
      | '/' :: rest => (scan (some '/') (position + 3) rest).map (anyDirectories :: ·)
      | _ => .error ⟨position + 2, .partialRecursion⟩
    else .error ⟨position - 1, .partialRecursion⟩
  | '*' :: rest => (scan (some '*') (position + 1) rest).map (anySequence :: ·)
  | '[' :: rest =>
    match h : bracket? rest with
    | some (negated, inside, after) =>
      have : after.length < rest.length := length_of_bracket? h
      (scan (some ']') (position + 1 + (rest.length - after.length)) after).map
        (oneOf negated (ranges inside) :: ·)
    | none => .error ⟨position, .brokenBracket⟩
  | c :: rest => (scan (some c) (position + 1) rest).map (literal c :: ·)
termination_by cs.length

/-! ## Matching -/

/-- Whether a character matches a token that stands for one character. -/
def matchesChar (c : Char) : Wildcard → Bool
  | literal d => c == d
  | anyChar => true
  | oneOf negated ranges => (ranges.any fun (a, b) => a ≤ c && c ≤ b) != negated
  | anySequence | anyDirectories => false

/-- Whether some end of a text, the whole text included, satisfies `p`. -/
def someTail (p : List Char → Bool) : List Char → Bool
  | [] => p []
  | c :: cs => p (c :: cs) || someTail p cs

/-- Whether a name matches a list of tokens. -/
def matchesAll : List Wildcard → List Char → Bool
  | [], cs => cs.isEmpty
  | anySequence :: ts, cs => someTail (matchesAll ts) cs
  | t :: ts, c :: cs => matchesChar c t && matchesAll ts cs
  | _ :: _, [] => false

/-- The character that a token stands for, if it is a literal one. -/
def literal? : Wildcard → Option Char
  | literal c => some c
  | _ => none

end Wildcard

/-! ## Parts -/

/-- One part of a pattern. -/
inductive PatternPart where
  /-- A name without wildcards. -/
  | name (s : String)
  /-- A name with wildcards. -/
  | wild (tokens : List Wildcard)
  /-- Any directories. -/
  | directories
deriving DecidableEq, Repr

namespace PatternPart

/-- The part made of a list of tokens. -/
def ofTokens (tokens : List Wildcard) : PatternPart :=
  if tokens.contains .anyDirectories then directories
  else
    match tokens.mapM Wildcard.literal? with
    | some cs => name (String.ofList cs)
    | none => wild tokens

/-- Whether a name matches the part. -/
def admits (part : PatternPart) (s : String) : Bool :=
  match part with
  | name n => n == s
  | wild tokens => Wildcard.matchesAll tokens s.toList
  | directories => false

end PatternPart

/-- A file pattern. -/
structure FilePattern where
  /-- Whether the pattern begins at the root directory. -/
  rooted : Bool
  /-- The parts in order. -/
  parts : List PatternPart
  /-- Whether only directories are meant. -/
  directoryOnly : Bool
deriving DecidableEq, Repr

namespace FilePattern

/-- The pieces of a text between its slashes. A slash at the end begins no piece; the empty text is one
piece. -/
def pieces (cs : List Char) : List (List Char) :=
  if cs.isEmpty then [[]]
  else if cs.getLast? == some '/' then (cs.splitOn '/').dropLast
  else cs.splitOn '/'

/-- Leaves one of several successive parts that stand for any directories. -/
def collapse : List PatternPart → List PatternPart
  | .directories :: .directories :: rest => collapse (.directories :: rest)
  | part :: rest => part :: collapse rest
  | [] => []

/-- Reads a pattern. -/
def parse (text : String) : Except PatternError FilePattern := do
  let cs := text.toList
  let _ ← Wildcard.scan none 0 cs
  let rooted := cs.head? == some '/'
  let parts ← (pieces (if rooted then cs.drop 1 else cs)).mapM (Wildcard.scan none 0)
  return ⟨rooted, collapse (parts.map PatternPart.ofTokens), cs.getLast? == some '/'⟩

end FilePattern

end TestScaffold
