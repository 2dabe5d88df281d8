import Mathlib.Data.List.Forall2
import TestScaffold.Scaffold.Framework
import TestScaffold.Proofs.StringValue

set_option autoImplicit false

/-!
# Tokens of import statements

An `import` statement is made of words, string literals and punctuation. A text is cut into them from left
to right: a word goes on as long as it can, a literal up to the quote that closes it, and blanks between
tokens are skipped.

## Main definitions

* `TestScaffold.Token`, `TestScaffold.tokens?` — tokens, and those of a text.
* `TestScaffold.LexState`, `TestScaffold.LexState.step` — the cutting of a text, one character after the
  other.
* `TestScaffold.IsWord` — texts that are one word.
* `TestScaffold.Spells` — texts that give certain tokens wherever they stand before a blank, a comma or a
  semicolon.

## Main results

* `TestScaffold.spells_word`, `TestScaffold.spells_string` — a word and a literal spell one token each.
* `TestScaffold.Spells.commaSeparated` — spelling is kept by writing commas.
* `TestScaffold.tokens?_quoted_semicolon` — the tokens of a literal at the end of a statement.

## Implementation notes

The characters of a word are those that the grammar takes for identifiers: letters, digits, the dollar sign
and the underscore, and outside of ASCII everything but blanks. Escapes in a word are checked for their
form; a word is kept as it is spelled.
-/

namespace TestScaffold

/-- A token of an `import` statement. -/
inductive Token where
  /-- A name or a keyword. -/
  | word (text : String)
  /-- A string literal as spelled, with its value. -/
  | string (raw : String) (value : List Nat)
  /-- A punctuation character. -/
  | mark (c : Char)
deriving DecidableEq, Repr

/-! ## Cutting a text -/

/-- The blanks, line ends included. -/
def blanks : List Char :=
  ['\t', '\n', '\x0b', '\x0c', '\r', ' ', '\u00a0', '\u1680', '\u2000', '\u2001', '\u2002', '\u2003',
    '\u2004', '\u2005', '\u2006', '\u2007', '\u2008', '\u2009', '\u200a', '\u2028', '\u2029', '\u202f',
    '\u205f', '\u3000', '\ufeff']

/-- The punctuation of `import` statements. -/
def marks : List Char := ['\x7b', '\x7d', '*', ',', ';']

/-- Whether a character may stand in a word. -/
def isNameChar (c : Char) : Bool :=
  if c.toNat < 0x7F then c.isAlphanum || c == '$' || c == '_'
  else !(blanks.contains c || c == '\u200b' || c == '\u2060')

/-- How far the cutting of a text is. -/
inductive LexState where
  /-- Between two tokens. -/
  | between
  /-- In a word, behind `text`. -/
  | word (text : List Char)
  /-- In a word, behind a backslash. -/
  | slash (text : List Char)
  /-- In a word, behind a backslash and a `u`. -/
  | unicode (text : List Char)
  /-- In a word, before a hexadecimal digit and `left` more. -/
  | digits (left : Nat) (text : List Char)
  /-- In a word, between braces, behind digits if there are any. -/
  | braces (any : Bool) (text : List Char)
  /-- In a literal with the closing quote `q`, behind `raw`, which denotes `value`. -/
  | string (q : Char) (st : Literal.ReadState) (raw : List Char) (value : List Nat)
deriving DecidableEq, Repr

namespace LexState

/-- Reads the first character of a token, or a blank. -/
def start (c : Char) : Option (List Token × LexState) :=
  if blanks.contains c then some ([], between)
  else if marks.contains c then some ([.mark c], between)
  else if c = '"' ∨ c = '\'' then some ([], string c .plain [c] [])
  else if c = '\\' then some ([], slash [c])
  else if isNameChar c && !c.isDigit then some ([], word [c])
  else none

/-- Reads one character: the tokens that are complete with it and the state behind it. -/
def step : LexState → Char → Option (List Token × LexState)
  | between, c => start c
  | word text, c =>
    if isNameChar c then some ([], word (text ++ [c]))
    else if c = '\\' then some ([], slash (text ++ [c]))
    else (start c).map fun (ts, next) => (.word (String.ofList text) :: ts, next)
  | slash text, c => if c = 'u' then some ([], unicode (text ++ [c])) else none
  | unicode text, c =>
    if c = '\x7b' then some ([], braces false (text ++ [c]))
    else if (Literal.hexDigit? c).isSome then some ([], digits 2 (text ++ [c]))
    else none
  | digits 0 text, c =>
    if (Literal.hexDigit? c).isSome then some ([], word (text ++ [c])) else none
  | digits (left + 1) text, c =>
    if (Literal.hexDigit? c).isSome then some ([], digits left (text ++ [c])) else none
  | braces any text, c =>
    if c = '\x7d' then
      if any then some ([], word (text ++ [c])) else none
    else if (Literal.hexDigit? c).isSome then some ([], braces true (text ++ [c]))
    else none
  | string q st raw value, c =>
    if st.closable && c == q then some ([.string (String.ofList (raw ++ [c])) value], between)
    else (st.step c).map fun (next, units) => ([], string q next (raw ++ [c]) (value ++ units))

/-- The token that the end of the text completes, if it may end there. -/
def finish : LexState → Option (List Token)
  | between => some []
  | word text => some [.word (String.ofList text)]
  | _ => none

/-- Reads a text from a state on: the tokens that are complete and the state at the end. -/
def run : LexState → List Char → Option (List Token × LexState)
  | st, [] => some ([], st)
  | st, c :: cs =>
    match st.step c with
    | none => none
    | some (ts, next) => (run next cs).map fun (us, last) => (ts ++ us, last)

end LexState

/-- The tokens of a text. -/
def tokens? (cs : List Char) : Option (List Token) :=
  match LexState.between.run cs with
  | none => none
  | some (ts, last) => last.finish.map (ts ++ ·)

/-- Whether a text is one word. -/
def IsWord (name : String) : Prop :=
  LexState.between.run name.toList = some ([], .word name.toList)

instance (name : String) : Decidable (IsWord name) :=
  inferInstanceAs (Decidable (LexState.between.run name.toList = some ([], .word name.toList)))

/-- A text is read in two parts as in one. -/
theorem LexState.run_append (st : LexState) (cs ds : List Char) :
    st.run (cs ++ ds) =
      (st.run cs).bind fun (ts, mid) => (mid.run ds).map fun (us, last) => (ts ++ us, last) := by
  induction cs generalizing st with
  | nil =>
    rw [List.nil_append]
    cases hrest : st.run ds <;> simp [run, hrest]
  | cons c cs ih =>
    rw [List.cons_append, run, run]
    cases hstep : st.step c with
    | none => rfl
    | some out =>
      obtain ⟨ts, next⟩ := out
      simp only [ih]
      cases next.run cs with
      | none => rfl
      | some out =>
        obtain ⟨us, mid⟩ := out
        cases hrest : mid.run ds <;> simp [hrest]

/-- The tokens of a text whose beginning is complete with its tokens. -/
theorem tokens?_append {cs : List Char} {ts : List Token}
    (h : LexState.between.run cs = some (ts, .between)) (ds : List Char) :
    tokens? (cs ++ ds) = (tokens? ds).map (ts ++ ·) := by
  rw [tokens?, tokens?, LexState.run_append, h]
  cases hrest : LexState.between.run ds with
  | none => simp [hrest]
  | some out =>
    obtain ⟨us, last⟩ := out
    cases hlast : last.finish <;> simp [hrest, hlast]

/-! ## Spelling -/

/-- The characters that end a word. -/
def delimiters : List Char := [' ', ',', ';']

/-- A text spells tokens if it gives them wherever it stands before a delimiter. -/
def Spells (s : String) (ts : List Token) : Prop :=
  ∀ c ∈ delimiters, ∀ rest, tokens? (s.toList ++ c :: rest) = (tokens? (c :: rest)).map (ts ++ ·)

/-- A text that ends between two tokens spells its tokens. -/
theorem Spells.of_run {s : String} {ts : List Token}
    (h : LexState.between.run s.toList = some (ts, .between)) : Spells s ts :=
  fun c _ rest => tokens?_append h (c :: rest)

theorem tokens?_space (rest : List Char) : tokens? (' ' :: rest) = tokens? rest := by
  rw [← List.singleton_append, tokens?_append rfl]
  exact Option.map_id'

theorem tokens?_comma (rest : List Char) :
    tokens? (',' :: rest) = (tokens? rest).map (.mark ',' :: ·) := by
  rw [← List.singleton_append, tokens?_append rfl]
  rfl

/-- Two texts with a blank between them spell the tokens of both. -/
theorem Spells.append {s t : String} {ts us : List Token} (hs : Spells s ts) (ht : Spells t us) :
    Spells (s ++ " " ++ t) (ts ++ us) := by
  intro c hc rest
  have hlist : (s ++ " " ++ t).toList ++ c :: rest = s.toList ++ ' ' :: (t.toList ++ c :: rest) := by
    simp
  rw [hlist, hs ' ' (by decide), tokens?_space, ht c hc, Option.map_map]
  simp only [Function.comp_def, List.append_assoc]

/-- Two texts with a comma between them spell the tokens of both and the comma. -/
theorem Spells.append_comma {s t : String} {ts us : List Token} (hs : Spells s ts) (ht : Spells t us) :
    Spells (s ++ ", " ++ t) (ts ++ [.mark ','] ++ us) := by
  intro c hc rest
  have hlist : (s ++ ", " ++ t).toList ++ c :: rest =
      s.toList ++ ',' :: ' ' :: (t.toList ++ c :: rest) := by
    simp
  rw [hlist, hs ',' (by decide), tokens?_comma, tokens?_space, ht c hc, Option.map_map, Option.map_map]
  simp only [Function.comp_def, List.append_assoc, List.cons_append, List.nil_append]

/-- Texts separated by commas spell their tokens with commas between them. -/
theorem Spells.commaSeparated {ss : List String} {tss : List (List Token)}
    (h : List.Forall₂ Spells ss tss) :
    Spells (commaSeparated ss) ([Token.mark ','].intercalate tss) := by
  induction h with
  | nil => exact .of_run rfl
  | @cons s ts ss tss hs htail ih =>
    cases htail with
    | nil =>
      rw [TestScaffold.commaSeparated, String.intercalate_singleton, List.intercalate_singleton]
      exact hs
    | @cons t us ss tss ht htail =>
      have hline : TestScaffold.commaSeparated (s :: t :: ss) =
          s ++ ", " ++ TestScaffold.commaSeparated (t :: ss) :=
        String.intercalate_cons_cons
      rw [hline, List.intercalate_cons_cons]
      exact hs.append_comma ih

/-- A delimiter ends a word. -/
theorem LexState.step_word {text : List Char} {c : Char} (hc : c ∈ delimiters) :
    (LexState.word text).step c =
      (LexState.start c).map fun (ts, next) => (.word (String.ofList text) :: ts, next) := by
  simp only [delimiters, List.mem_cons, List.not_mem_nil, or_false] at hc
  rcases hc with rfl | rfl | rfl <;> rfl

/-- Before a delimiter, a word only adds its token. -/
theorem LexState.run_word {text cs : List Char} {c : Char} (hc : c ∈ delimiters) :
    (LexState.word text).run (c :: cs) =
      (LexState.between.run (c :: cs)).map fun (ts, last) => (.word (String.ofList text) :: ts, last) := by
  have hbetween : LexState.between.step c = LexState.start c := rfl
  rw [run, run, step_word hc, hbetween]
  cases start c with
  | none => rfl
  | some out =>
    obtain ⟨ts, next⟩ := out
    simp only [Option.map_some, Option.map_map, Function.comp_def, List.cons_append]

/-- A word spells itself. -/
theorem spells_word {name : String} (h : IsWord name) : Spells name [.word name] := by
  intro c hc rest
  have hword : LexState.between.run name.toList = some ([], .word name.toList) := h
  simp only [tokens?, LexState.run_append, hword, Option.bind_some, LexState.run_word hc,
    String.ofList_toList]
  cases LexState.between.run (c :: rest) with
  | none => rfl
  | some out =>
    obtain ⟨ts, last⟩ := out
    cases hlast : last.finish <;> simp [hlast]

/-- The reading of a literal to its closing quote gives its token. -/
theorem LexState.run_string {q : Char} {st : Literal.ReadState} {cs raw : List Char} {value v : List Nat}
    (h : Literal.readFrom q st cs = some (v, [])) :
    (LexState.string q st raw value).run cs =
      some ([.string (String.ofList (raw ++ cs)) (value ++ v)], .between) := by
  induction cs generalizing st raw value v with
  | nil => cases h
  | cons c cs ih =>
    rcases Literal.readFrom_cons_eq_some.1 h with
      ⟨⟨hclosable, rfl⟩, rfl, rfl⟩ | ⟨hopen, next, units, v', hstep, hread, rfl⟩
    · simp [run, step, hclosable]
    · have htest : (st.closable && c == q) = false := by simpa using hopen
      simp [run, step, htest, hstep, ih hread]

/-- A text that does not close a literal ends inside of it. -/
theorem LexState.finish_of_run_string {q : Char} {st : Literal.ReadState} {cs raw : List Char}
    {value : List Nat} {ts : List Token} {last : LexState} (h : Literal.readFrom q st cs = none)
    (hrun : (LexState.string q st raw value).run cs = some (ts, last)) : last.finish = none := by
  induction cs generalizing st raw value ts with
  | nil =>
    cases hrun
    rfl
  | cons c cs ih =>
    by_cases hclose : st.closable = true ∧ c = q
    · rw [Literal.readFrom_cons_eq_some.2 (.inl ⟨hclose, rfl, rfl⟩)] at h
      cases h
    · have htest : (st.closable && c == q) = false := by simpa using hclose
      cases hstep : st.step c with
      | none => simp [run, step, htest, hstep] at hrun
      | some out =>
        obtain ⟨next, units⟩ := out
        rw [Literal.readFrom_cons_of_step hclose hstep, Option.map_eq_none_iff] at h
        simp only [run, step, htest, hstep, Bool.false_eq_true, if_false, Option.map_some] at hrun
        obtain ⟨⟨us, last'⟩, hrest, heq⟩ := Option.map_eq_some_iff.1 hrun
        cases heq
        exact ih h hrest

/-- The first quote of a literal opens it. -/
theorem LexState.run_quote {q : Char} (hq : q = '"' ∨ q = '\'') (cs : List Char) :
    LexState.between.run (q :: cs) = (LexState.string q .plain [q] []).run cs := by
  have hstep : LexState.between.step q = some ([], .string q .plain [q] []) := by
    rcases hq with rfl | rfl <;> rfl
  rw [run, hstep]
  exact Option.map_id'

/-- A literal is read to its end. -/
theorem LexState.run_of_value? {raw : String} {v : List Nat} (h : Literal.value? raw = some v) :
    LexState.between.run raw.toList = some ([.string raw v], .between) := by
  obtain ⟨q, body, hraw, hq, hread⟩ := Literal.exists_body_of_value? h
  rw [hraw, LexState.run_quote hq, LexState.run_string hread, List.singleton_append, ← hraw,
    String.ofList_toList, List.nil_append]

/-- A literal spells itself with its value. -/
theorem spells_string {raw : String} {v : List Nat} (h : Literal.value? raw = some v) :
    Spells raw [.string raw v] :=
  .of_run (LexState.run_of_value? h)

/-- **A literal at the end of a statement** gives its token if it denotes anything, and none if not. -/
theorem tokens?_quoted_semicolon (m : String) :
    tokens? ((quoted m).toList ++ [';']) =
      (Literal.value? (quoted m)).map fun v => [.string (quoted m) v, .mark ';'] := by
  cases hvalue : Literal.value? (quoted m) with
  | some v => exact tokens?_append (LexState.run_of_value? hvalue) [';']
  | none =>
    have hcr : '\r' ∈ m.toList := by
      by_contra hno
      rw [Literal.value?_quoted, if_neg hno] at hvalue
      cases hvalue
    have hlist : (quoted m).toList ++ [';'] = '"' :: (Literal.escape m.toList ++ ['"', ';']) := by
      rw [quoted, String.toList_ofList, List.cons_append, List.append_assoc]
      rfl
    rw [hlist, tokens?, LexState.run_quote (.inl rfl)]
    -- The reading stops at the carriage return, inside the literal.
    have hread : Literal.readFrom '"' .plain (Literal.escape m.toList ++ ['"', ';']) = none := by
      rw [Literal.readFrom_escape_append, if_pos hcr]
    split
    · rfl
    · next ts last hrun =>
      rw [LexState.finish_of_run_string hread hrun]
      rfl

end TestScaffold
