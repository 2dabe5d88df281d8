import Mathlib.Data.List.DropRight
import TestScaffold.Text.Literal

set_option autoImplicit false

/-!
# Values of string literals

A string literal of a module denotes a sequence of UTF-16 code units: a character gives its own, an escape
those that it stands for. The path of an import is kept as the text between the quotes of its literal and
is written in double quotes again; this module has the literals whose value that keeps.

## Main definitions

* `TestScaffold.utf16` — the code units of a text.
* `TestScaffold.Literal.ReadState`, `TestScaffold.Literal.readFrom` — the reading of a literal, one character
  after the other.
* `TestScaffold.Literal.value?` — the value of a literal.
* `TestScaffold.Literal.IsPlain` — literals without escapes and without further quotes at their ends.

## Main results

* `TestScaffold.Literal.value?_quoted` — the value of a text in double quotes.
* `TestScaffold.Literal.value?_quoted_stripQuotes` — the literals whose value is kept.

## Implementation notes

Literals are those of module code: no escape has octal digits, and a line ends inside a literal only behind
a backslash. An escape is read in several steps, so the reading has a state, and it is the state that the
inductions below are about.
-/

namespace TestScaffold

/-- The UTF-16 code units of a code point. -/
def codeUnits (n : Nat) : List Nat :=
  if n < 0x10000 then [n] else [0xD800 + (n - 0x10000) / 0x400, 0xDC00 + (n - 0x10000) % 0x400]

/-- The UTF-16 code units of a text. -/
def utf16 (cs : List Char) : List Nat := cs.flatMap fun c => codeUnits c.toNat

theorem length_codeUnits_pos (n : Nat) : 0 < (codeUnits n).length := by
  unfold codeUnits
  split <;> simp

theorem length_codeUnits_le (n : Nat) : (codeUnits n).length ≤ 2 := by
  unfold codeUnits
  split <;> simp

@[simp] theorem utf16_nil : utf16 [] = [] := rfl

@[simp] theorem utf16_cons (c : Char) (cs : List Char) :
    utf16 (c :: cs) = codeUnits c.toNat ++ utf16 cs := rfl

@[simp] theorem utf16_append (cs ds : List Char) : utf16 (cs ++ ds) = utf16 cs ++ utf16 ds :=
  List.flatMap_append

namespace Literal

/-! ## Reading -/

/-- How far the reading of a literal is. -/
inductive ReadState where
  /-- Outside of escapes. -/
  | plain
  /-- Behind a backslash. -/
  | escape
  /-- Behind the escape of the character zero, which no digit may follow. -/
  | zero
  /-- Behind a backslash and a carriage return, which form one line end with a line feed. -/
  | carriage
  /-- Before a hexadecimal digit and `left` more, behind digits with the value `acc`. -/
  | digits (left acc : Nat)
  /-- Behind a backslash and a `u`. -/
  | unicode
  /-- Between braces, behind digits with the value `acc`, if there are any. -/
  | braces (acc : Nat) (any : Bool)
deriving DecidableEq, Repr

/-- The value of a hexadecimal digit. -/
def hexDigit? (c : Char) : Option Nat :=
  if c.isDigit then some (c.toNat - '0'.toNat)
  else if 'a' ≤ c ∧ c ≤ 'f' then some (c.toNat - 'a'.toNat + 10)
  else if 'A' ≤ c ∧ c ≤ 'F' then some (c.toNat - 'A'.toNat + 10)
  else none

/-- Reads a character outside of escapes. -/
def readPlain (c : Char) : Option (ReadState × List Nat) :=
  if c = '\\' then some (.escape, [])
  else if c = '\n' ∨ c = '\r' then none
  else some (.plain, codeUnits c.toNat)

/-- Reads the character behind a backslash. A line end there is left out. -/
def readEscaped (c : Char) : Option (ReadState × List Nat) :=
  match c with
  | 'b' => some (.plain, [8])
  | 't' => some (.plain, [9])
  | 'n' => some (.plain, [10])
  | 'v' => some (.plain, [11])
  | 'f' => some (.plain, [12])
  | 'r' => some (.plain, [13])
  | '0' => some (.zero, [0])
  | 'x' => some (.digits 1 0, [])
  | 'u' => some (.unicode, [])
  | '\r' => some (.carriage, [])
  | '\n' | '\u2028' | '\u2029' => some (.plain, [])
  | c => if c.isDigit then none else some (.plain, codeUnits c.toNat)

namespace ReadState

/-- Whether the literal may end here. -/
def closable : ReadState → Bool
  | plain | zero | carriage => true
  | _ => false

/-- Reads one character: the state behind it and the code units that are complete with it. -/
def step : ReadState → Char → Option (ReadState × List Nat)
  | plain, c => readPlain c
  | escape, c => readEscaped c
  | zero, c => if c.isDigit then none else readPlain c
  | carriage, c => if c = '\n' then some (plain, []) else readPlain c
  | digits 0 acc, c => (hexDigit? c).map fun d => (plain, [16 * acc + d])
  | digits (left + 1) acc, c => (hexDigit? c).map fun d => (digits left (16 * acc + d), [])
  | unicode, c =>
    if c = '\x7b' then some (braces 0 false, [])
    else (hexDigit? c).map fun d => (digits 2 d, [])
  | braces acc any, c =>
    if c = '\x7d' then
      if any && acc ≤ 0x10FFFF then some (plain, codeUnits acc) else none
    else (hexDigit? c).map fun d => (braces (16 * acc + d) true, [])

/-- How many more code units than characters are to come may be denoted: an escape of several characters
ends with the one that gives its code units. -/
def slack : ReadState → Nat
  | braces _ _ => 1
  | _ => 0

end ReadState

/-- Reads a literal with the closing quote `q` from a state on: its value and what comes after it. -/
def readFrom (q : Char) : ReadState → List Char → Option (List Nat × List Char)
  | _, [] => none
  | st, c :: cs =>
    if st.closable && c == q then some ([], cs)
    else
      match st.step c with
      | none => none
      | some (next, units) => (readFrom q next cs).map fun (v, rest) => (units ++ v, rest)

/-- The value of a string literal, if the text is one. -/
def value? (raw : String) : Option (List Nat) :=
  match raw.toList with
  | [] => none
  | q :: cs =>
    if q = '"' ∨ q = '\'' then
      match readFrom q .plain cs with
      | some (v, []) => some v
      | _ => none
    else none

example : value? "'a\\u0062\\x7b\\u\x7b63\x7d\\0'" = some [97, 98, 0x7b, 99, 0] := by decide

/-! ## One character -/

section Step

variable {q c : Char} {st next : ReadState} {cs rest : List Char} {v units : List Nat}

/-- What a successful reading does with its first character: it ends there, or it goes on behind a step. -/
theorem readFrom_cons_eq_some :
    readFrom q st (c :: cs) = some (v, rest) ↔
      ((st.closable = true ∧ c = q) ∧ v = [] ∧ rest = cs) ∨
        ¬(st.closable = true ∧ c = q) ∧
          ∃ next units v', st.step c = some (next, units) ∧ readFrom q next cs = some (v', rest) ∧
            v = units ++ v' := by
  rw [readFrom]
  by_cases hclose : st.closable = true ∧ c = q
  · have htest : (st.closable && c == q) = true := by simpa using hclose
    rw [if_pos htest]
    constructor
    · intro h
      cases h
      exact .inl ⟨hclose, rfl, rfl⟩
    · rintro (⟨-, rfl, rfl⟩ | ⟨hopen, -⟩)
      · rfl
      · exact absurd hclose hopen
  · have htest : ¬(st.closable && c == q) = true := by simpa using hclose
    rw [if_neg htest]
    constructor
    · intro h
      cases hstep : st.step c with
      | none =>
        rw [hstep] at h
        cases h
      | some out =>
        rw [hstep] at h
        obtain ⟨⟨v', rest'⟩, hread, heq⟩ := Option.map_eq_some_iff.1 h
        cases heq
        exact .inr ⟨hclose, _, _, _, rfl, hread, rfl⟩
    · rintro (⟨hyes, -⟩ | ⟨-, next, units, v', hstep, hread, rfl⟩)
      · exact absurd hyes hclose
      · rw [hstep]
        exact Option.map_eq_some_iff.2 ⟨_, hread, rfl⟩

/-- A step that does not end the literal, and what is read behind it. -/
theorem readFrom_cons_of_step (hopen : ¬(st.closable = true ∧ c = q))
    (hstep : st.step c = some (next, units)) :
    readFrom q st (c :: cs) = (readFrom q next cs).map fun (v, rest) => (units ++ v, rest) := by
  have htest : ¬(st.closable && c == q) = true := by simpa using hopen
  rw [readFrom, if_neg htest, hstep]

/-- A character outside of escapes gives at most its own code units. -/
theorem readPlain_length_le (h : readPlain c = some (next, units)) :
    units.length + next.slack ≤ (codeUnits c.toNat).length := by
  unfold readPlain at h
  split at h
  · cases h
    exact Nat.zero_le _
  · split at h
    · cases h
    · cases h
      exact Nat.le_refl _

/-- A character behind a backslash gives at most its own code units or, if it is a letter, one. -/
theorem readEscaped_length_le (h : readEscaped c = some (next, units)) :
    units.length + next.slack ≤ (codeUnits c.toNat).length := by
  unfold readEscaped at h
  split at h
  -- Every case but the last is that of a fixed character.
  case h_14 =>
    split at h
    · cases h
    · cases h
      exact Nat.le_refl _
  all_goals
    cases h
    decide

/-- **No step gains**: a character gives at most as many code units as it has itself, if what an escape
is ahead counts. -/
theorem ReadState.step_length_le (h : st.step c = some (next, units)) :
    units.length + next.slack ≤ (codeUnits c.toNat).length + st.slack := by
  have hpos := length_codeUnits_pos c.toNat
  cases st with
  | plain => exact readPlain_length_le h
  | escape => exact readEscaped_length_le h
  | zero =>
    simp only [ReadState.step] at h
    split at h
    · cases h
    · exact readPlain_length_le h
  | carriage =>
    simp only [ReadState.step] at h
    split at h
    · cases h
      exact Nat.zero_le _
    · exact readPlain_length_le h
  | digits left acc =>
    cases left with
    | zero =>
      obtain ⟨d, -, hd⟩ := Option.map_eq_some_iff.1 h
      cases hd
      exact hpos
    | succ left =>
      obtain ⟨d, -, hd⟩ := Option.map_eq_some_iff.1 h
      cases hd
      exact Nat.zero_le _
  | unicode =>
    simp only [ReadState.step] at h
    split at h
    · cases h
      exact hpos
    · obtain ⟨d, -, hd⟩ := Option.map_eq_some_iff.1 h
      cases hd
      exact Nat.zero_le _
  | braces acc any =>
    simp only [ReadState.step] at h
    split at h
    · split at h
      · cases h
        have hle := length_codeUnits_le acc
        simp only [ReadState.slack]
        omega
      · cases h
    · obtain ⟨d, -, hd⟩ := Option.map_eq_some_iff.1 h
      cases hd
      simp only [ReadState.slack, List.length_nil]
      omega

/-- A quote is no digit. -/
theorem hexDigit?_of_isQuote (h : isQuote c = true) : hexDigit? c = none := by
  simp only [isQuote, Bool.or_eq_true, beq_iff_eq] at h
  rcases h with (rfl | rfl) | rfl <;> rfl

theorem readPlain_of_isQuote (h : isQuote c = true) : readPlain c = some (.plain, [c.toNat]) := by
  simp only [isQuote, Bool.or_eq_true, beq_iff_eq] at h
  rcases h with (rfl | rfl) | rfl <;> rfl

theorem readEscaped_of_isQuote (h : isQuote c = true) : readEscaped c = some (.plain, [c.toNat]) := by
  simp only [isQuote, Bool.or_eq_true, beq_iff_eq] at h
  rcases h with (rfl | rfl) | rfl <;> rfl

/-- A quote that does not end the literal stands for itself, with a backslash or without. -/
theorem ReadState.step_of_isQuote (hquote : isQuote c = true) (h : st.step c = some (next, units)) :
    units = [c.toNat] := by
  have hdigit := hexDigit?_of_isQuote hquote
  have hplain := readPlain_of_isQuote hquote
  have hescaped := readEscaped_of_isQuote hquote
  have hne : c.isDigit = false ∧ c ≠ '\n' ∧ c ≠ '\x7b' ∧ c ≠ '\x7d' := by
    simp only [isQuote, Bool.or_eq_true, beq_iff_eq] at hquote
    rcases hquote with (rfl | rfl) | rfl <;> decide
  obtain ⟨hnd, hlf, hopen, hclose⟩ := hne
  cases st with
  | digits left acc => cases left <;> simp [ReadState.step, hdigit] at h
  | unicode => simp [ReadState.step, hdigit, hopen] at h
  | braces acc any => simp [ReadState.step, hdigit, hclose] at h
  | plain => simp_all [ReadState.step]
  | escape => simp_all [ReadState.step]
  | zero => simp_all [ReadState.step]
  | carriage => simp_all [ReadState.step]

end Step

/-! ## Whole literals -/

section Reading

variable {q : Char} {st : ReadState} {cs pre : List Char} {v : List Nat}

/-- A literal that is read to its end denotes fewer code units than it has characters left, if what an
escape is ahead counts. -/
theorem length_lt_of_readFrom (h : readFrom q st cs = some (v, [])) :
    v.length < (utf16 cs).length + st.slack := by
  -- Induction on the text for all states: what an escape is ahead is what the steps before it left over.
  induction cs generalizing st v with
  | nil => cases h
  | cons c cs ih =>
    have hpos := length_codeUnits_pos c.toNat
    rcases readFrom_cons_eq_some.1 h with ⟨-, rfl, -⟩ | ⟨-, next, units, v', hstep, hread, rfl⟩
    · simp only [utf16_cons, List.length_append, List.length_nil]
      omega
    · have hle := ReadState.step_length_le hstep
      have hlt := ih hread
      simp only [utf16_cons, List.length_append]
      omega

/-- A beginning without backslashes stands for itself, and has no line end. -/
theorem readFrom_append_eq_some (hpre : '\\' ∉ pre) (hcs : cs ≠ [])
    (h : readFrom q .plain (pre ++ cs) = some (v, [])) :
    '\r' ∉ pre ∧ ∃ v', readFrom q .plain cs = some (v', []) ∧ v = utf16 pre ++ v' := by
  induction pre generalizing v with
  | nil => exact ⟨List.not_mem_nil, v, h, rfl⟩
  | cons c pre ih =>
    rw [List.mem_cons, not_or] at hpre
    rcases readFrom_cons_eq_some.1 h with ⟨-, -, hend⟩ | ⟨-, next, units, v₁, hstep, hread, rfl⟩
    · exact absurd (List.append_eq_nil_iff.1 hend.symm).2 hcs
    · simp only [ReadState.step, readPlain, if_neg (Ne.symm hpre.1)] at hstep
      split at hstep
      · cases hstep
      · next hends =>
        cases hstep
        obtain ⟨hcr, v', hread', rfl⟩ := ih hpre.2 hread
        rw [not_or] at hends
        refine ⟨?_, v', hread', by rw [utf16_cons, List.append_assoc]⟩
        rw [List.mem_cons, not_or]
        exact ⟨Ne.symm hends.2, hcr⟩

/-- The quote at the end closes the literal. -/
theorem readFrom_quote (h : readFrom q st [q] = some (v, [])) : v = [] := by
  rcases readFrom_cons_eq_some.1 h with ⟨-, hv, -⟩ | ⟨-, next, units, v', -, hread, -⟩
  · exact hv
  · cases hread

/-- A quote before the one at the end is the last character of the value. -/
theorem getLast?_of_readFrom {c : Char} (hquote : isQuote c = true)
    (h : readFrom q st (pre ++ [c, q]) = some (v, [])) : v.getLast? = some c.toNat := by
  induction pre generalizing st v with
  | nil =>
    -- The quote is not the closing one, since that comes behind it.
    rcases readFrom_cons_eq_some.1 h with ⟨-, -, hend⟩ | ⟨-, next, units, v', hstep, hread, rfl⟩
    · cases hend
    · rw [ReadState.step_of_isQuote hquote hstep, readFrom_quote hread]
      rfl
  | cons d pre ih =>
    rcases readFrom_cons_eq_some.1 h with ⟨-, -, hend⟩ | ⟨-, next, units, v', -, hread, rfl⟩
    · exact absurd hend.symm (by simp)
    · rw [List.getLast?_append, ih hread, Option.some_or]

/-- One character is read back from its form inside double quotes, unless it is a carriage return. -/
theorem readFrom_escapeChar_append (c : Char) (t : List Char) :
    readFrom '"' .plain (escapeChar c ++ t) =
      if c = '\r' then none
      else (readFrom '"' .plain t).map fun (v, rest) => (codeUnits c.toNat ++ v, rest) := by
  have escaped : ∀ d, readEscaped d = some (.plain, codeUnits c.toNat) →
      readFrom '"' .plain ('\\' :: d :: t) =
        (readFrom '"' .plain t).map fun (v, rest) => (codeUnits c.toNat ++ v, rest) := by
    intro d hd
    have hslash : readFrom '"' .plain ('\\' :: d :: t) =
        (readFrom '"' .escape (d :: t)).map fun (v, rest) => ([] ++ v, rest) :=
      readFrom_cons_of_step (by decide) rfl
    have hescaped : readFrom '"' .escape (d :: t) =
        (readFrom '"' .plain t).map fun (v, rest) => (codeUnits c.toNat ++ v, rest) :=
      readFrom_cons_of_step (by simp [ReadState.closable]) hd
    rw [hslash, hescaped, Option.map_map]
    rfl
  unfold escapeChar
  split
  · exact escaped _ rfl
  · exact escaped _ rfl
  · exact escaped _ rfl
  · next hquote hslash hlf =>
    have hopen : ¬(ReadState.plain.closable = true ∧ c = '"') := fun h => hquote h.2
    rw [List.singleton_append]
    by_cases hcr : c = '\r'
    · subst hcr
      rfl
    · rw [if_neg hcr]
      refine readFrom_cons_of_step hopen ?_
      have hline : ¬(c = '\n' ∨ c = '\r') := not_or.2 ⟨hlf, hcr⟩
      rw [ReadState.step, readPlain, if_neg hslash, if_neg hline]

/-- **A text in double quotes** is read back, whatever follows, unless a carriage return is in it. -/
theorem readFrom_escape_append (m rest : List Char) :
    readFrom '"' .plain (escape m ++ '"' :: rest) =
      if '\r' ∈ m then none else some (utf16 m, rest) := by
  induction m with
  | nil => rfl
  | cons c m ih =>
    rw [escape, List.flatMap_cons, List.append_assoc, readFrom_escapeChar_append, ← escape, ih]
    by_cases hc : c = '\r'
    · simp [hc]
    · by_cases hm : '\r' ∈ m
      · simp [hm]
      · simp [hc, hm, Ne.symm hc]

/-- What a reading goes over ends with the closing quote. -/
theorem exists_append_of_readFrom {rest : List Char} (h : readFrom q st cs = some (v, rest)) :
    ∃ body, cs = body ++ q :: rest := by
  induction cs generalizing st v with
  | nil => cases h
  | cons c cs ih =>
    rcases readFrom_cons_eq_some.1 h with ⟨⟨-, rfl⟩, -, rfl⟩ | ⟨-, next, units, v', -, hread, -⟩
    · exact ⟨[], rfl⟩
    · obtain ⟨body, rfl⟩ := ih hread
      exact ⟨c :: body, rfl⟩

end Reading

/-- A literal consists of its delimiters, one at each end, and what is read between them. -/
theorem exists_body_of_value? {raw : String} {v : List Nat} (h : value? raw = some v) :
    ∃ q body, raw.toList = q :: (body ++ [q]) ∧ (q = '"' ∨ q = '\'') ∧
      readFrom q .plain (body ++ [q]) = some (v, []) := by
  unfold value? at h
  split at h
  · cases h
  · next q cs hraw =>
    split at h
    · next hq =>
      split at h
      · next v' hread =>
        cases h
        obtain ⟨body, rfl⟩ := exists_append_of_readFrom hread
        exact ⟨q, body, hraw, hq, hread⟩
      · cases h
    · cases h

/-- The value of a text in double quotes is the text, unless a carriage return is in it. -/
theorem value?_quoted (m : String) :
    value? (quoted m) = if '\r' ∈ m.toList then none else some (utf16 m.toList) := by
  rw [value?, quoted, String.toList_ofList]
  simp only [true_or, if_true, readFrom_escape_append]
  by_cases hcr : '\r' ∈ m.toList
  · simp only [if_pos hcr]
  · simp only [if_neg hcr]

/-! ## Plain literals -/

/-- What stands between the first and the last character of a literal. -/
def body (raw : String) : List Char := raw.toList.tail.dropLast

/-- A literal is plain if nothing in it is escaped and its delimiters are the only quotes at its ends. -/
structure IsPlain (raw : String) : Prop where
  /-- No character stands behind a backslash. -/
  noEscape : '\\' ∉ body raw
  /-- The text does not begin with a quote of any kind. -/
  first : ∀ c ∈ (body raw).head?, isQuote c = false
  /-- The text does not end with a quote of any kind. -/
  last : ∀ c ∈ (body raw).getLast?, isQuote c = false

theorem isPlain_iff {raw : String} :
    IsPlain raw ↔ '\\' ∉ body raw ∧ (body raw).head?.all (!isQuote ·) = true ∧
      (body raw).getLast?.all (!isQuote ·) = true := by
  simp only [Option.all_eq_true, Bool.not_eq_true']
  exact ⟨fun h => ⟨h.noEscape, h.first, h.last⟩, fun h => ⟨h.1, h.2.1, h.2.2⟩⟩

-- The quantifiers of the definition range over all characters; the test looks at two of them.
instance (raw : String) : Decidable (IsPlain raw) :=
  decidable_of_iff _ isPlain_iff.symm

theorem toNat_lt_of_isQuote {c : Char} (h : isQuote c = true) : c.toNat < 0xD800 := by
  simp only [isQuote, Bool.or_eq_true, beq_iff_eq] at h
  rcases h with (rfl | rfl) | rfl <;> decide

/-- Of all characters, only a quote has the code unit of a quote as its first. -/
theorem eq_of_head?_codeUnits {c d : Char} (hquote : isQuote c = true)
    (h : (codeUnits d.toNat).head? = some c.toNat) : d = c := by
  have hlt := toNat_lt_of_isQuote hquote
  unfold codeUnits at h
  split at h
  · exact Char.toNat_inj.1 (Option.some.inj h)
  · have hhigh := Option.some.inj h
    omega

theorem eq_of_getLast?_codeUnits {c d : Char} (hquote : isQuote c = true)
    (h : (codeUnits d.toNat).getLast? = some c.toNat) : d = c := by
  have hlt := toNat_lt_of_isQuote hquote
  unfold codeUnits at h
  split at h
  · exact Char.toNat_inj.1 (Option.some.inj h)
  · have hlow : 0xDC00 + (d.toNat - 0x10000) % 0x400 = c.toNat := Option.some.inj h
    omega

/-- A text whose first code unit is that of a quote begins with this quote. -/
theorem head?_eq_of_head?_utf16 {c : Char} {m : List Char} (hquote : isQuote c = true)
    (h : (utf16 m).head? = some c.toNat) : m.head? = some c := by
  cases m with
  | nil => cases h
  | cons d m =>
    have hne : codeUnits d.toNat ≠ [] := List.ne_nil_of_length_pos (length_codeUnits_pos _)
    rw [utf16_cons, List.head?_append_of_ne_nil _ hne] at h
    rw [List.head?_cons, eq_of_head?_codeUnits hquote h]

theorem getLast?_eq_of_getLast?_utf16 {c : Char} {m : List Char} (hquote : isQuote c = true)
    (h : (utf16 m).getLast? = some c.toNat) : m.getLast? = some c := by
  rcases List.eq_nil_or_concat m with rfl | ⟨m, d, rfl⟩
  · cases h
  · have hne : codeUnits d.toNat ≠ [] := List.ne_nil_of_length_pos (length_codeUnits_pos _)
    rw [List.concat_eq_append, utf16_append, utf16_cons, utf16_nil, List.append_nil,
      List.getLast?_append_of_ne_nil _ hne] at h
    rw [List.concat_eq_append, List.getLast?_concat, eq_of_getLast?_codeUnits hquote h]

theorem toList_stripQuotes (raw : String) :
    (stripQuotes raw).toList = (raw.toList.dropWhile isQuote).rdropWhile isQuote :=
  String.toList_ofList

/-- The text without quotes at its ends does not end with one. -/
theorem getLast?_stripQuotes (raw : String) :
    ∀ c ∈ (stripQuotes raw).toList.getLast?, isQuote c = false := by
  intro c hc
  rw [toList_stripQuotes] at hc
  obtain ⟨hne, rfl⟩ := List.mem_getLast?_eq_getLast hc
  exact Bool.eq_false_iff.2 (List.rdropWhile_last_not isQuote _ hne)

/-- The text without quotes at its ends does not begin with one. -/
theorem head?_stripQuotes (raw : String) : ∀ c ∈ (stripQuotes raw).toList.head?, isQuote c = false := by
  intro c hc
  rw [toList_stripQuotes] at hc
  -- What is cut off behind leaves the first character as it is.
  have hfirst : (raw.toList.dropWhile isQuote).head? = some c := by
    obtain ⟨cut, hcut⟩ := List.rdropWhile_prefix isQuote (raw.toList.dropWhile isQuote)
    rw [← hcut, List.head?_append, hc, Option.some_or]
  have hnot := List.head?_dropWhile_not isQuote raw.toList
  rw [hfirst] at hnot
  exact hnot

/-- If the delimiters of a literal are the only quotes at its ends, they are all that is cut off. -/
theorem toList_stripQuotes_of_body {raw : String} {q : Char} {body : List Char}
    (hraw : raw.toList = q :: (body ++ [q])) (hq : isQuote q = true)
    (hfirst : ∀ c ∈ body.head?, isQuote c = false) (hlast : ∀ c ∈ body.getLast?, isQuote c = false) :
    (stripQuotes raw).toList = body := by
  have hbehind : body.rdropWhile isQuote = body := by
    rw [List.rdropWhile_eq_self_iff]
    intro hne
    rw [hlast _ (List.getLast?_eq_some_getLast hne)]
    exact Bool.false_ne_true
  rw [toList_stripQuotes, hraw, List.dropWhile_cons_of_pos hq]
  cases body with
  | nil =>
    rw [List.nil_append, List.dropWhile_cons_of_pos hq]
    rfl
  | cons c body =>
    have hc : ¬isQuote c = true := by rw [hfirst c rfl]; exact Bool.false_ne_true
    rw [List.cons_append, List.dropWhile_cons_of_neg hc, ← List.cons_append,
      List.rdropWhile_concat_pos _ _ _ hq, hbehind]

/-- A literal without backslashes denotes its text, which has no line end. -/
theorem eq_utf16_of_readFrom {q : Char} {text : List Char} {v : List Nat}
    (h : readFrom q .plain (text ++ [q]) = some (v, [])) (hslash : '\\' ∉ text) :
    '\r' ∉ text ∧ v = utf16 text := by
  obtain ⟨hcr, v', hread, rfl⟩ := readFrom_append_eq_some hslash (List.cons_ne_nil q []) h
  exact ⟨hcr, by rw [readFrom_quote hread, List.append_nil]⟩

/-- A literal with a backslash denotes fewer code units than its text has.

**Proof sketch.** Up to the first backslash the text stands for itself. The backslash gives nothing, and
behind it no step gains. -/
theorem length_lt_of_slash_mem {q : Char} {text : List Char} {v : List Nat} (hq : isQuote q = true)
    (h : readFrom q .plain (text ++ [q]) = some (v, [])) (hslash : '\\' ∈ text) :
    v.length < (utf16 text).length := by
  obtain ⟨before, behind, rfl, hbefore⟩ := List.eq_append_cons_of_mem hslash
  rw [List.append_assoc, List.cons_append] at h
  obtain ⟨-, v', hread, rfl⟩ := readFrom_append_eq_some hbefore (List.cons_ne_nil _ _) h
  have hne : '\\' ≠ q := by
    rintro rfl
    cases hq
  rcases readFrom_cons_eq_some.1 hread with ⟨⟨-, heq⟩, -⟩ | ⟨-, next, units, v'', hstep, hread', rfl⟩
  · exact absurd heq hne
  · cases hstep
    have hlt := length_lt_of_readFrom hread'
    have hq1 : (codeUnits q.toNat).length = 1 := by
      rw [codeUnits, if_pos (Nat.lt_trans (toNat_lt_of_isQuote hq) (by decide))]
      rfl
    have hslash1 := length_codeUnits_pos '\\'.toNat
    simp only [utf16_append, utf16_cons, utf16_nil, List.append_nil, List.nil_append, List.length_append,
      ReadState.slack] at hlt ⊢
    omega

/-- A quote at the beginning of a literal is the first code unit of its value. -/
theorem head?_of_readFrom {q c : Char} {text : List Char} {v : List Nat} (hquote : isQuote c = true)
    (h : readFrom q .plain (c :: (text ++ [q])) = some (v, [])) : v.head? = some c.toNat := by
  rcases readFrom_cons_eq_some.1 h with ⟨-, -, hend⟩ | ⟨-, next, units, v', hstep, -, rfl⟩
  · exact absurd hend.symm (by simp)
  · rw [ReadState.step_of_isQuote hquote hstep]
    rfl

/-- **The value that stripping and quoting keep.** A literal denotes what the text between its quotes, put
in double quotes again, denotes, if and only if it is plain.

**Proof sketch.** A quote at an end of the text is cut off, but it stands for itself in the value, whether a
backslash is before it or not; so there is none if the value is kept, and just the delimiters are cut off.
Then the new value is the text. An escape denotes fewer code units than it has, so there is none either. -/
theorem value?_quoted_stripQuotes {raw : String} {v : List Nat} (h : value? raw = some v) :
    value? (quoted (stripQuotes raw)) = some v ↔ IsPlain raw := by
  obtain ⟨q, text, hraw, hq, hread⟩ := exists_body_of_value? h
  have hbody : body raw = text := by
    rw [body, hraw, List.tail_cons, List.dropLast_concat]
  have hquote : isQuote q = true := by
    rcases hq with rfl | rfl <;> rfl
  rw [value?_quoted]
  constructor
  · intro hkept
    split at hkept
    · cases hkept
    · have hv : utf16 (stripQuotes raw).toList = v := Option.some.inj hkept
      have hfirst : ∀ c ∈ text.head?, isQuote c = false := by
        intro c hc
        by_contra hyes
        rw [Bool.not_eq_false] at hyes
        obtain ⟨text, rfl⟩ := List.head?_eq_some_iff.1 hc
        have hhead := head?_of_readFrom hyes hread
        rw [← hv] at hhead
        have hnot := head?_stripQuotes raw c (head?_eq_of_head?_utf16 hyes hhead)
        exact Bool.false_ne_true (hnot.symm.trans hyes)
      have hlast : ∀ c ∈ text.getLast?, isQuote c = false := by
        intro c hc
        by_contra hyes
        rw [Bool.not_eq_false] at hyes
        obtain ⟨text, rfl⟩ := List.getLast?_eq_some_iff.1 hc
        rw [List.append_assoc] at hread
        have hend := getLast?_of_readFrom hyes hread
        rw [← hv] at hend
        have hnot := getLast?_stripQuotes raw c (getLast?_eq_of_getLast?_utf16 hyes hend)
        exact Bool.false_ne_true (hnot.symm.trans hyes)
      rw [toList_stripQuotes_of_body hraw hquote hfirst hlast] at hv
      have hslash : '\\' ∉ text := by
        intro hmem
        have hlt := length_lt_of_slash_mem hquote hread hmem
        rw [hv] at hlt
        exact Nat.lt_irrefl _ hlt
      exact ⟨hbody ▸ hslash, hbody ▸ hfirst, hbody ▸ hlast⟩
  · rintro ⟨hslash, hfirst, hlast⟩
    rw [hbody] at hslash hfirst hlast
    obtain ⟨hcr, rfl⟩ := eq_utf16_of_readFrom hread hslash
    rw [toList_stripQuotes_of_body hraw hquote hfirst hlast, if_neg hcr]

end Literal

end TestScaffold
