import TestScaffold.Proofs.ImportTokens
import TestScaffold.Proofs.LowerCase

set_option autoImplicit false

/-!
# Plain names and member accesses

A member access is a chain of names with dots between them. It is one of the language if each name is a word and
the first is one that a variable can have. Whether a text is such a chain can be seen from the names that it was
written from, provided that each of them is a word or begins with a character that no word begins with.

## Main definitions

* `TestScaffold.startsWord`, `TestScaffold.isWordChar` — the characters of words.
* `TestScaffold.IsMarked` — texts that begin like no word.
* `TestScaffold.reservedWords`, `TestScaffold.IsAccess` — member accesses by plain names.

## Main results

* `TestScaffold.IsWord.exists_cons` — how a word begins and goes on.
* `TestScaffold.IsWord.decapitalize` — a word stays one when its first character is put into lower case.
* `TestScaffold.isAccess_dotted_iff` — when names with dots between them are a member access.

## Implementation notes

A word may have escapes, so whether a character belongs to it depends on the state of its reading. That state
carries the text read so far, which `TestScaffold.LexState.withText` replaces: how a word goes on does not depend
on how it began.
-/

namespace TestScaffold

/-! ## The characters of words -/

/-- Whether a character may stand in a word, be it in an escape. -/
def isWordChar (c : Char) : Bool := isNameChar c || c == '\\' || c == '\x7b' || c == '\x7d'

/-- Whether a word may begin with a character. -/
def startsWord (c : Char) : Bool := c == '\\' || isNameChar c && !c.isDigit

/-- The capital letters of ASCII by their numbers. -/
theorem isUpper_iff {c : Char} : c.isUpper = true ↔ 'A'.toNat ≤ c.toNat ∧ c.toNat ≤ 'Z'.toNat :=
  decide_eq_true_iff (p := c.val ≥ 'A'.val ∧ c.val ≤ 'Z'.val)

/-- The small letters of ASCII by their numbers. -/
theorem isLower_iff {c : Char} : c.isLower = true ↔ 'a'.toNat ≤ c.toNat ∧ c.toNat ≤ 'z'.toNat := by
  have hbounds : c.isLower = (decide (c.val ≥ 'a'.val) && decide (c.val ≤ 'z'.val)) := rfl
  rw [hbounds, Bool.and_eq_true, decide_eq_true_eq, decide_eq_true_eq]
  rfl

/-- The letters and digits of ASCII. -/
theorem isAlphanum_iff {c : Char} :
    c.isAlphanum = true ↔ (c.isUpper = true ∨ c.isLower = true) ∨ c.isDigit = true := by
  have hparts : c.isAlphanum = ((c.isUpper || c.isLower) || c.isDigit) := rfl
  rw [hparts, Bool.or_eq_true, Bool.or_eq_true]

/-- The digits are before the letters. -/
theorem le_of_isDigit {c : Char} (h : c.isDigit = true) : c.toNat ≤ '9'.toNat := by
  rw [Char.isDigit, Bool.and_eq_true, decide_eq_true_eq, decide_eq_true_eq] at h
  exact h.2

/-- A letter or digit of ASCII may stand in a word. -/
theorem isNameChar_of_isAlphanum {c : Char} (h : c.isAlphanum = true) : isNameChar c = true := by
  have hsmall : c.toNat < 0x7F := by
    rcases isAlphanum_iff.1 h with (hupper | hlower) | hdigit
    · exact Nat.lt_of_le_of_lt (isUpper_iff.1 hupper).2 (by decide)
    · exact Nat.lt_of_le_of_lt (isLower_iff.1 hlower).2 (by decide)
    · exact Nat.lt_of_le_of_lt (le_of_isDigit hdigit) (by decide)
  rw [isNameChar, if_pos hsmall, h]
  rfl

/-- A hexadecimal digit may stand in a word. -/
theorem isNameChar_of_hexDigit? {c : Char} (h : (Literal.hexDigit? c).isSome = true) : isNameChar c = true := by
  apply isNameChar_of_isAlphanum
  rw [isAlphanum_iff, isUpper_iff, isLower_iff]
  unfold Literal.hexDigit? at h
  split at h
  · next hdigit => exact Or.inr hdigit
  · split at h
    · next hlower => exact Or.inl (Or.inr ⟨hlower.1, Nat.le_trans hlower.2 (by decide)⟩)
    · split at h
      · next hupper => exact Or.inl (Or.inl ⟨hupper.1, Nat.le_trans hupper.2 (by decide)⟩)
      · cases h

namespace LexState

/-- What has been read of the word that a state is in. -/
def text? : LexState → Option (List Char)
  | word text | slash text | unicode text | digits _ text | braces _ text => some text
  | between | string _ _ _ _ => none

/-- The state with another beginning of the word that it is in. -/
def withText (other : List Char) : LexState → LexState
  | word _ => word other
  | slash _ => slash other
  | unicode _ => unicode other
  | digits left _ => digits left other
  | braces any _ => braces any other
  | st => st

/-- A character that is read in a word without completing a token belongs to the word, and is read like this
whatever the word began with. -/
theorem step_in_word {st next : LexState} {text : List Char} {c : Char} (htext : st.text? = some text)
    (h : st.step c = some ([], next)) :
    isWordChar c = true ∧ next.text? = some (text ++ [c]) ∧
      ∀ other, (st.withText other).step c = some ([], next.withText (other ++ [c])) := by
  have hhex : (Literal.hexDigit? c).isSome = true → isWordChar c = true := fun hc => by
    rw [isWordChar, isNameChar_of_hexDigit? hc]
    rfl
  have hmarks : isWordChar '\\' = true ∧ isWordChar 'u' = true ∧ isWordChar '\x7b' = true ∧
      isWordChar '\x7d' = true := by
    decide
  cases st with
  | between => cases htext
  | string q st raw value => cases htext
  | word t =>
    -- Another character would complete the token of the word.
    by_cases hname : isNameChar c = true
    · grind [step, text?, withText, isWordChar]
    · by_cases hslash : c = '\\'
      · grind [step, text?, withText]
      · rw [step, if_neg hname, if_neg hslash, Option.map_eq_some_iff] at h
        obtain ⟨out, -, heq⟩ := h
        cases heq
  | slash t => grind [step, text?, withText]
  | unicode t => grind [step, text?, withText]
  | digits left t => cases left <;> grind [step, text?, withText]
  | braces any t => grind [step, text?, withText]

/-- The first character of a text that gives no token is read without one. -/
theorem run_cons_eq_some {st last : LexState} {c : Char} {cs : List Char}
    (h : st.run (c :: cs) = some ([], last)) :
    ∃ next, st.step c = some ([], next) ∧ next.run cs = some ([], last) := by
  rw [run] at h
  cases hstep : st.step c with
  | none =>
    rw [hstep] at h
    cases h
  | some out =>
    obtain ⟨ts, next⟩ := out
    rw [hstep] at h
    obtain ⟨⟨us, last'⟩, hrest, heq⟩ := Option.map_eq_some_iff.1 h
    obtain ⟨hnone, rfl⟩ := Prod.mk.inj heq
    obtain ⟨rfl, rfl⟩ := List.append_eq_nil_iff.1 hnone
    exact ⟨next, rfl, hrest⟩

/-- A text that goes on with a word to its end has the characters of words, and it goes on like this with
any word of the same state. -/
theorem run_in_word {cs whole : List Char} : ∀ {st : LexState} {text : List Char}, st.text? = some text →
    st.run cs = some ([], .word whole) →
      whole = text ++ cs ∧ (∀ c ∈ cs, isWordChar c = true) ∧
        ∀ other, (st.withText other).run cs = some ([], .word (other ++ cs)) := by
  induction cs with
  | nil =>
    intro st text htext h
    rw [run] at h
    obtain ⟨-, rfl⟩ := Prod.mk.inj (Option.some.inj h)
    obtain rfl := Option.some.inj htext
    refine ⟨(List.append_nil _).symm, List.forall_mem_nil _, fun other => ?_⟩
    rw [List.append_nil]
    rfl
  | cons c cs ih =>
    intro st text htext h
    obtain ⟨next, hstep, hrest⟩ := run_cons_eq_some h
    obtain ⟨hchar, hnext, hother⟩ := step_in_word htext hstep
    obtain ⟨rfl, hchars, hothers⟩ := ih hnext hrest
    refine ⟨List.append_assoc _ _ _, List.forall_mem_cons.2 ⟨hchar, hchars⟩, fun other => ?_⟩
    rw [run, hother other]
    dsimp only
    rw [hothers (other ++ [c]), List.append_assoc]
    rfl

/-- A literal does not end in a word without a token. -/
theorem run_string_ne_word {q : Char} {st : Literal.ReadState} {raw : List Char} {value : List Nat}
    {cs text : List Char} : (LexState.string q st raw value).run cs ≠ some ([], .word text) := by
  induction cs generalizing st raw value with
  | nil => exact fun h => nomatch h
  | cons c cs ih =>
    intro h
    obtain ⟨next, hstep, hrest⟩ := run_cons_eq_some h
    rw [step] at hstep
    split at hstep
    · cases hstep
    · obtain ⟨out, -, heq⟩ := Option.map_eq_some_iff.1 hstep
      obtain ⟨-, rfl⟩ := Prod.mk.inj heq
      exact ih hrest

/-- A character that is no digit and may stand in a word begins one. -/
theorem start_eq_word {c : Char} (hname : isNameChar c = true) (hdigit : c.isDigit = false) :
    start c = some ([], .word [c]) := by
  have hothers : (blanks ++ marks ++ ['"', '\'', '\\']).all (fun d => !isNameChar d) = true := by decide
  have hnot : c ∉ blanks ++ marks ++ ['"', '\'', '\\'] := fun hc => by
    have hother := List.all_eq_true.1 hothers c hc
    rw [hname] at hother
    cases hother
  simp only [List.mem_append, List.mem_cons, List.not_mem_nil, or_false, not_or] at hnot
  obtain ⟨⟨hblank, hmark⟩, hdouble, hsingle, hslash⟩ := hnot
  rw [start, if_neg (by simpa using hblank), if_neg (by simpa using hmark),
    if_neg (fun h => h.elim hdouble hsingle), if_neg hslash, hname, hdigit]
  rfl

/-- What is read first without a token is a blank, a quote, or the first character of a word. -/
theorem start_eq_some {c : Char} {next : LexState} (h : start c = some ([], next)) :
    next = .between ∨ (∃ q, next = .string q .plain [c] []) ∨ startsWord c = true ∧ next.text? = some [c] := by
  unfold start at h
  split at h
  · exact Or.inl (Prod.mk.inj (Option.some.inj h)).2.symm
  · split at h
    · cases h
    · split at h
      · exact Or.inr (Or.inl ⟨c, (Prod.mk.inj (Option.some.inj h)).2.symm⟩)
      · split at h
        · next hslash =>
          obtain ⟨-, rfl⟩ := Prod.mk.inj (Option.some.inj h)
          exact Or.inr (Or.inr ⟨by rw [hslash]; rfl, rfl⟩)
        · split at h
          · next hname =>
            obtain ⟨-, rfl⟩ := Prod.mk.inj (Option.some.inj h)
            exact Or.inr (Or.inr ⟨by rw [startsWord, hname, Bool.or_true], rfl⟩)
          · cases h

/-- A text that ends in a word without a token has no more characters before the word. -/
theorem length_le_of_run_between {cs whole : List Char} (h : between.run cs = some ([], .word whole)) :
    whole.length ≤ cs.length := by
  induction cs with
  | nil => cases h
  | cons c cs ih =>
    obtain ⟨next, hstep, hrest⟩ := run_cons_eq_some h
    rcases start_eq_some hstep with rfl | ⟨q, rfl⟩ | ⟨-, htext⟩
    · exact Nat.le_succ_of_le (ih hrest)
    · exact absurd hrest run_string_ne_word
    · rw [(run_in_word htext hrest).1]
      rfl

end LexState

namespace IsWord

/-- **How a word begins and goes on.** -/
theorem exists_cons {name : String} (h : IsWord name) :
    ∃ c cs, name.toList = c :: cs ∧ startsWord c = true ∧ ∀ d ∈ cs, isWordChar d = true := by
  unfold IsWord at h
  cases hname : name.toList with
  | nil =>
    rw [hname] at h
    cases h
  | cons c cs =>
    rw [hname] at h
    obtain ⟨next, hstep, hrest⟩ := LexState.run_cons_eq_some h
    rcases LexState.start_eq_some hstep with rfl | ⟨q, rfl⟩ | ⟨hstarts, htext⟩
    · exact absurd (LexState.length_le_of_run_between hrest) (Nat.not_succ_le_self _)
    · exact absurd hrest LexState.run_string_ne_word
    · exact ⟨c, cs, rfl, hstarts, (LexState.run_in_word htext hrest).2.1⟩

end IsWord

/-! ## Words in lower case -/

/-- The characters beyond ASCII that no word has. -/
def wideBlanks : List Char := blanks ++ ['\u200b', '\u2060']

/-- Whether the images of a run may all begin a word: they are small letters, or lie beyond ASCII and between
blanks. -/
def CaseRun.mapsToNames (r : CaseRun) : Bool :=
  Nat.ble 'a'.toNat r.target && Nat.ble r.lastTarget 'z'.toNat ||
    Nat.ble 0x7F r.target && wideBlanks.all fun b => Nat.blt r.lastTarget b.toNat || Nat.blt b.toNat r.target

/-- All runs of the table map to characters that may begin a word. -/
theorem mapsToNames_caseRuns : caseRuns.all CaseRun.mapsToNames = true := by
  decide +kernel

/-- A character beyond ASCII may begin a word if it is no blank. -/
theorem beginsName_of_not_mem_wideBlanks {c : Char} (hwide : 0x7F ≤ c.toNat) (hblank : c ∉ wideBlanks) :
    isNameChar c = true ∧ c.isDigit = false := by
  simp only [wideBlanks, List.mem_append, List.mem_cons, List.not_mem_nil, or_false, not_or] at hblank
  obtain ⟨hblank, hzero, hjoiner⟩ := hblank
  constructor
  · rw [isNameChar, if_neg (Nat.not_lt.2 hwide)]
    simp [hblank, hzero, hjoiner]
  · rw [Bool.eq_false_iff]
    exact fun hdigit => absurd (Nat.le_trans hwide (le_of_isDigit hdigit)) (by decide)

/-- The image of a run that maps to names may begin a word. -/
theorem CaseRun.beginsName_image {r : CaseRun} (h : r.mapsToNames = true) (hchar : r.mapsToChars = true)
    {n : Nat} (hn : r.covers n = true) :
    isNameChar (Char.ofNat (r.image n)) = true ∧ (Char.ofNat (r.image n)).isDigit = false := by
  have hnat := (toNat_ofNat_image hchar hn).1
  have hbounds : r.target ≤ r.image n ∧ r.image n ≤ r.lastTarget := by
    simp only [covers, Bool.and_eq_true, decide_eq_true_eq] at hn
    unfold image lastTarget
    omega
  simp only [mapsToNames, Bool.or_eq_true, Bool.and_eq_true, Nat.ble_eq, List.all_eq_true, Nat.blt_eq] at h
  rcases h with ⟨hfirst, hlast⟩ | ⟨hwide, hblanks⟩
  · have hlower : (Char.ofNat (r.image n)).isLower = true := by
      rw [isLower_iff]
      omega
    refine ⟨isNameChar_of_isAlphanum (isAlphanum_iff.2 (Or.inl (Or.inr hlower))), ?_⟩
    rw [Bool.eq_false_iff]
    intro hdigit
    have hle := le_of_isDigit hdigit
    rw [hnat] at hle
    exact absurd (hfirst.trans (hbounds.1.trans hle)) (by decide)
  · refine beginsName_of_not_mem_wideBlanks (by omega) fun hin => ?_
    rcases hblanks _ hin with hbefore | hbehind <;> omega

/-- The lower-case form of a character that may begin a word begins with such a character, and what else it has
may stand in a word. -/
theorem lowerCase_of_beginsName {c : Char} (hname : isNameChar c = true) (hdigit : c.isDigit = false) :
    ∃ d ds, lowerCase c = d :: ds ∧ isNameChar d = true ∧ d.isDigit = false ∧
      ∀ e ∈ ds, isNameChar e = true := by
  unfold lowerCase
  split
  · exact ⟨'i', ['\u0307'], rfl, by decide, by decide, List.forall_mem_singleton.2 (by decide)⟩
  · split
    · next r hr =>
      have hin := List.mem_of_find?_eq_some hr
      have hcovers : r.covers c.toNat = true := by simpa using List.find?_some hr
      obtain ⟨hbegins, hnot⟩ := CaseRun.beginsName_image (List.all_eq_true.1 mapsToNames_caseRuns r hin)
        (List.all_eq_true.1 mapsToChars_caseRuns r hin) hcovers
      exact ⟨_, [], rfl, hbegins, hnot, List.forall_mem_nil _⟩
    · exact ⟨c, [], rfl, hname, hdigit, List.forall_mem_nil _⟩

/-- Inside of a word, characters that may stand in one are added to it. -/
theorem LexState.run_word_of_isNameChar {cs : List Char} (h : ∀ c ∈ cs, isNameChar c = true) (text : List Char) :
    (LexState.word text).run cs = some ([], .word (text ++ cs)) := by
  induction cs generalizing text with
  | nil => rw [run, List.append_nil]
  | cons c cs ih =>
    obtain ⟨hc, hcs⟩ := List.forall_mem_cons.1 h
    rw [run, step, if_pos hc]
    dsimp only
    rw [ih hcs, List.append_assoc]
    rfl

/-- **A word stays one** when its first character is put into lower case. -/
theorem IsWord.decapitalize {name : String} (h : IsWord name) : IsWord (decapitalize name) := by
  obtain ⟨c, cs, hname, hstarts, -⟩ := h.exists_cons
  have hform : TestScaffold.decapitalize name = String.ofList (lowerCase c ++ cs) := by
    rw [TestScaffold.decapitalize, hname]
  rw [startsWord, Bool.or_eq_true, beq_iff_eq, Bool.and_eq_true, Bool.not_eq_true'] at hstarts
  rcases hstarts with rfl | ⟨hchar, hdigit⟩
  · -- A backslash has no lower-case form, so a name that begins with an escape is kept.
    have hslash : lowerCase '\\' = ['\\'] := by decide
    rw [hform, hslash, List.singleton_append, ← hname, String.ofList_toList]
    exact h
  · obtain ⟨d, ds, hlower, hd, hdigit', hds⟩ := lowerCase_of_beginsName hchar hdigit
    unfold IsWord at h ⊢
    rw [hname, LexState.run] at h
    have hstep : LexState.between.step c = some ([], .word [c]) := LexState.start_eq_word hchar hdigit
    have hstep' : LexState.between.step d = some ([], .word [d]) := LexState.start_eq_word hd hdigit'
    rw [hstep] at h
    obtain ⟨⟨us, last⟩, hrest, heq⟩ := Option.map_eq_some_iff.1 h
    obtain ⟨rfl, rfl⟩ := Prod.mk.inj heq
    have hother := (LexState.run_in_word rfl hrest).2.2 (d :: ds)
    rw [hform, String.toList_ofList, hlower, List.cons_append, LexState.run, hstep']
    dsimp only
    rw [LexState.run_append, LexState.run_word_of_isNameChar hds]
    change ((LexState.word (d :: ds)).run cs = _) at hother
    simp [hother]

/-! ## Names that are no words -/

/-- A text begins like no word. -/
def IsMarked (name : String) : Prop := ∃ c cs, name.toList = c :: cs ∧ startsWord c = false

/-- A text that begins like no word is none. -/
theorem IsMarked.not_isWord {name : String} (h : IsMarked name) : ¬IsWord name := by
  intro hword
  obtain ⟨c, cs, hname, hstarts⟩ := h
  obtain ⟨d, ds, hname', hstarts', -⟩ := hword.exists_cons
  obtain ⟨rfl, -⟩ := List.cons.inj (hname.symm.trans hname')
  rw [hstarts] at hstarts'
  cases hstarts'

/-- The characters of a word may all stand in one. -/
theorem IsWord.isWordChar_of_mem {name : String} (h : IsWord name) : ∀ c ∈ name.toList, isWordChar c = true := by
  obtain ⟨c, cs, hname, hstarts, hchars⟩ := h.exists_cons
  rw [hname]
  refine List.forall_mem_cons.2 ⟨?_, hchars⟩
  rw [startsWord, Bool.or_eq_true, Bool.and_eq_true] at hstarts
  rcases hstarts with hslash | ⟨hchar, -⟩
  · rw [eq_of_beq hslash]
    decide
  · rw [isWordChar, hchar]
    rfl

/-- There is no dot in a word. -/
theorem IsWord.dot_not_mem {name : String} (h : IsWord name) : '.' ∉ name.toList := fun hdot =>
  absurd (h.isWordChar_of_mem '.' hdot) (by decide)

/-- A text without quotes at its ends is kept when quotes are cut off. -/
theorem stripQuotes_eq_self {s : String} (h : ∀ c ∈ s.toList, Literal.isQuote c = false) : stripQuotes s = s := by
  have hfront : s.toList.dropWhile Literal.isQuote = s.toList := by
    rw [List.dropWhile_eq_self_iff]
    exact fun hpos => by rw [h _ (List.getElem_mem hpos)]; exact Bool.false_ne_true
  rw [← String.toList_inj, Literal.toList_stripQuotes, hfront, List.rdropWhile_eq_self_iff]
  exact fun hne => by rw [h _ (List.getLast_mem hne)]; exact Bool.false_ne_true

/-- A word is kept when quotes are cut off. -/
theorem IsWord.stripQuotes_eq_self {name : String} (h : IsWord name) : stripQuotes name = name := by
  refine TestScaffold.stripQuotes_eq_self fun c hc => ?_
  rw [Bool.eq_false_iff]
  intro hquote
  have hchar := h.isWordChar_of_mem c hc
  simp only [Literal.isQuote, Bool.or_eq_true, beq_iff_eq] at hquote
  rcases hquote with (rfl | rfl) | rfl <;> exact absurd hchar (by decide)

/-- A marked text that does not begin with a quote stays marked when quotes are cut off. -/
theorem IsMarked.stripQuotes {name : String} (h : IsMarked name)
    (hquote : ∀ c ∈ name.toList.head?, Literal.isQuote c = false) : IsMarked (stripQuotes name) := by
  obtain ⟨c, cs, hname, hstarts⟩ := h
  have hc : Literal.isQuote c = false := hquote c (by rw [hname]; rfl)
  have hlist : (TestScaffold.stripQuotes name).toList = (c :: cs).rdropWhile Literal.isQuote := by
    rw [Literal.toList_stripQuotes, hname, List.dropWhile_cons_of_neg (by rw [hc]; exact Bool.false_ne_true)]
  obtain ⟨d, ds, hfirst⟩ : ∃ d ds, (c :: cs).rdropWhile Literal.isQuote = d :: ds := by
    refine List.exists_cons_of_ne_nil fun hnil => ?_
    rw [List.rdropWhile_eq_nil_iff] at hnil
    rw [hnil c List.mem_cons_self] at hc
    cases hc
  obtain ⟨cut, hcut⟩ := List.rdropWhile_prefix Literal.isQuote (c :: cs)
  rw [hfirst, List.cons_append] at hcut
  obtain ⟨rfl, -⟩ := List.cons.inj hcut
  exact ⟨d, ds, hlist.trans hfirst, hstarts⟩

/-! ## Chains with dots -/

/-- The text of names with dots between them falls into the parts of each when it is cut at all dots. -/
theorem splitOn_dotted {names : List String} (hne : names ≠ []) :
    (dotted names).toList.splitOn '.' = names.flatMap fun name => name.toList.splitOn '.' := by
  induction names with
  | nil => exact absurd rfl hne
  | cons name rest ih =>
    cases rest with
    | nil => rw [dotted, String.intercalate_singleton, List.flatMap_singleton]
    | cons next rest =>
      have hdot : (dotted (name :: next :: rest)).toList =
          name.toList ++ '.' :: (dotted (next :: rest)).toList := by
        rw [dotted, String.intercalate_cons_cons, String.toList_append, String.toList_append,
          List.append_assoc]
        rfl
      rw [hdot, List.splitOn_append_cons_self, ih (List.cons_ne_nil _ _)]
      rfl

/-- A marked name has a part without a first character that begins a word. -/
theorem IsMarked.exists_part {name : String} (h : IsMarked name) :
    ∃ part ∈ name.toList.splitOn '.', ∀ c ∈ part.head?, startsWord c = false := by
  obtain ⟨c, cs, hname, hstarts⟩ := h
  rw [hname, List.splitOn_cons_eq_if_modifyHead]
  split
  · exact ⟨[], List.mem_cons_self, fun d hd => nomatch hd⟩
  · obtain ⟨part, parts, hparts⟩ := List.exists_cons_of_ne_nil (List.splitOn_ne_nil '.' cs)
    rw [hparts]
    refine ⟨c :: part, List.mem_cons_self, fun d hd => ?_⟩
    rw [← Option.some.inj hd]
    exact hstarts

/-- The words that are no names of variables. -/
def reservedWords : List String :=
  ["await", "break", "case", "catch", "class", "const", "continue", "debugger", "default", "delete", "do",
    "else", "enum", "export", "extends", "false", "finally", "for", "function", "if", "import", "in",
    "instanceof", "new", "null", "return", "super", "switch", "this", "throw", "true", "try", "typeof", "var",
    "void", "while", "with", "yield"]

/-- A text is a member access by plain names: words with dots between them, the first one the name of a
variable. -/
def IsAccess (text : String) : Prop :=
  ∃ head members, text = dotted (head :: members) ∧ head ∉ reservedWords ∧
    ∀ name ∈ head :: members, IsWord name

/-- **When names with dots between them are a member access**, given that each of them is a word or begins like
none: exactly if all of them are words and the first one is no reserved word. -/
theorem isAccess_dotted_iff {chain : List String} {head : String} (hhead : chain.head? = some head)
    (hnames : ∀ name ∈ chain, IsWord name ∨ IsMarked name) :
    IsAccess (dotted chain) ↔ head ∉ reservedWords ∧ ∀ name ∈ chain, IsWord name := by
  obtain ⟨members, rfl⟩ : ∃ members, chain = head :: members := ⟨chain.tail, List.eq_cons_of_mem_head? hhead⟩
  constructor
  · rintro ⟨head', members', htext, hfree, hwords⟩
    have hwhole : ∀ {names : List String}, (∀ name ∈ names, IsWord name) →
        (names.flatMap fun name => name.toList.splitOn '.') = names.map String.toList := fun hall => by
      rw [List.flatMap_congr fun name hname => List.splitOn_eq_singleton (hall name hname).dot_not_mem,
        List.map_eq_flatMap]
    have hparts : ((head :: members).flatMap fun name => name.toList.splitOn '.') =
        (head' :: members').map String.toList := by
      rw [← splitOn_dotted (List.cons_ne_nil _ _), htext, splitOn_dotted (List.cons_ne_nil _ _), hwhole hwords]
    have hall : ∀ name ∈ head :: members, IsWord name := by
      intro name hname
      refine (hnames name hname).resolve_right fun hmarked => ?_
      obtain ⟨part, hpart, hfirst⟩ := hmarked.exists_part
      have hin : part ∈ (head' :: members').map String.toList :=
        hparts ▸ List.mem_flatMap.2 ⟨name, hname, hpart⟩
      obtain ⟨word, hword, rfl⟩ := List.mem_map.1 hin
      obtain ⟨c, cs, hcons, hstarts, -⟩ := (hwords word hword).exists_cons
      rw [hfirst c (by rw [hcons]; rfl)] at hstarts
      cases hstarts
    rw [hwhole hall] at hparts
    have hsame : head :: members = head' :: members' :=
      List.map_injective_iff.2 (fun _ _ => String.toList_injective) hparts
    rw [(List.cons.inj hsame).1]
    exact ⟨hfree, (List.cons.inj hsame).1 ▸ hall⟩
  · rintro ⟨hfree, hall⟩
    exact ⟨head, members, rfl, hfree, hall⟩

end TestScaffold
