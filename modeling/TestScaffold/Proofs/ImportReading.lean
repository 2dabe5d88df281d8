import Mathlib.Data.List.Forall2
import TestScaffold.Scaffold.ImportLines
import TestScaffold.Proofs.ImportTokens

set_option autoImplicit false

/-!
# The reading of import statements

What an `import` statement in a text says: whether it is for types only, which names it binds to what, and
which module it names. A line that is written from bindings in an order the grammar has is read back with
just these bindings.

## Main definitions

* `TestScaffold.ImportReading`, `TestScaffold.ImportReading.ofText?` — what a statement says, and its
  reading.
* `TestScaffold.Binding.MayPrecede` — the order of bindings in a clause.
* `TestScaffold.Binding.WellNamed` — bindings whose names are names of the grammar.

## Main results

* `TestScaffold.ImportReading.ofText?_importLine` — a written line is read back.
* `TestScaffold.ImportReading.ofText?_importLine_sideEffect` — so is a line for a module that is loaded for what it
  does.
* `TestScaffold.ImportReading.bindings_ne_nil_of_ofText?` — a line with a clause that binds nothing is not.

## Implementation notes

The word `type` in front of a clause makes the statement one for types only, unless it is itself the default
binding; that is so before a comma and before `from` and a path. A modifier in front of a single member is
not read: no written line has one.
-/

namespace TestScaffold

/-- What an `import` statement says. -/
structure ImportReading where
  /-- Whether it is for types only. -/
  typeOnly : Bool
  /-- What it binds, in source order. -/
  bindings : List Binding
  /-- The module it names, as code units. -/
  path : List Nat
deriving DecidableEq, Repr

namespace ImportReading

/-! ## Reading tokens -/

/-- The binding of one member between braces. A string literal is no name to bind, so it needs another. -/
def member? : List Token → Option Binding
  | [.word name] => some (.member name name)
  | [.word imported, .word "as", .word localName] => some (.member imported localName)
  | [.string raw _, .word "as", .word localName] => some (.member raw localName)
  | _ => none

/-- The bindings of the members between braces. A comma may stand behind the last one. -/
def members? (inside : List Token) : Option (List Binding) :=
  let pieces := inside.splitOn (.mark ',')
  (if pieces.getLast? = some [] then pieces.dropLast else pieces).mapM member?

/-- The binding of the whole module or of members, and what comes after it. -/
def group? : List Token → Option (List Binding × List Token)
  | .mark '*' :: .word "as" :: .word name :: rest => some ([.whole name], rest)
  | .mark '\x7b' :: rest =>
    (members? (rest.takeWhile (· != .mark '\x7d'))).map fun bindings =>
      (bindings, (rest.dropWhile (· != .mark '\x7d')).drop 1)
  | _ => none

/-- The bindings of a clause, and what comes after it. -/
def bindings? : List Token → Option (List Binding × List Token)
  | .word name :: .mark ',' :: rest =>
    (group? rest).map fun (bindings, after) => (.default name :: bindings, after)
  | .word name :: rest => some ([.default name], rest)
  | rest => group? rest

/-- The path at the end of a statement. -/
def path? : List Token → Option (List Nat)
  | [.word "from", .string _ path, .mark ';'] => some path
  | _ => none

/-- The reading of a clause and a path. -/
def clause? (typeOnly : Bool) (ts : List Token) : Option ImportReading :=
  match bindings? ts with
  | none => none
  | some (bindings, rest) => (path? rest).map fun path => ⟨typeOnly, bindings, path⟩

/-- Whether the word `type` before these tokens is a modifier, not a name. -/
def modifies : List Token → Bool
  | .mark ',' :: _ => false
  | .word "from" :: .string _ _ :: _ => false
  | _ => true

/-- The reading of what follows the word `import`. -/
def afterImport? : List Token → Option ImportReading
  | [.string _ path, .mark ';'] => some ⟨false, [], path⟩
  | .word name :: rest =>
    if name = "type" ∧ modifies rest then clause? true rest else clause? false (.word name :: rest)
  | rest => clause? false rest

/-- The reading of an `import` statement. -/
def ofTokens? : List Token → Option ImportReading
  | .word "import" :: rest => afterImport? rest
  | _ => none

/-- The reading of a text that is an `import` statement. -/
def ofText? (text : String) : Option ImportReading := (tokens? text.toList).bind ofTokens?

example : (ofText? "import type, \x7b default as a, 'b c' as b, \x7d from 'x';").map (·.bindings) =
    some [.default "type", .member "default" "a", .member "'b c'" "b"] := by decide

end ImportReading

/-! ## Bindings as they are written -/

namespace Binding

/-- Whether one binding may stand before another in a clause: the default export comes first, and the whole
module is not bound beside members. -/
def MayPrecede : Binding → Binding → Prop
  | .default _, .whole _ | .default _, .member _ _ | .member _ _, .member _ _ => True
  | _, _ => False

/-- A binding has names that the grammar takes: words, or a literal for an export that gets another name. -/
inductive WellNamed : Binding → Prop
  | default {name : String} (h : IsWord name) : WellNamed (.default name)
  | whole {name : String} (h : IsWord name) : WellNamed (.whole name)
  | member {imported localName : String}
      (himported : IsWord imported ∨ (Literal.value? imported).isSome = true)
      (hlocal : IsWord localName) : WellNamed (.member imported localName)

/-- The token of the name of an export. -/
def nameToken (name : String) : Token :=
  if IsWord name then .word name else .string name ((Literal.value? name).getD [])

/-- The tokens of a binding outside of braces. -/
def bareTokens? : Binding → Option (List Token)
  | .default name => some [.word name]
  | .whole name => some [.mark '*', .word "as", .word name]
  | .member _ _ => none

/-- The tokens of a binding between braces. -/
def memberTokens? : Binding → Option (List Token)
  | .member imported localName =>
    some (if imported = localName then [.word localName]
      else [nameToken imported, .word "as", .word localName])
  | _ => none

/-- The tokens of bindings between braces. -/
def groupTokens (members : List (List Token)) : List Token :=
  .mark '\x7b' :: ([Token.mark ','].intercalate members ++ [.mark '\x7d'])

/-- The tokens of a clause. -/
def clauseTokens (bindings : List Binding) : List Token :=
  let members := bindings.filterMap memberTokens?
  [Token.mark ','].intercalate
    (bindings.filterMap bareTokens? ++ if members.isEmpty then [] else [groupTokens members])

end Binding

theorem spells_nameToken {name : String} (h : IsWord name ∨ (Literal.value? name).isSome = true) :
    Spells name [Binding.nameToken name] := by
  unfold Binding.nameToken
  split
  · next hword => exact spells_word hword
  · next hword =>
    obtain ⟨v, hv⟩ := Option.isSome_iff_exists.1 (h.resolve_left hword)
    rw [hv]
    exact spells_string hv

/-- Members are written with their tokens. -/
theorem forall₂_memberTokens {bindings : List Binding} (h : ∀ b ∈ bindings, b.WellNamed) :
    List.Forall₂ Spells (bindings.filterMap memberClause?) (bindings.filterMap Binding.memberTokens?) := by
  induction bindings with
  | nil => exact .nil
  | cons b bindings ih =>
    have htail := ih fun b' hb' => h b' (List.mem_cons_of_mem _ hb')
    cases h b List.mem_cons_self with
    | default hname => exact htail
    | whole hname => exact htail
    | @member imported localName himported hlocal =>
      refine .cons ?_ htail
      unfold renamed
      by_cases heq : imported = localName
      · rw [if_pos heq, if_pos (beq_iff_eq.2 heq)]
        exact spells_word hlocal
      · rw [if_neg heq, if_neg (fun hbeq => heq (beq_iff_eq.1 hbeq))]
        have has : Spells "as" [.word "as"] := spells_word (by decide)
        have hline : imported ++ " as " ++ localName = imported ++ " " ++ "as" ++ " " ++ localName :=
          String.toList_inj.1 (by simp)
        rw [hline]
        exact ((spells_nameToken himported).append has).append (spells_word hlocal)

/-- Bindings outside of braces are written with their tokens. -/
theorem forall₂_bareTokens {bindings : List Binding} (h : ∀ b ∈ bindings, b.WellNamed) :
    List.Forall₂ Spells (bindings.filterMap bareClause?) (bindings.filterMap Binding.bareTokens?) := by
  induction bindings with
  | nil => exact .nil
  | cons b bindings ih =>
    have htail := ih fun b' hb' => h b' (List.mem_cons_of_mem _ hb')
    cases h b List.mem_cons_self with
    | default hname => exact .cons (spells_word hname) htail
    | @whole name hname =>
      have hstar : Spells "*" [.mark '*'] := .of_run rfl
      have has : Spells "as" [.word "as"] := spells_word (by decide)
      have hline : "* as " ++ name = "*" ++ " " ++ "as" ++ " " ++ name :=
        String.toList_inj.1 (by simp)
      refine .cons ?_ htail
      rw [hline]
      exact (hstar.append has).append (spells_word hname)
    | member himported hlocal => exact htail

/-- A clause is written with its tokens. -/
theorem spells_importClause {bindings : List Binding} (h : ∀ b ∈ bindings, b.WellNamed) :
    Spells (importClause bindings) (Binding.clauseTokens bindings) := by
  have hmembers := forall₂_memberTokens h
  have hempty : (bindings.filterMap memberClause?).isEmpty =
      (bindings.filterMap Binding.memberTokens?).isEmpty := by
    rw [Bool.eq_iff_iff, List.isEmpty_iff_length_eq_zero, List.isEmpty_iff_length_eq_zero,
      hmembers.length_eq]
  refine Spells.commaSeparated (List.rel_append (forall₂_bareTokens h) ?_)
  rw [hempty]
  split
  · exact .nil
  · refine .cons ?_ .nil
    have hopen : Spells "\x7b" [.mark '\x7b'] := .of_run rfl
    have hclose : Spells "\x7d" [.mark '\x7d'] := .of_run rfl
    have hline : ∀ inside : String,
        "\x7b " ++ inside ++ " \x7d" = "\x7b" ++ " " ++ inside ++ " " ++ "\x7d" :=
      fun inside => String.toList_inj.1 (by simp)
    rw [braced, hline]
    exact (hopen.append (.commaSeparated hmembers)).append hclose

/-! ## Written clauses are read back -/

/-- What stands in a list with separators is a separator or stands in one of its parts. -/
theorem mem_intercalate {α : Type} {sep x : α} {parts : List (List α)} (h : x ∈ [sep].intercalate parts) :
    x = sep ∨ ∃ part ∈ parts, x ∈ part := by
  induction parts with
  | nil => cases h
  | cons part parts ih =>
    cases parts with
    | nil =>
      rw [List.intercalate_singleton] at h
      exact .inr ⟨part, List.mem_cons_self, h⟩
    | cons next parts =>
      rw [List.intercalate_cons_cons, List.mem_append, List.mem_append, List.mem_singleton] at h
      rcases h with (hpart | rfl) | hrest
      · exact .inr ⟨part, List.mem_cons_self, hpart⟩
      · exact .inl rfl
      · exact (ih hrest).imp_right fun ⟨p, hp, hx⟩ => ⟨p, List.mem_cons_of_mem _ hp, hx⟩

namespace Binding

/-- Whether a binding stands between braces. -/
def isMember : Binding → Bool
  | .member _ _ => true
  | _ => false

theorem exists_of_isMember {b : Binding} (h : b.isMember = true) :
    ∃ imported localName, b = .member imported localName := by
  cases b with
  | member imported localName => exact ⟨imported, localName, rfl⟩
  | default name => cases h
  | whole name => cases h

/-- The clauses of the grammar that bind something. -/
inductive ClauseForm : List Binding → Prop
  | default (name : String) : ClauseForm [.default name]
  | whole (name : String) : ClauseForm [.whole name]
  | members {bindings : List Binding} (hne : bindings ≠ [])
      (h : ∀ b ∈ bindings, b.isMember = true) : ClauseForm bindings
  | defaultWhole (name whole : String) : ClauseForm [.default name, .whole whole]
  | defaultMembers (name : String) {bindings : List Binding} (hne : bindings ≠ [])
      (h : ∀ b ∈ bindings, b.isMember = true) : ClauseForm (.default name :: bindings)

/-- Bindings behind a member are members. -/
theorem isMember_of_pairwise {b : Binding} {bindings : List Binding} (hb : b.isMember = true)
    (horder : (b :: bindings).Pairwise MayPrecede) : ∀ b' ∈ b :: bindings, b'.isMember = true := by
  intro b' hb'
  rcases List.mem_cons.1 hb' with rfl | hmem
  · exact hb
  · have hmay := List.rel_of_pairwise_cons horder hmem
    obtain ⟨imported, localName, rfl⟩ := exists_of_isMember hb
    cases b' with
    | member imported' localName' => rfl
    | default name => exact hmay.elim
    | whole name => exact hmay.elim

/-- Bindings in an order of the grammar form a clause. -/
theorem ClauseForm.of_pairwise {bindings : List Binding} (hne : bindings ≠ [])
    (horder : bindings.Pairwise MayPrecede) : ClauseForm bindings := by
  cases bindings with
  | nil => exact absurd rfl hne
  | cons b bindings =>
    cases b with
    | member imported localName => exact .members hne (isMember_of_pairwise rfl horder)
    | whole name =>
      cases bindings with
      | nil => exact .whole name
      | cons b' bindings => exact (List.rel_of_pairwise_cons horder List.mem_cons_self).elim
    | default name =>
      cases bindings with
      | nil => exact .default name
      | cons b' bindings =>
        have hmay := List.rel_of_pairwise_cons horder List.mem_cons_self
        have htail := (List.pairwise_cons.1 horder).2
        cases b' with
        | default name' => exact hmay.elim
        | whole name' =>
          cases bindings with
          | nil => exact .defaultWhole name name'
          | cons b'' bindings => exact (List.rel_of_pairwise_cons htail List.mem_cons_self).elim
        | member imported localName =>
          exact .defaultMembers name (List.cons_ne_nil _ _) (isMember_of_pairwise rfl htail)

/-- The token of a name is not punctuation. -/
theorem nameToken_ne_mark (name : String) (c : Char) : nameToken name ≠ .mark c := by
  unfold nameToken
  split <;> simp

/-- A binding between braces has the token of its name, or those of two names and `as`. -/
theorem cases_memberTokens? {b : Binding} {ts : List Token} (h : b.memberTokens? = some ts) :
    (∃ name, b = .member name name ∧ ts = [.word name]) ∨
      ∃ imported localName, b = .member imported localName ∧
        ts = [nameToken imported, .word "as", .word localName] := by
  cases b with
  | default name => cases h
  | whole name => cases h
  | member imported localName =>
    obtain rfl := Option.some.inj h
    split
    · next heq => exact .inl ⟨localName, by rw [heq], rfl⟩
    · exact .inr ⟨imported, localName, rfl, rfl⟩

/-- The tokens of a member have no punctuation, and there are some. -/
theorem ne_mark_of_memberTokens? {b : Binding} {ts : List Token} (h : b.memberTokens? = some ts) :
    ts ≠ [] ∧ ∀ c, Token.mark c ∉ ts := by
  rcases cases_memberTokens? h with ⟨name, -, rfl⟩ | ⟨imported, localName, -, rfl⟩
  · exact ⟨List.cons_ne_nil _ _, fun c => by simp⟩
  · exact ⟨List.cons_ne_nil _ _, fun c => by simp [(nameToken_ne_mark imported c).symm]⟩

/-- The tokens of a member are read back. -/
theorem member?_of_memberTokens? {b : Binding} {ts : List Token} (h : b.memberTokens? = some ts) :
    ImportReading.member? ts = some b := by
  rcases cases_memberTokens? h with ⟨name, rfl, rfl⟩ | ⟨imported, localName, rfl, rfl⟩
  · rfl
  · unfold nameToken
    split <;> rfl

end Binding

namespace ImportReading

variable {bindings : List Binding}

/-- Members are read back one by one. -/
theorem mapM_member? (h : ∀ b ∈ bindings, b.isMember = true) :
    (bindings.filterMap Binding.memberTokens?).mapM member? = some bindings := by
  induction bindings with
  | nil => rfl
  | cons b bindings ih =>
    obtain ⟨imported, localName, rfl⟩ := Binding.exists_of_isMember (h b List.mem_cons_self)
    have htail := ih fun b hb => h b (List.mem_cons_of_mem _ hb)
    obtain ⟨ts, hts⟩ : ∃ ts, (Binding.member imported localName).memberTokens? = some ts := ⟨_, rfl⟩
    rw [List.filterMap_cons_some hts, List.mapM_cons, Binding.member?_of_memberTokens? hts, htail]
    rfl

/-- Of some members there are some tokens. -/
theorem isEmpty_filterMap_memberTokens? (hne : bindings ≠ []) (h : ∀ b ∈ bindings, b.isMember = true) :
    (bindings.filterMap Binding.memberTokens?).isEmpty = false := by
  rw [List.isEmpty_eq_false_iff]
  intro hnil
  have hread := mapM_member? h
  rw [hnil] at hread
  exact hne (Option.some.inj hread).symm

/-- Members with commas between them are read back. -/
theorem members?_intercalate (hne : bindings ≠ []) (h : ∀ b ∈ bindings, b.isMember = true) :
    members? ([Token.mark ','].intercalate (bindings.filterMap Binding.memberTokens?)) = some bindings := by
  have hparts : ∀ ts ∈ bindings.filterMap Binding.memberTokens?, ts ≠ [] ∧ Token.mark ',' ∉ ts := by
    intro ts hts
    obtain ⟨b, -, hb⟩ := List.mem_filterMap.1 hts
    have hmark := Binding.ne_mark_of_memberTokens? hb
    exact ⟨hmark.1, hmark.2 ','⟩
  have hsome : bindings.filterMap Binding.memberTokens? ≠ [] :=
    List.isEmpty_eq_false_iff.1 (isEmpty_filterMap_memberTokens? hne h)
  have hlast : (bindings.filterMap Binding.memberTokens?).getLast? ≠ some [] := fun hend =>
    (hparts [] (List.mem_of_getLast? hend)).1 rfl
  rw [members?, List.splitOn_intercalate _ (fun ts hts => (hparts ts hts).2) hsome, if_neg hlast,
    mapM_member? h]

/-- Members between braces are read back, whatever follows. -/
theorem group?_groupTokens (hne : bindings ≠ []) (h : ∀ b ∈ bindings, b.isMember = true)
    (rest : List Token) :
    group? (Binding.groupTokens (bindings.filterMap Binding.memberTokens?) ++ rest) =
      some (bindings, rest) := by
  have hinside : ∀ t ∈ [Token.mark ','].intercalate (bindings.filterMap Binding.memberTokens?),
      (t != .mark '\x7d') = true := by
    intro t ht
    rw [bne_iff_ne]
    rintro rfl
    rcases mem_intercalate ht with heq | ⟨ts, hts, hmem⟩
    · simp at heq
    · obtain ⟨b, -, hb⟩ := List.mem_filterMap.1 hts
      exact (Binding.ne_mark_of_memberTokens? hb).2 _ hmem
  have hstop : ¬((Token.mark '\x7d' != .mark '\x7d') = true) := by simp
  rw [Binding.groupTokens, List.cons_append, List.append_assoc, group?,
    List.takeWhile_append_of_pos hinside, List.dropWhile_append_of_pos hinside, List.singleton_append,
    List.takeWhile_cons_of_neg (p := fun t => t != Token.mark '\x7d') hstop,
    List.dropWhile_cons_of_neg (p := fun t => t != Token.mark '\x7d') hstop, List.append_nil,
    members?_intercalate hne h]
  rfl

theorem filterMap_bareTokens?_of_isMember (h : ∀ b ∈ bindings, b.isMember = true) :
    bindings.filterMap Binding.bareTokens? = [] := by
  rw [List.filterMap_eq_nil_iff]
  intro b hb
  obtain ⟨imported, localName, rfl⟩ := Binding.exists_of_isMember (h b hb)
  rfl

theorem clauseTokens_of_isMember (hne : bindings ≠ []) (h : ∀ b ∈ bindings, b.isMember = true) :
    Binding.clauseTokens bindings = Binding.groupTokens (bindings.filterMap Binding.memberTokens?) := by
  simp only [Binding.clauseTokens, filterMap_bareTokens?_of_isMember h,
    isEmpty_filterMap_memberTokens? hne h, Bool.false_eq_true, if_false, List.nil_append,
    List.intercalate_singleton]

theorem clauseTokens_default_cons (name : String) (hne : bindings ≠ [])
    (h : ∀ b ∈ bindings, b.isMember = true) :
    Binding.clauseTokens (.default name :: bindings) =
      .word name :: .mark ',' :: Binding.groupTokens (bindings.filterMap Binding.memberTokens?) := by
  have hbare : (Binding.default name :: bindings).filterMap Binding.bareTokens? = [[.word name]] := by
    rw [List.filterMap_cons_some (f := Binding.bareTokens?) rfl, filterMap_bareTokens?_of_isMember h]
  have hmembers : (Binding.default name :: bindings).filterMap Binding.memberTokens? =
      bindings.filterMap Binding.memberTokens? :=
    List.filterMap_cons_none rfl
  simp only [Binding.clauseTokens, hbare, hmembers, isEmpty_filterMap_memberTokens? hne h,
    Bool.false_eq_true, if_false, List.singleton_append, List.intercalate_cons_cons,
    List.intercalate_singleton]
  rfl

/-- A clause is read back, if `from` follows. -/
theorem bindings?_clauseTokens (h : Binding.ClauseForm bindings) (rest : List Token) :
    bindings? (Binding.clauseTokens bindings ++ .word "from" :: rest) =
      some (bindings, .word "from" :: rest) := by
  -- Without braces the tokens are fixed but for names, and reading them is a computation.
  cases h with
  | default name => rfl
  | whole name => rfl
  | members hne h =>
    rw [clauseTokens_of_isMember hne h]
    exact group?_groupTokens hne h _
  | defaultWhole name whole => rfl
  | defaultMembers name hne h =>
    rw [clauseTokens_default_cons name hne h, List.cons_append, List.cons_append, bindings?,
      group?_groupTokens hne h]
    rfl

/-! ## Written lines are read back -/

variable (raw : String) (path : List Nat)

/-- The tokens behind a clause. -/
def pathTokens : List Token := [.word "from", .string raw path, .mark ';']

theorem clause?_clauseTokens (h : Binding.ClauseForm bindings) (typeOnly : Bool) :
    clause? typeOnly (Binding.clauseTokens bindings ++ pathTokens raw path) =
      some ⟨typeOnly, bindings, path⟩ := by
  rw [clause?, pathTokens, bindings?_clauseTokens h]
  rfl

/-- A clause behind the word `type` is one for types only. -/
theorem afterImport?_type (h : Binding.ClauseForm bindings) :
    afterImport? (.word "type" :: (Binding.clauseTokens bindings ++ pathTokens raw path)) =
      some ⟨true, bindings, path⟩ := by
  have hmodifies : modifies (Binding.clauseTokens bindings ++ pathTokens raw path) = true := by
    cases h with
    | default name =>
      simp [Binding.clauseTokens, Binding.bareTokens?, Binding.memberTokens?, pathTokens, modifies]
    | whole name => rfl
    | members hne h =>
      rw [clauseTokens_of_isMember hne h]
      rfl
    | defaultWhole name whole =>
      simp [Binding.clauseTokens, Binding.bareTokens?, Binding.memberTokens?, pathTokens, modifies]
    | defaultMembers name hne h =>
      rw [clauseTokens_default_cons name hne h]
      simp [modifies]
  rw [afterImport?, if_pos ⟨rfl, hmodifies⟩, clause?_clauseTokens raw path h]

/-- A clause alone is not one for types only, even if the default export is called `type`. -/
theorem afterImport?_clauseTokens (h : Binding.ClauseForm bindings) :
    afterImport? (Binding.clauseTokens bindings ++ pathTokens raw path) = some ⟨false, bindings, path⟩ := by
  have hclause : afterImport? (Binding.clauseTokens bindings ++ pathTokens raw path) =
      clause? false (Binding.clauseTokens bindings ++ pathTokens raw path) := by
    -- Behind a default binding stands a comma or the path, and neither lets `type` be a modifier.
    cases h with
    | default name => exact if_neg (fun hboth => Bool.false_ne_true hboth.2)
    | whole name => rfl
    | members hne h =>
      rw [clauseTokens_of_isMember hne h]
      rfl
    | defaultWhole name whole => exact if_neg (fun hboth => Bool.false_ne_true hboth.2)
    | defaultMembers name hne h =>
      rw [clauseTokens_default_cons name hne h]
      exact if_neg (fun hboth => Bool.false_ne_true hboth.2)
  rw [hclause, clause?_clauseTokens raw path h]

end ImportReading

/-- A text, a blank, a literal and a semicolon give the tokens of the text and those of the literal. -/
theorem Spells.tokens?_line {head : String} {ts : List Token} (h : Spells head ts) (m : String) :
    tokens? (head ++ " " ++ quoted m ++ ";").toList =
      (Literal.value? (quoted m)).map fun path => ts ++ [.string (quoted m) path, .mark ';'] := by
  have hlist : (head ++ " " ++ quoted m ++ ";").toList =
      head.toList ++ ' ' :: ((quoted m).toList ++ [';']) := by
    simp
  rw [hlist, h ' ' (by decide), tokens?_space, tokens?_quoted_semicolon, Option.map_map]
  rfl

/-- The tokens of a written line that has a clause. -/
theorem tokens?_importLine {d : Import} (hkind : d.kind ≠ .sideEffect)
    (hnamed : ∀ b ∈ d.bindings, b.WellNamed) :
    tokens? (importLine d).toList =
      (Literal.value? (quoted d.modulePath)).map fun path =>
        .word "import" :: ((if d.typeOnly then [Token.word "type"] else []) ++
          (Binding.clauseTokens d.bindings ++ ImportReading.pathTokens (quoted d.modulePath) path)) := by
  have himport : Spells "import" [.word "import"] := spells_word (by decide)
  have htype : Spells "type" [.word "type"] := spells_word (by decide)
  have hfrom : Spells "from" [.word "from"] := spells_word (by decide)
  have hclause := spells_importClause hnamed
  have hsides : ¬(d.kind == .sideEffect) = true := by simpa using hkind
  rw [importLine, if_neg hsides]
  cases d.typeOnly with
  | false =>
    have hline : "import " ++ (if false then "type " else "") ++ importClause d.bindings ++ " from " ++
        quoted d.modulePath ++ ";" =
          "import" ++ " " ++ importClause d.bindings ++ " " ++ "from" ++ " " ++ quoted d.modulePath ++ ";" :=
      String.toList_inj.1 (by simp)
    rw [hline, ((himport.append hclause).append hfrom).tokens?_line]
    simp [ImportReading.pathTokens]
  | true =>
    have hline : "import " ++ (if true then "type " else "") ++ importClause d.bindings ++ " from " ++
        quoted d.modulePath ++ ";" =
          "import" ++ " " ++ "type" ++ " " ++ importClause d.bindings ++ " " ++ "from" ++ " " ++
            quoted d.modulePath ++ ";" :=
      String.toList_inj.1 (by simp)
    rw [hline, (((himport.append htype).append hclause).append hfrom).tokens?_line]
    simp [ImportReading.pathTokens]

namespace ImportReading

/-- **A written line is read back**: it says just what it was written from, if its bindings stand in an order
of the grammar, with names of the grammar, and its path denotes what it denotes in double quotes. -/
theorem ofText?_importLine {d : Import} (hkind : d.kind ≠ .sideEffect) (hne : d.bindings ≠ [])
    (horder : d.bindings.Pairwise Binding.MayPrecede) (hnamed : ∀ b ∈ d.bindings, b.WellNamed) :
    ofText? (importLine d) =
      (Literal.value? (quoted d.modulePath)).map fun path => ⟨d.typeOnly, d.bindings, path⟩ := by
  have hform := Binding.ClauseForm.of_pairwise hne horder
  rw [ofText?, tokens?_importLine hkind hnamed]
  cases Literal.value? (quoted d.modulePath) with
  | none => rfl
  | some path =>
    cases d.typeOnly with
    | false => exact afterImport?_clauseTokens _ _ hform
    | true => exact afterImport?_type _ _ hform

/-- A line written for a module that is loaded for what it does is read back. -/
theorem ofText?_importLine_sideEffect {d : Import} (hkind : d.kind = .sideEffect) :
    ofText? (importLine d) =
      (Literal.value? (quoted d.modulePath)).map fun path => ⟨false, [], path⟩ := by
  have himport : Spells "import" [.word "import"] := spells_word (by decide)
  have hsides : (d.kind == .sideEffect) = true := by simpa using hkind
  have hline : importLine d = "import" ++ " " ++ quoted d.modulePath ++ ";" := by
    rw [importLine, if_pos hsides]
    rfl
  rw [ofText?, hline, himport.tokens?_line]
  cases Literal.value? (quoted d.modulePath) with
  | none => rfl
  | some path => rfl

/-- A line written with a clause that binds nothing is no `import` statement or, for types only, one that
binds the word `type`. -/
theorem bindings_ne_nil_of_ofText? {d : Import} (hkind : d.kind ≠ .sideEffect) (hnil : d.bindings = [])
    {r : ImportReading} (h : ofText? (importLine d) = some r) : r.bindings ≠ [] := by
  have hnamed : ∀ b ∈ d.bindings, b.WellNamed := by
    intro b hb
    rw [hnil] at hb
    cases hb
  rw [ofText?, tokens?_importLine hkind hnamed, hnil] at h
  cases hpath : Literal.value? (quoted d.modulePath) with
  | none =>
    rw [hpath] at h
    cases h
  | some path =>
    rw [hpath] at h
    cases htype : d.typeOnly with
    | false =>
      rw [htype] at h
      cases h
    | true =>
      rw [htype] at h
      cases h
      exact List.cons_ne_nil _ _

end ImportReading

end TestScaffold
