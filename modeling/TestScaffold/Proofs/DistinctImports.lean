import TestScaffold.Proofs.ImportReading

set_option autoImplicit false

/-!
# Distinct imports have distinct lines

The line of an import loses nothing: an import that has a form of the grammar can be told from its line. It does
not matter what its names are, so the words of the grammar, `type`, `as` and `from`, may be among them. Nor does it
matter what its path is. A path may hold any text, also one that looks like the end of another line.

The proofs divide a line where the characters of one part end. A text of name characters before something that
does not go on with one is determined by the whole, and so is what follows it.

## Main definitions

* `TestScaffold.IsNameText` — a text of name characters.
* `TestScaffold.Import.OfGrammar` — the imports that the grammar has.
* `TestScaffold.Binding.GroupForm` — the parts of a clause that may stand behind a default binding.
* `TestScaffold.Binding.ClauseParts` — a written clause, divided behind its default binding.

## Main results

* `TestScaffold.append_inj_of_stop` — a text is divided where characters of a class end.
* `TestScaffold.commaSeparated_inj`, `TestScaffold.renamed_inj` — lists and members can be told from their text.
* `TestScaffold.quoted_injective` — so can a text from its literal.
* `TestScaffold.Binding.importClause_inj` — so can the bindings of a clause.
* `TestScaffold.importLine_inj` — so can an import from its line.
-/

namespace TestScaffold

/-! ## Dividing a text -/

/-- What has the property up to where it is lost is determined by the whole, and so is what follows. -/
theorem append_inj_of_stop {α : Type} {p : α → Bool} {u v x y : List α} (hu : ∀ a ∈ u, p a = true)
    (hv : ∀ a ∈ v, p a = true) (hx : ∀ a ∈ x.head?, p a = false) (hy : ∀ a ∈ y.head?, p a = false)
    (h : u ++ x = v ++ y) : u = v ∧ x = y := by
  have hfront : ∀ w z : List α, (∀ a ∈ w, p a = true) → (∀ a ∈ z.head?, p a = false) →
      (w ++ z).takeWhile p = w := by
    intro w z hw hz
    rw [List.takeWhile_append_of_pos hw]
    cases z with
    | nil => rw [List.takeWhile_nil, List.append_nil]
    | cons a z => rw [List.takeWhile_cons_of_neg (ne_true_of_eq_false (hz a rfl)), List.append_nil]
  obtain rfl : u = v := by rw [← hfront u x hu hx, h, hfront v y hv hy]
  exact ⟨rfl, List.append_cancel_left h⟩

/-- What follows the first of several texts with commas between them. -/
def commaTail (ss : List String) : List Char :=
  if ss = [] then [] else ',' :: ' ' :: (commaSeparated ss).toList

/-- The first of several texts with commas between them comes first. -/
theorem toList_commaSeparated_cons (s : String) (ss : List String) :
    (commaSeparated (s :: ss)).toList = s.toList ++ commaTail ss := by
  cases ss with
  | nil => simp [commaSeparated, commaTail]
  | cons t ss => simp [commaSeparated, commaTail, String.intercalate_cons_cons]

/-- Texts with commas between them can be told apart, if there are none inside. -/
theorem commaSeparated_inj {ss ts : List String} (hs : ∀ s ∈ ss, ',' ∉ s.toList)
    (ht : ∀ t ∈ ts, ',' ∉ t.toList) (hss : ss ≠ []) (hts : ts ≠ [])
    (h : commaSeparated ss = commaSeparated ts) : ss = ts := by
  have hplain : ∀ s : String, ',' ∉ s.toList → ∀ c ∈ s.toList, (c != ',') = true := fun s hno c hc =>
    bne_iff_ne.2 fun heq => hno (heq ▸ hc)
  have hstop : ∀ ss : List String, ∀ c ∈ (commaTail ss).head?, (c != ',') = false := by
    intro ss c hc
    rw [commaTail] at hc
    split at hc
    · cases hc
    · obtain rfl := Option.some.inj hc
      rfl
  induction ss generalizing ts with
  | nil => exact absurd rfl hss
  | cons s ss ih =>
    cases ts with
    | nil => exact absurd rfl hts
    | cons t ts =>
      rw [List.forall_mem_cons] at hs ht
      have hlist := congrArg String.toList h
      rw [toList_commaSeparated_cons, toList_commaSeparated_cons] at hlist
      obtain ⟨hfirst, hrest⟩ :=
        append_inj_of_stop (hplain s hs.1) (hplain t ht.1) (hstop ss) (hstop ts) hlist
      rw [String.toList_inj.1 hfirst]
      rw [commaTail, commaTail] at hrest
      split_ifs at hrest with hnil hnil' hnil'
      · rw [hnil, hnil']
      · have hlists := String.toList_inj.1 (List.cons.inj (List.cons.inj hrest).2).2
        rw [ih hs.2 ht.2 hnil hnil' hlists]

/-- Commas and blanks are all that is written between texts. -/
theorem not_mem_commaSeparated {c : Char} {ss : List String} (hc : c ∉ [',', ' '])
    (h : ∀ s ∈ ss, c ∉ s.toList) : c ∉ (commaSeparated ss).toList := by
  induction ss with
  | nil => exact List.not_mem_nil
  | cons s ss ih =>
    rw [List.forall_mem_cons] at h
    rw [toList_commaSeparated_cons, commaTail]
    split
    · rw [List.append_nil]
      exact h.1
    · have hrest := ih h.2
      simp_all

/-- A text can be told from its literal. -/
theorem quoted_injective : Function.Injective quoted := by
  intro s t h
  have hbody := (List.cons.inj (String.ofList_injective h)).2
  have hread := congrArg Literal.scan hbody
  rw [Literal.scan_escape_append, Literal.scan_escape_append] at hread
  exact String.toList_inj.1 (congrArg Prod.fst (Option.some.inj hread))

/-! ## Names -/

/-- `IsNameText name`: the text is made of characters that may stand in a word, and there are some. -/
structure IsNameText (name : String) : Prop where
  /-- There is a character. -/
  nonempty : name ≠ ""
  /-- Each character may stand in a word. -/
  chars : ∀ c ∈ name.toList, isNameChar c = true

instance (name : String) : Decidable (IsNameText name) :=
  decidable_of_iff (name ≠ "" ∧ name.toList.all isNameChar = true)
    ⟨fun h => ⟨h.1, List.all_eq_true.1 h.2⟩, fun h => ⟨h.nonempty, List.all_eq_true.2 h.chars⟩⟩

/-- A character that may not stand in a word is not in a name. -/
theorem IsNameText.not_mem {name : String} (h : IsNameText name) {c : Char} (hc : isNameChar c = false) :
    c ∉ name.toList := fun hmem => Bool.false_ne_true (hc.symm.trans (h.chars c hmem))

/-- What follows the first name in the text of a member. -/
def renamedTail (a b : String) : List Char :=
  if a = b then [] else ' ' :: 'a' :: 's' :: ' ' :: b.toList

/-- The first name of a member comes first in its text. -/
theorem toList_renamed (a b : String) : (renamed a b).toList = a.toList ++ renamedTail a b := by
  rw [renamed, renamedTail]
  by_cases h : a = b
  · simp [h]
  · simp [h]

/-- Blanks and the word `as` are all that is written between the names of a member. -/
theorem not_mem_renamed {c : Char} {a b : String} (hc : c ∉ [' ', 'a', 's']) (ha : c ∉ a.toList)
    (hb : c ∉ b.toList) : c ∉ (renamed a b).toList := by
  rw [toList_renamed, renamedTail]
  split
  · rw [List.append_nil]
    exact ha
  · simp_all

/-- A member can be told from its text. -/
theorem renamed_inj {a b a' b' : String} (ha : IsNameText a) (ha' : IsNameText a')
    (h : renamed a b = renamed a' b') : a = a' ∧ b = b' := by
  have hstop : ∀ a b : String, ∀ c ∈ (renamedTail a b).head?, isNameChar c = false := by
    intro a b c hc
    rw [renamedTail] at hc
    split at hc
    · cases hc
    · obtain rfl := Option.some.inj hc
      decide
  have hlist := congrArg String.toList h
  rw [toList_renamed, toList_renamed] at hlist
  obtain ⟨hfirst, hrest⟩ := append_inj_of_stop ha.chars ha'.chars (hstop a b) (hstop a' b') hlist
  obtain rfl := String.toList_inj.1 hfirst
  rw [renamedTail, renamedTail] at hrest
  split_ifs at hrest with hab hab' hab'
  · exact ⟨rfl, hab.symm.trans hab'⟩
  · have hsecond : [' ', 'a', 's', ' '] ++ b.toList = [' ', 'a', 's', ' '] ++ b'.toList := hrest
    exact ⟨rfl, String.toList_inj.1 (List.append_cancel_left hsecond)⟩

namespace Binding

/-- The names in a binding. -/
def names : Binding → List String
  | .default name => [name]
  | .whole name => [name]
  | .member imported localName => [imported, localName]

/-- `Named bindings`: all names in the bindings are made of name characters. -/
def Named (bindings : List Binding) : Prop := ∀ b ∈ bindings, ∀ name ∈ b.names, IsNameText name

instance (bindings : List Binding) : Decidable (Named bindings) :=
  inferInstanceAs (Decidable (∀ b ∈ bindings, ∀ name ∈ b.names, IsNameText name))

/-! ## Clauses -/

/-- The bindings that may stand behind a default binding: the whole module, or members. -/
inductive GroupForm : List Binding → Prop where
  /-- The whole module is bound. -/
  | whole (name : String) : GroupForm [.whole name]
  /-- Members are bound. -/
  | members {bindings : List Binding} (hne : bindings ≠ []) (h : ∀ b ∈ bindings, b.isMember = true) :
    GroupForm bindings

section Clauses

variable {bindings others : List Binding}

/-- Members are written between braces. -/
theorem importClause_of_isMember (hne : bindings ≠ []) (h : ∀ b ∈ bindings, b.isMember = true) :
    importClause bindings = braced (bindings.filterMap memberClause?) ∧ bindings.filterMap memberClause? ≠ [] ∧
      ∀ name, importClause (.default name :: bindings) =
        name ++ ", " ++ braced (bindings.filterMap memberClause?) := by
  have hbare : bindings.filterMap bareClause? = [] := by
    rw [List.filterMap_eq_nil_iff]
    intro b hb
    obtain ⟨imported, localName, rfl⟩ := exists_of_isMember (h b hb)
    rfl
  have hsome : bindings.filterMap memberClause? ≠ [] := by
    obtain ⟨b, bindings, rfl⟩ := List.exists_cons_of_ne_nil hne
    obtain ⟨imported, localName, rfl⟩ := exists_of_isMember (h b List.mem_cons_self)
    exact List.cons_ne_nil _ _
  have hempty : (bindings.filterMap memberClause?).isEmpty = false := List.isEmpty_eq_false_iff.2 hsome
  refine ⟨?_, hsome, fun name => ?_⟩
  · rw [importClause, hbare, hempty]
    rfl
  · have hfirst : (Binding.default name :: bindings).filterMap bareClause? = [name] := by
      rw [List.filterMap_cons_some (f := bareClause?) rfl, hbare]
    have hmembers : (Binding.default name :: bindings).filterMap memberClause? =
        bindings.filterMap memberClause? := List.filterMap_cons_none rfl
    rw [importClause, hfirst, hmembers, hempty]
    exact String.intercalate_cons_cons

/-- Behind a default binding stands a comma, and then a group as it is written alone. -/
theorem importClause_default_cons (h : GroupForm bindings) (name : String) :
    importClause (.default name :: bindings) = name ++ ", " ++ importClause bindings := by
  cases h with
  | whole whole => exact String.intercalate_cons_cons
  | members hne h =>
    obtain ⟨halone, -, hbehind⟩ := importClause_of_isMember hne h
    rw [halone, hbehind]

/-- A comma or a quote is not in the text of a member. -/
theorem not_mem_memberClause {c : Char} (hc : c ∉ [' ', 'a', 's']) (hname : isNameChar c = false)
    (h : Named bindings) : ∀ s ∈ bindings.filterMap memberClause?, c ∉ s.toList := by
  intro s hs
  obtain ⟨b, hb, htext⟩ := List.mem_filterMap.1 hs
  cases b with
  | default name => cases htext
  | whole name => cases htext
  | member imported localName =>
    obtain rfl := Option.some.inj htext
    exact not_mem_renamed hc ((h _ hb imported (by simp [names])).not_mem hname)
      ((h _ hb localName (by simp [names])).not_mem hname)

/-- There is no quote in a clause. -/
theorem quote_not_mem_importClause (h : Named bindings) : '"' ∉ (importClause bindings).toList := by
  have hbare : ∀ s ∈ bindings.filterMap bareClause?, '"' ∉ s.toList := by
    intro s hs
    obtain ⟨b, hb, htext⟩ := List.mem_filterMap.1 hs
    cases b with
    | default name =>
      obtain rfl := Option.some.inj htext
      exact (h _ hb name (by simp [names])).not_mem (by decide)
    | whole name =>
      obtain rfl := Option.some.inj htext
      have hname := (h _ hb name (by simp [names])).not_mem (c := '"') (by decide)
      simpa using hname
    | member imported localName => cases htext
  have hbraced : '"' ∉ (braced (bindings.filterMap memberClause?)).toList := by
    have hinside : '"' ∉ (commaSeparated (bindings.filterMap memberClause?)).toList :=
      not_mem_commaSeparated (by decide) (not_mem_memberClause (by decide) (by decide) h)
    simpa [braced] using hinside
  refine not_mem_commaSeparated (by decide) fun s hs => ?_
  rcases List.mem_append.1 hs with hs | hs
  · exact hbare s hs
  · split at hs
    · cases hs
    · rw [List.mem_singleton.1 hs]
      exact hbraced

/-- Members can be told from their texts. -/
theorem filterMap_memberClause?_inj (hb : ∀ b ∈ bindings, b.isMember = true)
    (ho : ∀ b ∈ others, b.isMember = true) (hn : Named bindings) (hn' : Named others)
    (h : bindings.filterMap memberClause? = others.filterMap memberClause?) : bindings = others := by
  induction bindings generalizing others with
  | nil =>
    cases others with
    | nil => rfl
    | cons o others =>
      obtain ⟨imported, localName, rfl⟩ := exists_of_isMember (ho o List.mem_cons_self)
      cases h
  | cons b bindings ih =>
    obtain ⟨imported, localName, rfl⟩ := exists_of_isMember (hb b List.mem_cons_self)
    cases others with
    | nil => cases h
    | cons o others =>
      obtain ⟨imported', localName', rfl⟩ := exists_of_isMember (ho o List.mem_cons_self)
      rw [List.forall_mem_cons] at hb ho
      obtain ⟨hfirst, hrest⟩ := List.cons.inj h
      have himported := hn _ List.mem_cons_self imported List.mem_cons_self
      have himported' := hn' _ List.mem_cons_self imported' List.mem_cons_self
      obtain ⟨rfl, rfl⟩ := renamed_inj himported himported' hfirst
      rw [ih hb.2 ho.2 (fun b hb => hn b (List.mem_cons_of_mem _ hb))
        (fun b hb => hn' b (List.mem_cons_of_mem _ hb)) hrest]

/-- The whole module is bound behind a star. -/
theorem importClause_whole (name : String) : importClause [.whole name] = "* as " ++ name :=
  (String.intercalate_singleton : commaSeparated ["* as " ++ name] = "* as " ++ name)

/-- A group begins with a star or a brace. -/
theorem GroupForm.exists_head (h : GroupForm bindings) :
    ∃ c ∈ ['*', '\x7b'], ∃ cs, (importClause bindings).toList = c :: cs := by
  cases h with
  | whole name => exact ⟨'*', by decide, _, String.toList_append⟩
  | members hne h =>
    rw [(importClause_of_isMember hne h).1, braced, String.toList_append, String.toList_append]
    exact ⟨'\x7b', by decide, _, rfl⟩

/-- The whole module is not written as members are. -/
theorem importClause_whole_ne (hne : bindings ≠ []) (h : ∀ b ∈ bindings, b.isMember = true) (name : String) :
    importClause [.whole name] ≠ importClause bindings := by
  intro heq
  rw [importClause_whole, (importClause_of_isMember hne h).1, braced, ← String.toList_inj] at heq
  simp at heq

/-- A group can be told from its text. -/
theorem GroupForm.importClause_inj (hb : GroupForm bindings) (ho : GroupForm others) (hn : Named bindings)
    (hn' : Named others) (h : importClause bindings = importClause others) : bindings = others := by
  cases hb with
  | whole name =>
    cases ho with
    | whole name' =>
      rw [importClause_whole, importClause_whole, String.append_right_inj] at h
      rw [h]
    | members hne' hmembers' => exact absurd h (importClause_whole_ne hne' hmembers' name)
  | members hne hmembers =>
    cases ho with
    | whole name' => exact absurd h.symm (importClause_whole_ne hne hmembers name')
    | members hne' hmembers' =>
      obtain ⟨htext, hsome, -⟩ := importClause_of_isMember hne hmembers
      obtain ⟨htext', hsome', -⟩ := importClause_of_isMember hne' hmembers'
      rw [htext, htext', braced, braced, String.append_left_inj, String.append_right_inj] at h
      have htexts := commaSeparated_inj (not_mem_memberClause (by decide) (by decide) hn)
        (not_mem_memberClause (by decide) (by decide) hn') hsome hsome' h
      exact filterMap_memberClause?_inj hmembers hmembers' hn hn' htexts

/-- `ClauseParts bindings front rest`: the clause of the bindings is written as the name `front` of a default
binding, which is empty if there is none, and `rest` behind it. -/
inductive ClauseParts : List Binding → List Char → List Char → Prop where
  /-- Nothing stands behind a default binding that is alone. -/
  | default (name : String) : ClauseParts [.default name] name.toList []
  /-- A group stands alone. -/
  | group {bindings : List Binding} (h : GroupForm bindings) :
    ClauseParts bindings [] (importClause bindings).toList
  /-- A group stands behind a default binding and a comma. -/
  | both (name : String) {bindings : List Binding} (h : GroupForm bindings) :
    ClauseParts (.default name :: bindings) name.toList (',' :: ' ' :: (importClause bindings).toList)

/-- A clause binds something. -/
theorem ClauseForm.ne_nil (h : ClauseForm bindings) : bindings ≠ [] := by
  cases h with
  | members hne h => exact hne
  | default name => exact List.cons_ne_nil _ _
  | whole name => exact List.cons_ne_nil _ _
  | defaultWhole name whole => exact List.cons_ne_nil _ _
  | defaultMembers name hne h => exact List.cons_ne_nil _ _

/-- Every clause can be divided. -/
theorem ClauseForm.exists_parts (h : ClauseForm bindings) : ∃ front rest, ClauseParts bindings front rest := by
  cases h with
  | default name => exact ⟨_, _, .default name⟩
  | whole name => exact ⟨_, _, .group (.whole name)⟩
  | members hne h => exact ⟨_, _, .group (.members hne h)⟩
  | defaultWhole name whole => exact ⟨_, _, .both name (.whole whole)⟩
  | defaultMembers name hne h => exact ⟨_, _, .both name (.members hne h)⟩

namespace ClauseParts

variable {front rest : List Char}

/-- The parts make up the clause. -/
theorem toList_importClause (h : ClauseParts bindings front rest) :
    (importClause bindings).toList = front ++ rest := by
  cases h with
  | default name =>
    have halone : importClause [.default name] = name :=
      (String.intercalate_singleton : commaSeparated [name] = name)
    rw [halone, List.append_nil]
  | group h => rfl
  | both name h =>
    rw [importClause_default_cons h, String.toList_append, String.toList_append, List.append_assoc]
    rfl

/-- There are only name characters in the first part. -/
theorem isNameChar_of_mem (h : ClauseParts bindings front rest) (hn : Named bindings) :
    ∀ c ∈ front, isNameChar c = true := by
  cases h with
  | default name => exact (hn _ List.mem_cons_self name List.mem_cons_self).chars
  | group h => exact List.forall_mem_nil _
  | both name h => exact (hn _ List.mem_cons_self name List.mem_cons_self).chars

/-- The second part begins with punctuation, if there is anything in it. -/
theorem head_mem (h : ClauseParts bindings front rest) : ∀ c ∈ rest.head?, c ∈ [',', '*', '\x7b'] := by
  intro c hc
  cases h with
  | default name => cases hc
  | group h =>
    obtain ⟨c', hc', cs, hlist⟩ := h.exists_head
    rw [hlist] at hc
    obtain rfl := Option.some.inj hc
    exact List.mem_cons_of_mem _ hc'
  | both name h =>
    obtain rfl := Option.some.inj hc
    exact List.mem_cons_self

/-- No name goes on with the second part. -/
theorem isNameChar_head (h : ClauseParts bindings front rest) : ∀ c ∈ rest.head?, isNameChar c = false := by
  have hmarks : [',', '*', '\x7b'].all (fun c => !isNameChar c) = true := by decide
  intro c hc
  simpa using List.all_eq_true.1 hmarks c (h.head_mem c hc)

/-- The bindings can be told from the parts. -/
theorem eq_of_parts {front' rest' : List Char} (h : ClauseParts bindings front rest)
    (h' : ClauseParts others front' rest') (hn : Named bindings) (hn' : Named others) (hfront : front = front')
    (hrest : rest = rest') : bindings = others := by
  have hgroup : ∀ {bs cs : List Binding}, GroupForm bs → GroupForm cs → Named bs → Named cs →
      (importClause bs).toList = (importClause cs).toList → bs = cs := fun hb hc hn hn' heq =>
    hb.importClause_inj hc hn hn' (String.toList_inj.1 heq)
  have htail : ∀ {b : Binding} {bs : List Binding}, Named (b :: bs) → Named bs := fun hn b hb =>
    hn b (List.mem_cons_of_mem _ hb)
  have hempty : ∀ {name : String} {bs : List Binding}, Named (.default name :: bs) → name.toList ≠ [] :=
    fun hn hnil => (hn _ List.mem_cons_self _ List.mem_cons_self).nonempty (String.toList_inj.1 hnil)
  cases h with
  | default name =>
    cases h' with
    | default name' => rw [String.toList_inj.1 hfront]
    | group hc => exact absurd hfront (hempty hn)
    | both name' hc => cases hrest
  | group hb =>
    cases h' with
    | default name' => exact absurd hfront.symm (hempty hn')
    | group hc => exact hgroup hb hc hn hn' hrest
    | both name' hc => exact absurd hfront.symm (hempty hn')
  | both name hb =>
    cases h' with
    | default name' => cases hrest
    | group hc => exact absurd hfront (hempty hn)
    | both name' hc =>
      rw [String.toList_inj.1 hfront,
        hgroup hb hc (htail hn) (htail hn') (List.cons.inj (List.cons.inj hrest).2).2]

end ClauseParts

/-- **The bindings of a clause can be told from its text.** -/
theorem importClause_inj (hb : ClauseForm bindings) (ho : ClauseForm others) (hn : Named bindings)
    (hn' : Named others) (h : importClause bindings = importClause others) : bindings = others := by
  obtain ⟨front, rest, hparts⟩ := hb.exists_parts
  obtain ⟨front', rest', hparts'⟩ := ho.exists_parts
  have hlist := congrArg String.toList h
  rw [hparts.toList_importClause, hparts'.toList_importClause] at hlist
  obtain ⟨hfront, hrest⟩ := append_inj_of_stop (hparts.isNameChar_of_mem hn) (hparts'.isNameChar_of_mem hn')
    hparts.isNameChar_head hparts'.isNameChar_head hlist
  exact hparts.eq_of_parts hparts' hn hn' hfront hrest

/-- No clause begins with the word `type` and a blank: behind a default binding with that name stands a comma, or
nothing. -/
theorem importClause_ne_type (hb : ClauseForm bindings) (hn : Named bindings) (s : String) :
    importClause bindings ≠ "type " ++ s := by
  intro h
  obtain ⟨front, rest, hparts⟩ := hb.exists_parts
  have hlist := congrArg String.toList h
  rw [hparts.toList_importClause, String.toList_append] at hlist
  obtain ⟨-, hrest⟩ := append_inj_of_stop (v := ['t', 'y', 'p', 'e']) (y := ' ' :: s.toList)
    (hparts.isNameChar_of_mem hn) (List.all_eq_true.1 (by decide)) hparts.isNameChar_head
    (fun c hc => by obtain rfl := Option.some.inj hc; decide) hlist
  have hblank : ' ' ∈ [',', '*', '\x7b'] := hparts.head_mem ' ' (by rw [hrest]; rfl)
  exact absurd hblank (by decide)

end Clauses

end Binding

/-! ## Lines -/

/-- The kind of an import with given bindings. -/
def ImportKind.ofBindings : List Binding → ImportKind
  | [] => .sideEffect
  | .member _ _ :: _ => .member
  | .default _ :: _ => .default
  | .whole _ :: _ => .default

/-- Only an import that binds nothing is there for what its module does. -/
theorem ImportKind.ofBindings_eq_sideEffect {bindings : List Binding} :
    ofBindings bindings = .sideEffect ↔ bindings = [] := by
  cases bindings with
  | nil => exact iff_of_true rfl rfl
  | cons b bindings => cases b <;> simp [ofBindings]

namespace Import

/-- `d.OfGrammar`: the import has a form of the grammar. Its path may be any text. -/
structure OfGrammar (d : Import) : Prop where
  /-- The kind is that of the first binding. -/
  kind_eq : d.kind = .ofBindings d.bindings
  /-- Nothing is bound, and then not for types only, or the bindings form a clause. -/
  form : d.bindings = [] ∧ d.typeOnly = false ∨ Binding.ClauseForm d.bindings
  /-- The names are made of name characters. -/
  named : Binding.Named d.bindings

/-- What stands behind the word `import` and before the path. -/
def header (d : Import) : String :=
  if d.bindings = [] then "" else (if d.typeOnly then "type " else "") ++ importClause d.bindings ++ " from "

/-- What stands before the path, if there is a clause. -/
theorem header_of_clauseForm {d : Import} (h : Binding.ClauseForm d.bindings) :
    d.header = (if d.typeOnly then "type " else "") ++ importClause d.bindings ++ " from " :=
  if_neg h.ne_nil

namespace OfGrammar

variable {d e : Import}

/-- A line is the word `import`, what stands before the path, the literal of the path, and a semicolon. -/
theorem importLine_eq (h : d.OfGrammar) :
    importLine d = "import " ++ (d.header ++ (quoted d.modulePath ++ ";")) := by
  have hkind : (d.kind == .sideEffect) = true ↔ d.bindings = [] := by
    rw [beq_iff_eq, h.kind_eq, ImportKind.ofBindings_eq_sideEffect]
  rw [importLine, header]
  by_cases hnil : d.bindings = []
  · rw [if_pos (hkind.2 hnil), if_pos hnil, String.append_assoc, String.empty_append]
  · rw [if_neg (hnil ∘ hkind.1), if_neg hnil]
    simp only [String.append_assoc]

/-- There is no quote before the path. -/
theorem quote_not_mem_header (h : d.OfGrammar) : '"' ∉ d.header.toList := by
  have hclause := Binding.quote_not_mem_importClause h.named
  rw [header]
  split
  · exact List.not_mem_nil
  · cases d.typeOnly <;> simpa using hclause

/-- What is bound, and whether for types only, can be told from what stands before the path. -/
theorem header_inj (h : d.OfGrammar) (h' : e.OfGrammar) (heq : d.header = e.header) :
    d.bindings = e.bindings ∧ d.typeOnly = e.typeOnly := by
  have hempty : ∀ {d : Import}, Binding.ClauseForm d.bindings → d.header ≠ "" := by
    intro d hform hnil
    rw [header_of_clauseForm hform, ← String.toList_inj] at hnil
    simp at hnil
  rcases h.form with ⟨hnil, htype⟩ | hform
  · rcases h'.form with ⟨hnil', htype'⟩ | hform'
    · exact ⟨hnil.trans hnil'.symm, htype.trans htype'.symm⟩
    · exact absurd (heq.symm.trans (if_pos hnil)) (hempty hform')
  · rcases h'.form with ⟨hnil', -⟩ | hform'
    · exact absurd (heq.trans (if_pos hnil')) (hempty hform)
    · rw [header_of_clauseForm hform, header_of_clauseForm hform', String.append_left_inj] at heq
      cases htype : d.typeOnly with
      | false =>
        cases htype' : e.typeOnly with
        | false =>
          simp only [htype, htype', Bool.false_eq_true, if_false, String.empty_append] at heq
          exact ⟨Binding.importClause_inj hform hform' h.named h'.named heq, rfl⟩
        | true =>
          simp only [htype, htype', Bool.false_eq_true, if_false, if_true, String.empty_append] at heq
          exact absurd heq (Binding.importClause_ne_type hform h.named _)
      | true =>
        cases htype' : e.typeOnly with
        | false =>
          simp only [htype, htype', Bool.false_eq_true, if_false, if_true, String.empty_append] at heq
          exact absurd heq.symm (Binding.importClause_ne_type hform' h'.named _)
        | true =>
          simp only [htype, htype', if_true, String.append_right_inj] at heq
          exact ⟨Binding.importClause_inj hform hform' h.named h'.named heq, rfl⟩

end OfGrammar

end Import

/-- **Distinct imports have distinct lines.** Two imports of forms that the grammar has, with any paths and with
names of name characters, have the same line only if they are the same: they have the same kind, bindings and
path, and both are for types only or neither is.

**Proof sketch.** There is no quote before the path, so the first one divides both lines in the same place, and the
literal that it opens is read back. A clause begins with the name of a default binding, or with a star or a brace.
The name ends where the first character stands that no name has, so it is the same in both, and the groups
behind it are. Members have no commas in them, so the commas divide them, and the blank behind the first name of
a member divides that. With `type` and a blank begin just the lines of imports that are for types only, because
behind a default binding with that name there is no blank. -/
theorem importLine_inj {d e : Import} (hd : d.OfGrammar) (he : e.OfGrammar) :
    importLine d = importLine e ↔ d = e := by
  refine ⟨fun h => ?_, fun h => h ▸ rfl⟩
  rw [hd.importLine_eq, he.importLine_eq, String.append_right_inj] at h
  have hlist : d.header.toList ++ (quoted d.modulePath ++ ";").toList =
      e.header.toList ++ (quoted e.modulePath ++ ";").toList := by
    rw [← String.toList_append, ← String.toList_append, h]
  have hplain : ∀ {d : Import}, d.OfGrammar → ∀ c ∈ d.header.toList, (c != '"') = true := fun hd c hc =>
    bne_iff_ne.2 fun heq => hd.quote_not_mem_header (heq ▸ hc)
  have hstop : ∀ d : Import, ∀ c ∈ (quoted d.modulePath ++ ";").toList.head?, (c != '"') = false := by
    intro d c hc
    rw [quoted, String.toList_append, String.toList_ofList, List.cons_append, List.head?_cons] at hc
    rw [← Option.some.inj hc]
    rfl
  obtain ⟨hheader, hpath⟩ := append_inj_of_stop (hplain hd) (hplain he) (hstop d) (hstop e) hlist
  obtain ⟨hbindings, htype⟩ := hd.header_inj he (String.toList_inj.1 hheader)
  rw [String.toList_inj, String.append_left_inj] at hpath
  obtain ⟨kind, bindings, path, typeOnly⟩ := d
  obtain ⟨kind', bindings', path', typeOnly'⟩ := e
  have hkind := hd.kind_eq
  have hkind' := he.kind_eq
  simp only at hbindings htype hpath hkind hkind'
  rw [hkind, hkind', hbindings, htype, quoted_injective hpath]

/-- An import of a default export called `type`, from a path that looks like the end of another import. -/
def importOfType : Import :=
  ⟨.default, [.default "type", .member "as" "from"], "x\"; import type from \"y", false⟩

/-- An import for types only of a default export called `from`, from the same path. -/
def typeImportOfFrom : Import :=
  ⟨.default, [.default "from", .member "as" "from"], "x\"; import type from \"y", true⟩

/-- The words of the grammar may be names. -/
theorem importLine_inj_keywords :
    importOfType.OfGrammar ∧ typeImportOfFrom.OfGrammar ∧
      importLine importOfType ≠ importLine typeImportOfFrom := by
  have hd : importOfType.OfGrammar :=
    ⟨rfl, .inr (.defaultMembers "type" (by decide) (by decide)), by decide⟩
  have he : typeImportOfFrom.OfGrammar :=
    ⟨rfl, .inr (.defaultMembers "from" (by decide) (by decide)), by decide⟩
  exact ⟨hd, he, fun heq => absurd ((importLine_inj hd he).1 heq) (by decide)⟩

/-- A text with a comma and braces in it is no name; as one it would not be told from three. -/
example : importLine ⟨.default, [.default "a, \x7b b as c \x7d"], "m", false⟩ =
    importLine ⟨.default, [.default "a", .member "b" "c"], "m", false⟩ := by
  decide

end TestScaffold
