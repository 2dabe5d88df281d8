import Mathlib.Data.List.DropRight
import TestScaffold.Files.Path

set_option autoImplicit false

/-!
# Parts and components of paths

What a path means is told by its components, and what it is made of by its parts. Here the parts are compared
with the components: which parts are names, what is left out at the end, what a further part adds, and what is
left before the last component.

## Main definitions

* `TestScaffold.Path.IsName` — the parts of a path that are names of entries.
* `TestScaffold.Path.openParts` — the parts that stand before a further part.
* `TestScaffold.Path.resolve?` — where a relative path leads to, if that is not above the working directory.

## Main results

* `TestScaffold.Path.names_descend` — names added to a path are further names.
* `TestScaffold.Path.of_parent?_eq_some` — what a path has before its last component.
* `TestScaffold.Path.exists_parent?_child` — the directory that an entry stands in.
* `TestScaffold.Path.ofString_intercalate` — a relative path is read back from its text.
-/

namespace TestScaffold

namespace Path

variable {p q : Path} {name part : String} {names parts : List String}

/-! ## Names among the parts -/

/-- A part of a path is the name of an entry: it means something, and does not lead to the directory
above. -/
def IsName (part : String) : Prop := isTrivial part = false ∧ part ≠ ".."

/-- A name is a component. -/
theorem IsName.step? (h : IsName name) : step? name = some (.normal name) := by
  simp [Path.step?, h.1, h.2]

/-- The beginning of a path names no entry. -/
theorem filterMap_name?_lead (p : Path) : p.lead.filterMap Component.name? = [] := by
  unfold lead
  split
  · rfl
  · split <;> rfl

/-- The names of a path are read part by part. -/
theorem names_eq (p : Path) : p.names = p.parts.filterMap fun part => (step? part).bind Component.name? := by
  rw [names, components, List.filterMap_append, filterMap_name?_lead, List.nil_append,
    List.filterMap_filterMap]

/-- A name of a path is one of its parts. -/
theorem of_mem_names (h : name ∈ p.names) : IsName name ∧ name ∈ p.parts := by
  rw [names_eq] at h
  obtain ⟨part, hpart, hname⟩ := List.mem_filterMap.1 h
  unfold step? at hname
  split at hname
  · cases hname
  · next htrivial =>
    split at hname
    · cases hname
    · next hparent =>
      obtain rfl := Option.some.inj hname
      exact ⟨⟨by simpa using htrivial, by simpa using hparent⟩, hpart⟩

/-- Parts that mean nothing add no names. -/
theorem filterMap_step?_of_trivial (h : ∀ part ∈ parts, isTrivial part = true) :
    parts.filterMap step? = [] := by
  rw [List.filterMap_eq_nil_iff]
  intro part hpart
  rw [step?, if_pos (h part hpart)]

/-- Paths with the same steps have the same names. -/
theorem names_congr (h : p.parts.filterMap step? = q.parts.filterMap step?) : p.names = q.names := by
  have hsteps : ∀ r : Path, r.names = (r.parts.filterMap step?).filterMap Component.name? := by
    intro r
    rw [names_eq, List.filterMap_filterMap]
  rw [hsteps, hsteps, h]

/-! ## Further parts -/

/-- The parts that stand before a further part. -/
def openParts (p : Path) : List String :=
  if p.parts.getLast? == some "" then p.parts.dropLast else p.parts

/-- A path with a further part is written with it at the end. -/
theorem child_eq (p : Path) (part : String) : p.child part = ⟨p.rooted, p.openParts ++ [part]⟩ := by
  unfold child openParts
  split <;> rfl

/-- Only an empty part at the end is no part that another one can follow. -/
theorem parts_eq_openParts (p : Path) :
    ∃ empties : List String, p.parts = p.openParts ++ empties ∧ ∀ part ∈ empties, part = "" := by
  unfold openParts
  split
  · next hlast =>
    obtain ⟨front, hfront⟩ := List.getLast?_eq_some_iff.1 (eq_of_beq hlast)
    refine ⟨[""], by rw [hfront, List.dropLast_concat], fun part hpart => List.mem_singleton.1 hpart⟩
  · exact ⟨[], by rw [List.append_nil], fun part hpart => nomatch hpart⟩

/-- Names added to a path are further components. -/
theorem components_descend (h : ∀ name ∈ names, IsName name) :
    (p.descend names).components = p.components ++ names.map .normal := by
  induction names generalizing p with
  | nil => simp [descend]
  | cons name names ih =>
    obtain ⟨hname, hnames⟩ := List.forall_mem_cons.1 h
    rw [descend, List.foldl_cons, ← descend, ih hnames, components_child hname.1 hname.2,
      List.append_assoc]
    rfl

/-- A further part does not change whether a path begins at the root directory. -/
theorem rooted_descend (p : Path) (parts : List String) : (p.descend parts).rooted = p.rooted := by
  induction parts generalizing p with
  | nil => rfl
  | cons part parts ih => rw [descend, List.foldl_cons, ← descend, ih, child_eq]

/-- Names added to a path are further names. -/
theorem names_descend (h : ∀ name ∈ names, IsName name) :
    (p.descend names).names = p.names ++ names := by
  rw [Path.names, components_descend h, List.filterMap_append, ← Path.names, List.filterMap_map]
  congr 1
  exact List.filterMap_some

/-! ## The directory of an entry -/

/-- Trailing parts are left out behind a leading dot, or else from all parts. -/
theorem trim_cases (p : Path) :
    (∃ rest, p = ⟨false, "." :: rest⟩ ∧ p.trim = ⟨false, "." :: dropTrailing rest⟩) ∨
      ((p.rooted = false → p.parts.head? ≠ some ".") ∧ p.trim = ⟨p.rooted, dropTrailing p.parts⟩) := by
  obtain ⟨rooted, parts⟩ := p
  cases rooted with
  | true => exact Or.inr ⟨Bool.noConfusion, rfl⟩
  | false =>
    cases parts with
    | nil => exact Or.inr ⟨fun _ => by simp, rfl⟩
    | cons first rest =>
      by_cases hdot : first = "."
      · exact Or.inl ⟨rest, by rw [hdot], by rw [hdot]; rfl⟩
      · refine Or.inr ⟨fun _ h => hdot (Option.some.inj h), ?_⟩
        unfold trim
        split
        · next heq => exact absurd (List.cons.inj heq).1 hdot
        · rfl

/-- Trailing parts that mean nothing are left out, and nothing else is. -/
theorem parts_eq_trim (p : Path) :
    p.trim.rooted = p.rooted ∧
      ∃ skipped : List String, p.parts = p.trim.parts ++ skipped ∧
        ∀ part ∈ skipped, isTrivial part = true := by
  have hdrop : ∀ parts : List String,
      ∃ skipped : List String, parts = dropTrailing parts ++ skipped ∧
        ∀ part ∈ skipped, isTrivial part = true := fun parts =>
    ⟨parts.rtakeWhile isTrivial, List.rdropWhile_append_rtakeWhile.symm,
      fun _ hpart => List.mem_rtakeWhile_imp hpart⟩
  rcases trim_cases p with ⟨rest, rfl, htrim⟩ | ⟨-, htrim⟩
  · obtain ⟨skipped, hskipped, htrivial⟩ := hdrop rest
    refine ⟨by rw [htrim], skipped, ?_, htrivial⟩
    rw [htrim, List.cons_append, ← hskipped]
  · obtain ⟨skipped, hskipped, htrivial⟩ := hdrop p.parts
    exact ⟨by rw [htrim], skipped, by rw [htrim, ← hskipped], htrivial⟩

/-- Leaving out trailing parts again changes nothing. -/
theorem trim_trim (p : Path) : p.trim.trim = p.trim := by
  have hdrop : ∀ parts : List String, dropTrailing (dropTrailing parts) = dropTrailing parts :=
    List.rdropWhile_idempotent isTrivial
  rcases trim_cases p with ⟨rest, -, htrim⟩ | ⟨hhead, htrim⟩
  · rw [htrim]
    show (⟨false, "." :: dropTrailing (dropTrailing rest)⟩ : Path) = _
    rw [hdrop]
  · rw [htrim]
    rcases trim_cases ⟨p.rooted, dropTrailing p.parts⟩ with ⟨rest, heq, -⟩ | ⟨-, htrim'⟩
    · -- A leading dot that is left was there before.
      obtain ⟨hrooted, hparts⟩ := Path.mk.inj heq
      obtain ⟨tail, htail⟩ := List.rdropWhile_prefix isTrivial (l := p.parts)
      refine absurd ?_ (hhead hrooted)
      rw [← htail, show p.parts.rdropWhile isTrivial = _ from hparts]
      rfl
    · rw [htrim', hdrop]

/-- A path whose last part means something has no parts to leave out. -/
theorem trim_eq_self {rooted : Bool} (h : isTrivial part = false) :
    trim ⟨rooted, parts ++ [part]⟩ = ⟨rooted, parts ++ [part]⟩ := by
  have hdrop : ∀ front : List String, dropTrailing (front ++ [part]) = front ++ [part] := fun front =>
    List.rdropWhile_concat_neg isTrivial front part (by simp [h])
  rcases trim_cases ⟨rooted, parts ++ [part]⟩ with ⟨rest, heq, htrim⟩ | ⟨-, htrim⟩
  · rw [htrim, heq]
    obtain ⟨-, hparts⟩ := Path.mk.inj heq
    cases parts with
    | nil =>
      obtain ⟨rfl, -⟩ := List.cons.inj hparts
      cases h
    | cons first front =>
      obtain rfl : front ++ [part] = rest := (List.cons.inj hparts).2
      rw [hdrop]
  · rw [htrim, hdrop]

/-- **What a path has before its last component**: the parts of its directory, parts that mean nothing, and
a last part. -/
theorem of_parent?_eq_some (h : p.parent? = some q) :
    q.rooted = p.rooted ∧ q.trim = q ∧
      ∃ skipped last, p.trim.parts = q.parts ++ skipped ++ [last] ∧
        ∀ part ∈ skipped, isTrivial part = true := by
  unfold parent? at h
  split at h
  · cases h
  · next hne =>
    obtain rfl := Option.some.inj h
    obtain ⟨hrooted, skipped, hskipped, htrivial⟩ := parts_eq_trim ⟨p.rooted, p.trim.parts.dropLast⟩
    refine ⟨hrooted, trim_trim _, skipped, p.trim.parts.getLast (by simpa using hne), ?_, htrivial⟩
    dsimp only at hskipped
    rw [← hskipped, List.dropLast_concat_getLast]

/-- **The directory that an entry stands in** is where it was added. -/
theorem exists_parent?_child (h : IsName name) :
    ∃ q, (p.child name).parent? = some q ∧ (p.child name).trim = p.child name ∧ q.names = p.names := by
  have htrim : (p.child name).trim = p.child name := by
    rw [child_eq]
    exact trim_eq_self h.1
  obtain ⟨q, hq⟩ : ∃ q, (p.child name).parent? = some q := by
    rw [parent?, htrim, child_eq, if_neg (by simp)]
    exact ⟨_, rfl⟩
  obtain ⟨-, -, skipped, last, hparts, htrivial⟩ := of_parent?_eq_some hq
  obtain ⟨empties, hempties, hempty⟩ := parts_eq_openParts p
  refine ⟨q, hq, htrim, names_congr ?_⟩
  rw [htrim, child_eq] at hparts
  obtain ⟨hopen, -⟩ := List.append_inj' hparts rfl
  have hemptyTrivial : ∀ part ∈ empties, isTrivial part = true := by
    intro part hpart
    rw [hempty part hpart]
    rfl
  rw [hempties, hopen, List.filterMap_append, List.filterMap_append, filterMap_step?_of_trivial htrivial,
    filterMap_step?_of_trivial hemptyTrivial, List.append_nil, List.append_nil]

/-! ## Relative paths -/

/-- Where the parts of a relative path lead to from a directory below the working directory, as the names
that lead there; nothing if they lead above the working directory. -/
def resolve? : List String → List String → Option (List String)
  | base, [] => some base
  | base, part :: rest =>
    if isTrivial part then resolve? base rest
    else if part == ".." then if base.isEmpty then none else resolve? base.dropLast rest
    else resolve? (base ++ [part]) rest

/-- Names lead further down. -/
theorem resolve?_names {base : List String} (h : ∀ name ∈ names, IsName name) :
    resolve? base names = some (base ++ names) := by
  induction names generalizing base with
  | nil => rw [resolve?, List.append_nil]
  | cons name names ih =>
    obtain ⟨hname, hnames⟩ := List.forall_mem_cons.1 h
    rw [resolve?, hname.1, if_neg Bool.false_ne_true, if_neg (by simpa using hname.2), ih hnames,
      List.append_assoc, List.singleton_append]

/-- As many steps upwards as lead down to a directory lead to the working directory. -/
theorem resolve?_upwards (base rest : List String) :
    resolve? base (List.replicate base.length ".." ++ rest) = resolve? [] rest := by
  induction base using List.reverseRecOn with
  | nil => rfl
  | append_singleton base name ih =>
    have hparent : isTrivial ".." = false := by decide
    rw [List.length_append, List.length_singleton, List.replicate_succ, List.cons_append, resolve?,
      hparent, if_neg Bool.false_ne_true, if_pos (beq_self_eq_true _), if_neg (by simp),
      List.dropLast_concat, ih]

/-- A part of a path that is given as a text has no slash. -/
theorem slash_not_mem_of_mem_parts {s : String} (h : part ∈ (ofString s).parts) : '/' ∉ part.toList := by
  have hpieces : ∀ cs : List Char, ∀ piece ∈ cs.splitOn '/', '/' ∉ piece := by
    intro cs
    induction cs with
    | nil => simp
    | cons c cs ih =>
      rw [List.splitOn_cons_eq_if_modifyHead]
      split
      · exact List.forall_mem_cons.2 ⟨List.not_mem_nil, ih⟩
      · next hc =>
        cases hsplit : cs.splitOn '/' with
        | nil => simp
        | cons first rest =>
          rw [hsplit] at ih
          obtain ⟨hfirst, hrest⟩ := List.forall_mem_cons.1 ih
          refine List.forall_mem_cons.2 ⟨?_, hrest⟩
          simp only [List.mem_cons, not_or]
          exact ⟨fun heq => hc (beq_iff_eq.2 heq.symm), hfirst⟩
  have hsplit : ∀ cs : List Char, ∀ part ∈ split cs, '/' ∉ part.toList := by
    intro cs part hpart
    unfold split at hpart
    split at hpart
    · cases hpart
    · obtain ⟨piece, hpiece, rfl⟩ := List.mem_map.1 hpart
      rw [String.toList_ofList]
      exact hpieces cs piece hpiece
  unfold ofString at h
  split at h
  · exact hsplit _ part h
  · exact hsplit _ part h

/-- A relative path that is written with slashes between its parts is read back. -/
theorem ofString_intercalate {first : String} (hfirst : first ≠ "")
    (h : ∀ part ∈ first :: parts, '/' ∉ part.toList) :
    ofString ("/".intercalate (first :: parts)) = ⟨false, first :: parts⟩ := by
  have htext : ("/".intercalate (first :: parts)).toList =
      ['/'].intercalate ((first :: parts).map String.toList) := String.toList_intercalate
  have hsplit : (['/'].intercalate ((first :: parts).map String.toList)).splitOn '/' =
      (first :: parts).map String.toList := by
    refine List.splitOn_intercalate '/' ?_ (by simp)
    intro cs hcs
    obtain ⟨part, hpart, rfl⟩ := List.mem_map.1 hcs
    exact h part hpart
  obtain ⟨c, cs, hc⟩ : ∃ c cs, first.toList = c :: cs :=
    List.exists_cons_of_ne_nil fun hnil => hfirst (String.toList_eq_nil_iff.1 hnil)
  have hslash : c ≠ '/' := by
    rintro rfl
    exact h first List.mem_cons_self (hc ▸ List.mem_cons_self)
  obtain ⟨ds, hds⟩ : ∃ ds, ['/'].intercalate ((first :: parts).map String.toList) = c :: ds := by
    cases parts with
    | nil => exact ⟨cs, by simp [hc]⟩
    | cons second rest => exact ⟨_, by rw [List.map_cons, List.map_cons, List.intercalate_cons_cons, hc]; rfl⟩
  unfold ofString
  rw [htext, hds]
  split
  · next heq => exact absurd (List.cons.inj heq).1 hslash
  · rw [split, if_neg (by simp), ← hds, hsplit, List.map_map]
    simp

end Path

end TestScaffold
