import TestScaffold.Proofs.CommentRemoval
import TestScaffold.Proofs.MemberAccess

set_option autoImplicit false

/-!
# Forms of names

The grammar has names of several forms, and only a plain name may follow a dot: not a literal, a number or an
expression in brackets, and outside of its class not a name that begins with a hash sign. The form of a name is the
kind of its node, and can be told from how the text of the node begins.

## Main definitions

* `TestScaffold.NameForm`, `TestScaffold.NameForm.Fits` — the forms of names and how they are spelled.
* `TestScaffold.IsHidden`, `TestScaffold.IsMemberName` — the names that the grammar allows behind a dot.
* `TestScaffold.Tree.NamesSpelled` — a tree has names where the grammar has them, and they are spelled like names.

## Main results

* `TestScaffold.NameForm.Fits.isWord_iff` — a name is a word exactly if it is plain.
* `TestScaffold.isAccess_dotted_iff_not_isHidden` — when names that may follow a dot are a member access.
* `TestScaffold.Tree.NamesSpelled.isMemberName_of_mem_calls` — the names of a call may follow a dot.

## Implementation notes

What is required of a tree is stated for the roles that names are read from, and not for all nodes of a kind: the
tags of markup are identifiers to the grammar too, and may have hyphens.
-/

namespace TestScaffold

/-! ## Forms of names -/

/-- How a name may be spelled in a module. -/
inductive NameForm where
  /-- A plain name. -/
  | word
  /-- A name that only the class itself can use; it begins with a hash sign. -/
  | hidden
  /-- A string literal. -/
  | quoted
  /-- A number. -/
  | number
  /-- An expression in brackets. -/
  | computed
deriving DecidableEq, Repr

namespace NameForm

/-- The forms of the names that syntax nodes of certain kinds are. -/
def ofKinds : List (String × NameForm) :=
  [("identifier", word), ("property_identifier", word), ("shorthand_property_identifier", word),
    ("type_identifier", word), ("private_property_identifier", hidden), ("string", quoted), ("number", number),
    ("computed_property_name", computed)]

/-- The form of the name that a node is, if it is one. -/
def ofKind? (k : Kind) : Option NameForm := ofKinds.lookup k.text

/-- Whether a name of a form may begin with a character. -/
def begins : NameForm → Char → Bool
  | word, c => startsWord c
  | hidden, c => c == '#'
  | quoted, c => c == '"' || c == '\''
  | number, c => c.isDigit || c == '.'
  | computed, c => c == '['

/-- A text is spelled like the names of a form. -/
structure Fits (form : NameForm) (text : String) : Prop where
  /-- It begins like them. -/
  head : text.toList.head?.any form.begins = true
  /-- A plain name is a word. -/
  word : form = .word → IsWord text

instance (form : NameForm) (text : String) : Decidable (form.Fits text) :=
  decidable_of_iff (text.toList.head?.any form.begins = true ∧ (form = .word → IsWord text))
    ⟨fun ⟨h, h'⟩ => ⟨h, h'⟩, fun ⟨h, h'⟩ => ⟨h, h'⟩⟩

/-- Only plain names begin like words. -/
theorem startsWord_eq_false {form : NameForm} {c : Char} (hform : form ≠ .word) (h : form.begins c = true) :
    startsWord c = false := by
  cases form with
  | word => exact absurd rfl hform
  | hidden =>
    rw [eq_of_beq h]
    decide
  | quoted =>
    rw [begins, Bool.or_eq_true, beq_iff_eq, beq_iff_eq] at h
    rcases h with rfl | rfl <;> decide
  | number =>
    rw [begins, Bool.or_eq_true, beq_iff_eq] at h
    rcases h with hdigit | rfl
    · rw [startsWord, hdigit, Bool.not_true, Bool.and_false, Bool.or_false, beq_eq_false_iff_ne]
      rintro rfl
      cases hdigit
    · decide
  | computed =>
    rw [eq_of_beq h]
    decide

/-- Only plain names and literals could begin with a quote. -/
theorem isQuote_eq_false {form : NameForm} {c : Char} (hform : form ≠ .word) (hquoted : form ≠ .quoted)
    (h : form.begins c = true) : Literal.isQuote c = false := by
  rw [Bool.eq_false_iff]
  intro hquote
  rw [Literal.isQuote, Bool.or_eq_true, Bool.or_eq_true, beq_iff_eq, beq_iff_eq, beq_iff_eq] at hquote
  cases form with
  | word => exact hform rfl
  | quoted => exact hquoted rfl
  | hidden | number | computed => rcases hquote with (rfl | rfl) | rfl <;> cases h

namespace Fits

variable {form : NameForm} {text : String}

/-- A name has a first character. -/
theorem exists_head (h : form.Fits text) : ∃ c ∈ text.toList.head?, form.begins c = true :=
  (Option.any_eq_true _ _).1 h.head

/-- A name that is not plain begins like no word. -/
theorem isMarked (h : form.Fits text) (hform : form ≠ .word) : IsMarked text := by
  obtain ⟨c, hc, hbegins⟩ := h.exists_head
  obtain ⟨cs, hcs⟩ := List.head?_eq_some_iff.1 hc
  exact ⟨c, cs, hcs, startsWord_eq_false hform hbegins⟩

/-- A name is a word exactly if it is plain. -/
theorem isWord_iff (h : form.Fits text) : IsWord text ↔ form = .word :=
  ⟨fun hword => by_contra fun hform => (h.isMarked hform).not_isWord hword, h.word⟩

/-- A name is a word or begins like none. -/
theorem isWord_or_isMarked (h : form.Fits text) : IsWord text ∨ IsMarked text := by
  by_cases hform : form = .word
  · exact Or.inl (h.word hform)
  · exact Or.inr (h.isMarked hform)

/-- Without quotes, a name is a word exactly if it is plain, or it is a literal with a word between its quotes. -/
theorem isWord_stripQuotes_iff (h : form.Fits text) :
    IsWord (stripQuotes text) ↔ form = .word ∨ form = .quoted ∧ IsWord (stripQuotes text) := by
  by_cases hquoted : form = .quoted
  · rw [hquoted]
    simp
  by_cases hform : form = .word
  · rw [(h.word hform).stripQuotes_eq_self]
    exact iff_of_true (h.word hform) (Or.inl hform)
  · have hmarked : IsMarked (stripQuotes text) := by
      refine (h.isMarked hform).stripQuotes fun c hc => ?_
      obtain ⟨d, hd, hbegins⟩ := h.exists_head
      obtain rfl := Option.some.inj (hd.symm.trans hc)
      exact isQuote_eq_false hform hquoted hbegins
    exact iff_of_false hmarked.not_isWord fun hcase => hcase.elim hform fun hpair => hquoted hpair.1

end Fits

end NameForm

/-- A name is one that only a class itself can use. -/
def IsHidden (name : String) : Prop := name.toList.head? = some '#'

/-- Such a name begins like no word. -/
theorem IsHidden.isMarked {name : String} (h : IsHidden name) : IsMarked name := by
  obtain ⟨cs, hcs⟩ := List.head?_eq_some_iff.1 h
  exact ⟨'#', cs, hcs, by decide⟩

/-- The text is a word, or a name that only a class itself can use. -/
def IsMemberName (name : String) : Prop := IsWord name ∨ IsHidden name

namespace IsMemberName

variable {name : String}

/-- Such a text is a word or begins like none. -/
theorem isWord_or_isMarked (h : IsMemberName name) : IsWord name ∨ IsMarked name := h.imp_right IsHidden.isMarked

/-- Such a text is a word exactly if it is not hidden. -/
theorem isWord_iff (h : IsMemberName name) : IsWord name ↔ ¬IsHidden name :=
  ⟨fun hword hhidden => hhidden.isMarked.not_isWord hword, h.resolve_right⟩

/-- A name with its first character in lower case is hidden exactly if it was before. -/
theorem decapitalize (h : IsMemberName name) : IsMemberName (decapitalize name) := by
  rcases h with hword | hhidden
  · exact Or.inl hword.decapitalize
  · obtain ⟨cs, hcs⟩ := List.head?_eq_some_iff.1 hhidden
    have hkept : TestScaffold.decapitalize name = name := by
      have hhash : lowerCase '#' = ['#'] := by decide
      rw [TestScaffold.decapitalize, hcs]
      dsimp only
      rw [hhash, List.singleton_append, ← hcs, String.ofList_toList]
    rw [hkept]
    exact Or.inr hhidden

end IsMemberName

/-- **A chain of member names** is a member access exactly if its first name is no reserved word and none of
them is hidden. -/
theorem isAccess_dotted_iff_not_isHidden {chain : List String} {head : String} (hhead : chain.head? = some head)
    (hnames : ∀ name ∈ chain, IsMemberName name) :
    IsAccess (dotted chain) ↔ head ∉ reservedWords ∧ ∀ name ∈ chain, ¬IsHidden name := by
  rw [isAccess_dotted_iff hhead fun name hname => (hnames name hname).isWord_or_isMarked]
  exact and_congr_right' (forall₂_congr fun name hname => (hnames name hname).isWord_iff)

/-! ## Names in a tree -/

/-- The roles of a node whose child is a name, with the forms that this name may have. -/
def nameRoles : Kind → List (Field × List NameForm)
  | .methodDefinition => [(.name, [.word, .hidden, .quoted, .number, .computed])]
  | .pair => [(.key, [.word, .hidden, .quoted, .number, .computed])]
  | .memberExpression => [(.property, [.word, .hidden])]
  | .classDeclaration | .abstractClassDeclaration | .classExpression | .functionDeclaration
  | .generatorFunctionDeclaration => [(.name, [.word])]
  | _ => []

/-- The roles of a node whose child may be an identifier. -/
def variableRoles : Kind → List Field
  | .variableDeclarator => [.name]
  | .memberExpression => [.object]
  | .callExpression => [.function]
  | .assignmentExpression => [.left]
  | _ => []

/-- The names in a tree are of the forms that the grammar has for them, and are spelled like these. -/
structure Tree.NamesSpelled (src : SourceText) (root : Tree) : Prop where
  /-- A name has one of the forms for its role. -/
  named : ∀ t ∈ root.preorder, ∀ role ∈ nameRoles t.kind, ∀ c ∈ t.childAt? role.1,
    ∃ form ∈ role.2, NameForm.ofKind? c.kind = some form ∧ form.Fits (c.text src)
  /-- An identifier is a word. -/
  identifiers : ∀ t ∈ root.preorder, ∀ f ∈ variableRoles t.kind, ∀ c ∈ t.childAt? f, c.kind = .identifier →
    IsWord (c.text src)
  /-- The name of a property that is named like its value is a word. -/
  shorthand : ∀ t ∈ root.preorder, t.kind = .shorthandPropertyIdentifier → IsWord (t.text src)

section Names

variable {src : SourceText} {root : Tree} (hspelled : root.NamesSpelled src)

namespace Tree.NamesSpelled

include hspelled

/-- The name of a member is a word or hidden. -/
theorem isMemberName_property {t c : Tree} (ht : t ∈ root.preorder) (hkind : t.kind = .memberExpression)
    (hc : t.childAt? .property = some c) :
    IsMemberName (c.text src) ∧ (IsWord (c.text src) ↔ NameForm.ofKind? c.kind = some .word) := by
  have hrole : (Field.property, [NameForm.word, .hidden]) ∈ nameRoles t.kind := by
    rw [hkind]
    decide
  obtain ⟨form, hform, hof, hfits⟩ := hspelled.named t ht _ hrole c hc
  constructor
  · simp only [List.mem_cons, List.not_mem_nil, or_false] at hform
    rcases hform with rfl | rfl
    · exact Or.inl (hfits.word rfl)
    · obtain ⟨d, hd, hbegins⟩ := hfits.exists_head
      obtain rfl := eq_of_beq hbegins
      exact Or.inr hd
  · rw [hfits.isWord_iff, hof, Option.some.injEq]

/-- The name of a class or of a function declaration is a word. -/
theorem isWord_declared {t c : Tree} (ht : t ∈ root.preorder)
    (hkind : t.kind ∈ classKinds ++ functionDeclarationKinds) (hc : t.childAt? .name = some c) :
    IsWord (c.text src) := by
  have hroles : ∀ k ∈ classKinds ++ functionDeclarationKinds, nameRoles k = [(.name, [.word])] := by decide
  obtain ⟨form, hform, -, hfits⟩ := hspelled.named t ht (.name, [.word])
    (hroles _ hkind ▸ List.mem_cons_self) c hc
  exact hfits.word (List.mem_singleton.1 hform)

/-- The names of a chain are words or hidden. -/
theorem isMemberName_of_mem_nameChain {t : Tree} : t ∈ root.preorder →
    (t.kind = .identifier → IsWord (t.text src)) → ∀ name ∈ nameChain src t, IsMemberName name := by
  refine Tree.inductionOn_children (P := fun t => t ∈ root.preorder →
    (t.kind = .identifier → IsWord (t.text src)) → ∀ name ∈ nameChain src t, IsMemberName name) ?_ t
  intro t ih ht hword name hname
  rw [nameChain_eq] at hname
  split at hname
  · next hkind =>
    obtain rfl := List.mem_singleton.1 hname
    exact Or.inl (hword hkind)
  · obtain rfl := List.mem_singleton.1 hname
    exact Or.inl (by decide)
  · next hkind =>
    rcases List.mem_append.1 hname with hname | hname
    · cases hobject : t.childAt? .object with
      | none =>
        rw [hobject] at hname
        cases hname
      | some c =>
        rw [hobject] at hname
        refine ih c (List.mem_of_find?_eq_some hobject) (Tree.mem_preorder_of_childAt? ht hobject) ?_ name hname
        exact hspelled.identifiers t ht .object (by rw [hkind]; decide) c hobject
    · obtain ⟨c, hc, rfl⟩ := List.mem_map.1 hname
      exact (hspelled.isMemberName_property ht hkind (Option.mem_toList.1 hc)).1
  · cases hname

/-- The names of a call are words or hidden. -/
theorem isMemberName_of_callChain? {call : Tree} {site : CallChain} (hcall : call ∈ root.preorder)
    (hkind : call.kind = .callExpression) (h : callChain? src call = some site) :
    ∀ name ∈ site.segments, IsMemberName name := by
  unfold callChain? at h
  obtain ⟨callee, hcallee, h⟩ := Option.bind_eq_some_iff.1 h
  have hword := hspelled.identifiers call hcall .function (by rw [hkind]; decide) callee hcallee
  dsimp only at h
  split at h
  · next hidentifier =>
    obtain rfl := Option.some.inj h
    intro name hname
    obtain rfl := List.mem_singleton.1 hname
    exact Or.inl (hword hidentifier)
  · split at h
    · cases h
    · obtain rfl := Option.some.inj h
      exact hspelled.isMemberName_of_mem_nameChain (Tree.mem_preorder_of_childAt? hcall hcallee) hword
  · cases h

/-- The names of the calls in a function or method are words or hidden. -/
theorem isMemberName_of_mem_calls {func : Tree} {site : CallChain} (hfunc : func ∈ root.preorder)
    (h : site ∈ (scopeFacts src func).calls) : ∀ name ∈ site.segments, IsMemberName name := by
  unfold scopeFacts at h
  split at h
  · cases h
  · next body hbody =>
    obtain ⟨call, hcall, hchain⟩ := List.mem_filterMap.1 h
    obtain ⟨hin, hkind⟩ := List.mem_filter.1 hcall
    have hroot := Tree.preorder_subset_of_mem root (Tree.mem_preorder_of_childAt? hfunc hbody) hin
    exact hspelled.isMemberName_of_callChain? hroot (eq_of_beq hkind) hchain

end Tree.NamesSpelled

end Names

end TestScaffold
