import TestScaffold.Proofs.PathParts

set_option autoImplicit false

/-!
# File names

A file name is told by its dots. What it has before the first one is its stem, and what it has behind the last one
is its extension, if something stands before that dot.

## Main definitions

* `TestScaffold.Path.IsStem`, `TestScaffold.Path.IsExtension` — the parts of a file name.

## Main results

* `TestScaffold.Path.isStem_iff` — what the stem of a file name is.
* `TestScaffold.Path.extensionOf?_eq_some_iff` — what the extension of a file name is.
* `TestScaffold.Path.extension?_eq_some_iff` — what the extension of a path is.
-/

namespace TestScaffold

namespace Path

variable {p : Path}

/-! ## Stems -/

/-- `IsStem stem name`: the text `stem` is what a file name has before its first dot. -/
structure IsStem (stem name : String) : Prop where
  /-- There is no dot in it. -/
  noDot : '.' ∉ stem.toList
  /-- It is the whole name, or a dot follows. -/
  before : name = stem ∨ ∃ rest, name = stem ++ "." ++ rest

/-- What a file name has before its first dot is its stem. -/
theorem isStem_stemOf (name : String) : IsStem (stemOf name) name := by
  constructor
  · intro hdot
    rw [stemOf, String.toList_ofList] at hdot
    simpa using List.mem_takeWhile_imp hdot
  · have hsplit := List.takeWhile_append_dropWhile (p := (· != '.')) (l := name.toList)
    have hname : name = stemOf name ++ String.ofList (name.toList.dropWhile (· != '.')) := by
      rw [stemOf, ← String.ofList_append, hsplit, String.ofList_toList]
    cases hrest : name.toList.dropWhile (· != '.') with
    | nil =>
      rw [hrest] at hname
      exact Or.inl (by simpa using hname)
    | cons c rest =>
      have hhead := List.head?_dropWhile_not (· != '.') name.toList
      rw [hrest] at hhead
      obtain rfl : c = '.' := by simpa using hhead
      refine Or.inr ⟨String.ofList rest, ?_⟩
      rw [hrest] at hname
      rw [String.append_assoc]
      exact hname.trans (by simp [String.ofList_cons])

/-- **What a file name has before its first dot** is its stem, and nothing else is. -/
theorem isStem_iff {stem name : String} : IsStem stem name ↔ stem = stemOf name := by
  constructor
  · rintro ⟨hdot, hname⟩
    have hbefore : ∀ c ∈ stem.toList, (c != '.') = true := fun c hc =>
      bne_iff_ne.2 fun heq => hdot (heq ▸ hc)
    obtain ⟨rest, hlist, hrest⟩ : ∃ rest, name.toList = stem.toList ++ rest ∧ rest.takeWhile (· != '.') = [] := by
      rcases hname with rfl | ⟨rest, rfl⟩
      · exact ⟨[], (List.append_nil _).symm, rfl⟩
      · exact ⟨'.' :: rest.toList, by simp, by simp⟩
    rw [stemOf, hlist, List.takeWhile_append_of_pos hbefore, hrest, List.append_nil, String.ofList_toList]
  · rintro rfl
    exact isStem_stemOf name

/-! ## Extensions -/

/-- `IsExtension extension name`: the text `extension` is what a file name has after its last dot, and something
stands before this dot. -/
structure IsExtension (extension name : String) : Prop where
  /-- There is no dot in it. -/
  noDot : '.' ∉ extension.toList
  /-- Something stands before it and the dot. -/
  behind : ∃ front, front ≠ "" ∧ name = front ++ "." ++ extension

/-- The last dot of a file name, if it has one. -/
theorem exists_last_dot {name : String} (h : '.' ∈ name.toList) :
    ∃ front back, name = front ++ "." ++ back ∧ '.' ∉ back.toList := by
  obtain ⟨back, front, hsplit, hback⟩ := List.eq_append_cons_of_mem (List.mem_reverse.2 h)
  refine ⟨String.ofList front.reverse, String.ofList back.reverse, ?_, ?_⟩
  · rw [← String.toList_inj, ← List.reverse_inj, hsplit]
    simp
  · simpa using hback

/-- The extension of a file name that is cut at its last dot. -/
theorem extensionOf?_append {front back : String} (hback : '.' ∉ back.toList) :
    extensionOf? (front ++ "." ++ back) =
      if front ++ "." ++ back = ".." ∨ front = "" then none else some back := by
  have hreverse : (front ++ "." ++ back).toList.reverse =
      back.toList.reverse ++ '.' :: front.toList.reverse := by
    simp
  have hbefore : ∀ c ∈ back.toList.reverse, (c != '.') = true := by
    intro c hc
    rw [bne_iff_ne]
    rintro rfl
    exact hback (List.mem_reverse.1 hc)
  have hafter : (front ++ "." ++ back).toList.reverse.takeWhile (· != '.') = back.toList.reverse := by
    rw [hreverse, List.takeWhile_append_of_pos hbefore]
    simp
  have hfront : (front ++ "." ++ back).toList.reverse.dropWhile (· != '.') = '.' :: front.toList.reverse := by
    rw [hreverse, List.dropWhile_append_of_pos hbefore]
    simp
  unfold extensionOf?
  dsimp only
  rw [hafter, hfront, List.reverse_reverse, String.ofList_toList]
  simp [String.toList_eq_nil_iff]

/-- **What the extension of a file name is**: what the name has after its last dot, if something stands before
this dot. -/
theorem extensionOf?_eq_some_iff {name extension : String} (h : name ≠ "..") :
    extensionOf? name = some extension ↔ IsExtension extension name := by
  constructor
  · intro hext
    by_cases hdot : '.' ∈ name.toList
    · obtain ⟨front, back, rfl, hback⟩ := exists_last_dot hdot
      rw [extensionOf?_append hback] at hext
      split at hext
      · cases hext
      · next hnot =>
        obtain rfl := Option.some.inj hext
        exact ⟨hback, front, (not_or.1 hnot).2, rfl⟩
    · have hnone : name.toList.reverse.dropWhile (· != '.') = [] := by
        rw [List.dropWhile_eq_nil_iff]
        intro c hc
        rw [bne_iff_ne]
        rintro rfl
        exact hdot (List.mem_reverse.1 hc)
      simp [extensionOf?, hnone] at hext
  · rintro ⟨hback, front, hfront, rfl⟩
    rw [extensionOf?_append hback, if_neg (not_or.2 ⟨h, hfront⟩)]

/-- A file name is a name, and one of the parts of its path. -/
theorem of_fileName?_eq_some {name : String} (h : p.fileName? = some name) :
    IsName name ∧ name ∈ p.parts := by
  refine of_mem_names ?_
  unfold fileName? at h
  split at h
  · next _ hlast =>
    obtain rfl := Option.some.inj h
    exact List.mem_filterMap.2 ⟨_, List.mem_of_getLast? hlast, rfl⟩
  · cases h

/-- **What the extension of a path is**: that of its file name. -/
theorem extension?_eq_some_iff {extension : String} :
    p.extension? = some extension ↔ ∃ name, p.fileName? = some name ∧ IsExtension extension name := by
  rw [extension?, Option.bind_eq_some_iff]
  refine exists_congr fun name => and_congr_right fun hname => ?_
  exact extensionOf?_eq_some_iff (of_fileName?_eq_some hname).1.2

end Path

end TestScaffold
