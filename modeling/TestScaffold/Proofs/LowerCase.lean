import TestScaffold.Text.LowerCase

set_option autoImplicit false

/-!
# Names in lower case stay as they are

The variable that holds an instance is named after a class by putting its first character into lower case.
Doing so once more changes nothing, for no character that begins a lower-case form has another one.

## Main results

* `TestScaffold.lowerCase_of_head` — the first character of a lower-case form is its own lower-case form.
* `TestScaffold.decapitalize_decapitalize` — a name that begins in lower case is kept.
-/

namespace TestScaffold

/-! ## The images of the table -/

namespace CaseRun

/-- The last code point that a run maps to. -/
def lastTarget (r : CaseRun) : Nat := r.target + (r.last - r.first)

/-- Whether the images of a run all lie outside another run: beyond its ends, or between its code points. -/
def mapsOutside (r s : CaseRun) : Bool :=
  Nat.blt r.lastTarget s.first || Nat.blt s.last r.target ||
    (Nat.beq r.first r.last || Nat.beq r.step 2) && Nat.beq s.step 2 &&
      Nat.beq ((r.target + s.first) % 2) 1

/-- Whether the images of a run are characters, none of them the dotted capital `I`. -/
def mapsToChars (r : CaseRun) : Bool :=
  (Nat.blt r.lastTarget dottedCapitalI.toNat || Nat.blt dottedCapitalI.toNat r.target) &&
    (Nat.blt r.lastTarget 0xD800 || Nat.blt 0xDFFF r.target && Nat.blt r.lastTarget 0x110000)

/-- What a run maps a code point to. -/
def image (r : CaseRun) (n : Nat) : Nat := r.target + (n - r.first)

/-- A run that maps outside another has no image in it. -/
theorem covers_image {r s : CaseRun} (h : r.mapsOutside s = true) {n : Nat} (hn : r.covers n = true) :
    s.covers (r.image n) = false := by
  rw [Bool.eq_false_iff]
  intro hs
  simp only [covers, Bool.and_eq_true, decide_eq_true_eq, beq_iff_eq] at hn hs
  obtain ⟨⟨hfirst, hlast⟩, hstep⟩ := hn
  obtain ⟨⟨hfirst', hlast'⟩, hstep'⟩ := hs
  simp only [mapsOutside, lastTarget, Bool.or_eq_true, Bool.and_eq_true, Nat.blt_eq, Nat.beq_eq] at h
  unfold image at hfirst' hlast' hstep'
  rcases h with (h | h) | ⟨⟨hone | htwo, htwo'⟩, hparity⟩
  · omega
  · omega
  · rw [htwo'] at hstep'
    omega
  · rw [htwo] at hstep
    rw [htwo'] at hstep'
    omega

/-- The images of a run that maps to characters are code points of characters. -/
theorem toNat_ofNat_image {r : CaseRun} (h : r.mapsToChars = true) {n : Nat} (hn : r.covers n = true) :
    (Char.ofNat (r.image n)).toNat = r.image n ∧ r.image n ≠ dottedCapitalI.toNat := by
  simp only [covers, Bool.and_eq_true, decide_eq_true_eq, beq_iff_eq] at hn
  simp only [mapsToChars, lastTarget, Bool.or_eq_true, Bool.and_eq_true, Nat.blt_eq] at h
  have hvalid : (r.image n).isValidChar := by
    unfold Nat.isValidChar image
    omega
  constructor
  · rw [Char.ofNat, dif_pos hvalid]
    rfl
  · unfold image
    omega

end CaseRun

/-- No run of the table maps into another, nor into itself. -/
theorem mapsOutside_caseRuns : (caseRuns.all fun r => caseRuns.all r.mapsOutside) = true := by
  decide +kernel

/-- All runs of the table map to characters. -/
theorem mapsToChars_caseRuns : caseRuns.all CaseRun.mapsToChars = true := by
  decide +kernel

/-! ## Lower-case forms -/

/-- A character that no run covers and that is not the dotted capital `I` stands for itself. -/
theorem lowerCase_of_not_covers {c : Char} (hdotted : c.toNat ≠ dottedCapitalI.toNat)
    (h : ∀ r ∈ caseRuns, r.covers c.toNat = false) : lowerCase c = [c] := by
  have hne : c ≠ dottedCapitalI := fun heq => hdotted (congrArg Char.toNat heq)
  have hnone : caseRuns.find? (·.covers c.toNat) = none := by
    rw [List.find?_eq_none]
    intro r hr
    rw [h r hr]
    exact Bool.false_ne_true
  rw [lowerCase, if_neg hne, hnone]

/-- The first character of a lower-case form is its own lower-case form. -/
theorem lowerCase_of_head {c d : Char} {ds : List Char} (h : lowerCase c = d :: ds) :
    lowerCase d = [d] := by
  unfold lowerCase at h
  split at h
  · obtain ⟨rfl, -⟩ := List.cons.inj h
    decide
  · next hne =>
    split at h
    · next r hr =>
      obtain ⟨rfl, -⟩ := List.cons.inj h
      have hcovers : r.covers c.toNat = true := by simpa using List.find?_some hr
      have hin := List.mem_of_find?_eq_some hr
      obtain ⟨hnat, hdotted⟩ :=
        CaseRun.toNat_ofNat_image (List.all_eq_true.1 mapsToChars_caseRuns r hin) hcovers
      have houtside := List.all_eq_true.1 (List.all_eq_true.1 mapsOutside_caseRuns r hin)
      apply lowerCase_of_not_covers
      · exact hnat ▸ hdotted
      · intro s hs
        exact hnat ▸ CaseRun.covers_image (houtside s hs) hcovers
    · next hnone =>
      obtain ⟨rfl, -⟩ := List.cons.inj h
      rw [lowerCase, if_neg hne, hnone]

/-- **A name that begins in lower case is kept**, as is the name of the variable of an instance. -/
theorem decapitalize_decapitalize (name : String) :
    decapitalize (decapitalize name) = decapitalize name := by
  cases hname : name.toList with
  | nil => simp [decapitalize, hname]
  | cons c cs =>
    obtain ⟨d, ds, hlower⟩ := List.exists_cons_of_ne_nil (lowerCase_ne_nil c)
    have hform : decapitalize name = String.ofList (d :: (ds ++ cs)) := by
      simp [decapitalize, hname, hlower]
    rw [hform, decapitalize, String.toList_ofList]
    show String.ofList (lowerCase d ++ (ds ++ cs)) = _
    rw [lowerCase_of_head hlower, List.singleton_append]

end TestScaffold
