import EntityLang.Proofs.Pattern.Order
import Mathlib.Tactic.Tauto

/-!
# Patterns with a type in common

A nominal pattern is a type by itself: an enum, an entity or a native type, `none` among them. Two
patterns have a type in common if some nominal pattern fits both. `overlaps` compares the cores, and
looks for `none` on one side where the other side is optional. It does not see that two optional
patterns have `none` in common through their optional layers alone.
-/

namespace EntityLang.Pattern

/-- The pattern is an enum, an entity or a native type. -/
def isNominal : Pattern → Bool
  | .enum _ | .entity _ | .native _ => true
  | .unresolved _ | .optional _ | .invalid => false

/-- Some nominal pattern fits both patterns. -/
def ShareType (a b : Pattern) : Prop :=
  ∃ d : Pattern, d.isNominal = true ∧ d.fits a = true ∧ d.fits b = true

/-- Both patterns are optional, of different types of which neither is `none`: `none` is the only
type that they have in common, and neither has it for its core. -/
def ShareNoneOnly (a b : Pattern) : Prop :=
  a.isOptional = true ∧ b.isOptional = true ∧ a.core ≠ b.core ∧ a.core ≠ nothing ∧
    b.core ≠ nothing

section Nominal

variable {a b d : Pattern}

/-- A core that is neither invalid nor a name is nominal. -/
theorem isNominal_core (hvalid : a.isInvalid = false) (hresolved : a.isUnresolved = false) :
    a.core.isNominal = true := by
  induction a with
  | optional inner ih => exact ih hvalid hresolved
  | unresolved name => simp [isUnresolved, unresolved?, core] at hresolved
  | invalid => simp [isInvalid, core] at hvalid
  | _ => rfl

/-- A nominal pattern is its own core. -/
theorem core_of_isNominal (hd : d.isNominal = true) : d.core = d := by
  cases d <;> simp_all [isNominal, core]

/-- A nominal pattern is not optional. -/
theorem isOptional_of_isNominal (hd : d.isNominal = true) : d.isOptional = false := by
  cases d <;> simp_all [isNominal, isOptional]

/-- A nominal pattern is valid. -/
theorem isInvalid_of_isNominal (hd : d.isNominal = true) : d.isInvalid = false := by
  cases d <;> simp_all [isNominal, isInvalid, core]

/-- Types that are not names are the same only if they are equal. -/
theorem sameType_iff_eq (hd : d.isNominal = true) : sameType d b = true ↔ d = b := by
  cases d <;> cases b <;> simp_all [isNominal, sameType]

/-- A nominal pattern fits a pattern that has it for its core, and `none` fits what is optional. -/
theorem nominal_fits_iff (hd : d.isNominal = true) (ha : a.isInvalid = false) :
    d.fits a = true ↔ d = a.core ∨ d = nothing ∧ a.isOptional = true := by
  rw [fits_iff (isInvalid_of_isNominal hd) ha, isOptional_of_isNominal hd, core_of_isNominal hd,
    sameType_iff_eq hd]
  simp

/-- Two optional patterns have `none` in common. -/
theorem ShareNoneOnly.shareType (h : a.ShareNoneOnly b) (ha : a.isInvalid = false)
    (hb : b.isInvalid = false) : a.ShareType b :=
  ⟨nothing, rfl, (nominal_fits_iff rfl ha).mpr (.inr ⟨rfl, h.1⟩),
    (nominal_fits_iff rfl hb).mpr (.inr ⟨rfl, h.2.1⟩)⟩

end Nominal

section Overlap

variable {a b : Pattern} (ha : a.isInvalid = false) (ha' : a.isUnresolved = false)
  (hb : b.isInvalid = false) (hb' : b.isUnresolved = false)
include ha ha' hb hb'

/-- Patterns share a type if they have the same core, or if one has the core `none` and the other is
optional, or if both are optional. -/
theorem shareType_iff : a.ShareType b ↔
    a.core = b.core ∨ (a.core = nothing ∧ b.isOptional = true) ∨
      (b.core = nothing ∧ a.isOptional = true) ∨ (a.isOptional = true ∧ b.isOptional = true) := by
  have hcore := isNominal_core ha ha'
  have hcore' := isNominal_core hb hb'
  constructor
  · rintro ⟨d, hd, hda, hdb⟩
    rw [nominal_fits_iff hd ha] at hda
    rw [nominal_fits_iff hd hb] at hdb
    obtain rfl | ⟨rfl, hoa⟩ := hda
    · exact hdb.imp id fun h => .inl h
    · obtain hnone | ⟨-, hob⟩ := hdb
      · exact .inr (.inr (.inl ⟨hnone.symm, hoa⟩))
      · exact .inr (.inr (.inr ⟨hoa, hob⟩))
  · have hfits (d : Pattern) (hd : d.isNominal = true)
        (hda : d = a.core ∨ d = nothing ∧ a.isOptional = true)
        (hdb : d = b.core ∨ d = nothing ∧ b.isOptional = true) : a.ShareType b :=
      ⟨d, hd, (nominal_fits_iff hd ha).mpr hda, (nominal_fits_iff hd hb).mpr hdb⟩
    rintro (heq | ⟨hnone, hob⟩ | ⟨hnone, hoa⟩ | ⟨hoa, hob⟩)
    · exact hfits a.core hcore (.inl rfl) (.inl heq)
    · exact hfits a.core hcore (.inl rfl) (.inr ⟨hnone, hob⟩)
    · exact hfits b.core hcore' (.inr ⟨hnone, hoa⟩) (.inl rfl)
    · exact hfits nothing rfl (.inr ⟨rfl, hoa⟩) (.inr ⟨rfl, hob⟩)

/-- The test compares the cores, and looks for `none` where the other side is optional. -/
theorem overlaps_eq_true_iff : a.overlaps b = true ↔
    a.core = b.core ∨ (a.core = nothing ∧ b.isOptional = true) ∨
      (b.core = nothing ∧ a.isOptional = true) := by
  simp only [overlaps, ha, ha', hb, hb', Bool.false_or, Bool.or_eq_true, Bool.and_eq_true,
    decide_eq_true_eq, sameType_iff_eq (isNominal_core ha ha')]
  tauto

/-- Patterns overlap exactly if they share a type other than through optional layers alone. -/
theorem overlaps_iff_shareType :
    a.overlaps b = true ↔ a.ShareType b ∧ ¬ a.ShareNoneOnly b := by
  rw [overlaps_eq_true_iff ha ha' hb hb', shareType_iff ha ha' hb hb', ShareNoneOnly]
  tauto

end Overlap

end EntityLang.Pattern
