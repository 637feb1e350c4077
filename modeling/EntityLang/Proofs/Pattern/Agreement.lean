import EntityLang.Proofs.Pattern.Order
import Mathlib.Data.List.Forall2

/-!
# Patterns that may take the place of others

The pattern of an expression may be used in four ways by what surrounds the expression. It may be
ignored. It may have to fit another pattern or be joined with others, and then any narrower pattern
will do as well. It may be the pattern of a condition, and then any other pattern of a condition will
do. Or it may be compared in both directions, and then only an equivalent pattern will do. An invalid
pattern does in each case, because it passes every test.

A pattern that is admitted in the place of another one passes every test that the other one passes.
-/

namespace EntityLang

open Pattern

/-- How the pattern of an expression is used by what surrounds the expression. -/
inductive Use where
  /-- Nothing depends on the pattern. -/
  | ignored
  /-- The pattern has to fit another pattern, or is joined with others. -/
  | fitted
  /-- The pattern has to be that of a condition: a truth value, or optional. -/
  | condition
  /-- The pattern is compared in both directions. -/
  | tested
  deriving DecidableEq

namespace Use

/-- The pattern `new` may take the place of `old`. -/
def Admits (u : Use) (old new : Pattern) : Prop :=
  match u with
  | .ignored => True
  | .fitted => new.isInvalid = true ∨ old.isInvalid = false ∧ new.fits old = true
  | .condition =>
    (old.fits .bool || old.isOptional) = true → (new.fits .bool || new.isOptional) = true
  | .tested =>
    new.isInvalid = true ∨ old.isInvalid = false ∧ new.fits old = true ∧ old.fits new = true

instance (u : Use) (old new : Pattern) : Decidable (u.Admits old new) :=
  match u with
  | .ignored => .isTrue trivial
  | .fitted => inferInstanceAs (Decidable (_ ∨ _ ∧ _))
  | .condition => inferInstanceAs (Decidable (_ → _))
  | .tested => inferInstanceAs (Decidable (_ ∨ _ ∧ _ ∧ _))

variable {u : Use} {a a' b b' : Pattern}

/-- An invalid pattern may take the place of any pattern. -/
theorem admits_of_isInvalid (u : Use) (a : Pattern) (hb : b.isInvalid = true) : u.Admits a b := by
  cases u with
  | ignored => trivial
  | fitted => exact .inl hb
  | condition =>
    intro _
    rw [fits_of_isInvalid_left hb, Bool.true_or]
  | tested => exact .inl hb

/-- Every pattern may stay in its place. -/
theorem admits_refl (u : Use) (a : Pattern) : u.Admits a a := by
  cases ha : a.isInvalid with
  | true => exact admits_of_isInvalid u a ha
  | false =>
    cases u with
    | ignored => trivial
    | fitted => exact .inr ⟨ha, fits_refl a⟩
    | condition => exact id
    | tested => exact .inr ⟨ha, fits_refl a, fits_refl a⟩

/-- A value that may take the place of another one fits where the other one does. -/
theorem Admits.fits (ha : fitted.Admits a a') (hb : tested.Admits b b') (h : a.fits b = true) :
    a'.fits b' = true := by
  obtain ha' | ⟨ha, haa⟩ := ha
  · exact fits_of_isInvalid_left ha' b'
  · obtain hb' | ⟨hb, -, hbb⟩ := hb
    · exact fits_of_isInvalid_right a' hb'
    · exact fits_trans hb (fits_trans ha haa h) hbb

/-- A pattern that is compared in both directions is lost, or keeps its type and its optionality. -/
theorem Admits.sameType (h : tested.Admits a b) :
    b.isInvalid = true ∨
      Pattern.sameType a.core b.core = true ∧ a.isOptional = b.isOptional := by
  obtain hb | ⟨ha, hba, hab⟩ := h
  · exact .inl hb
  · cases hb : b.isInvalid with
    | true => exact .inl rfl
    | false =>
      obtain ⟨hob, -⟩ := (fits_iff hb ha).mp hba
      obtain ⟨hoa, htype⟩ := (fits_iff ha hb).mp hab
      have hoptional : a.isOptional = b.isOptional := Bool.eq_iff_iff.mpr ⟨hoa, hob⟩
      refine .inr ⟨htype.resolve_right ?_, hoptional⟩
      -- the pattern of `none` is not optional, so it is no equivalent of an optional pattern
      rintro ⟨hnone, ho⟩
      rw [← hoptional, ((eq_nothing_iff a).mp hnone).2] at ho
      exact Bool.false_ne_true ho

/-- Patterns with something in common still have something in common. -/
theorem Admits.overlaps (ha : tested.Admits a a') (hb : tested.Admits b b')
    (h : a.overlaps b = true) : a'.overlaps b' = true := by
  obtain ha' | ⟨hta, hoa⟩ := ha.sameType
  · simp [Pattern.overlaps, ha']
  obtain hb' | ⟨htb, hob⟩ := hb.sameType
  · simp [Pattern.overlaps, hb']
  simp only [Pattern.overlaps, Bool.or_eq_true, Bool.and_eq_true, decide_eq_true_eq,
    isInvalid_of_sameType hta, isInvalid_of_sameType htb, Bool.false_eq_true, false_or, ← hoa, ← hob] at h ⊢
  have hnone {x y : Pattern} (h : Pattern.sameType x.core y.core = true)
      (hx : x.core = nothing) : y.core = nothing :=
    eq_nothing_of_sameType (sameType_symm h) hx
  have htype (h : Pattern.sameType a.core b.core = true) :
      Pattern.sameType a'.core b'.core = true :=
    sameType_trans (sameType_symm hta) (sameType_trans h htb)
  grind [isUnresolved_of_sameType]

/-- Joining patterns that may take the place of others gives a pattern that may take the place of
the join of the others. -/
theorem Admits.unify {j : Pattern} (ha : fitted.Admits a a') (hb : fitted.Admits b b')
    (h : unify a b = some j) : ∃ j', Pattern.unify a' b' = some j' ∧ fitted.Admits j j' := by
  cases hb' : b'.isInvalid with
  | true =>
    refine ⟨b', ?_, .inl hb'⟩
    rw [Pattern.unify, if_pos (fits_of_isInvalid_right a' hb')]
  | false =>
    obtain ⟨hvb, hbb⟩ := hb.resolve_left (by simp [hb'])
    have hbj : j.isInvalid = false ∧ b.fits j = true := by
      cases hva : a.isInvalid with
      | true =>
        rw [Pattern.unify, if_pos (fits_of_isInvalid_left hva b)] at h
        obtain rfl := Option.some.inj h
        exact ⟨hvb, fits_refl b⟩
      | false =>
        obtain ⟨hj, -, hbj⟩ := fits_of_unify hva hvb h
        exact ⟨hj, hbj⟩
    have hbj' := fits_trans hvb hbb hbj.2
    cases ha' : a'.isInvalid with
    | true =>
      refine ⟨b', ?_, .inr ⟨hbj.1, hbj'⟩⟩
      rw [Pattern.unify, if_pos (fits_of_isInvalid_left ha' b')]
    | false =>
      obtain ⟨hva, haa⟩ := ha.resolve_left (by simp [ha'])
      obtain ⟨hj, haj, -⟩ := fits_of_unify hva hvb h
      obtain ⟨j', hj', hfits⟩ := exists_unify_fits ha' hb' hj (fits_trans hva haa haj) hbj'
      exact ⟨j', hj', .inr ⟨hj, hfits⟩⟩

/-- If patterns have a join, so have patterns that may take their places. -/
theorem Admits.unifyAll {olds news : List Pattern} (h : List.Forall₂ fitted.Admits olds news)
    {j : Pattern} (hj : unifyAll olds = some j) :
    ∃ j', Pattern.unifyAll news = some j' ∧ fitted.Admits j j' := by
  cases h with
  | nil => simp [Pattern.unifyAll] at hj
  | @cons a a' olds news hfirst hrest =>
    change olds.foldlM Pattern.unify a = some j at hj
    change ∃ j', news.foldlM Pattern.unify a' = some j' ∧ fitted.Admits j j'
    -- The induction is on the patterns still to come, from any join so far.
    induction hrest generalizing a a' with
    | nil =>
      obtain rfl := Option.some.inj hj
      exact ⟨a', rfl, hfirst⟩
    | cons hx hrest ih =>
      rw [List.foldlM_cons, Option.bind_eq_bind, Option.bind_eq_some_iff] at hj
      obtain ⟨k, hk, hj⟩ := hj
      obtain ⟨k', hk', hkk⟩ := hfirst.unify hx hk
      obtain ⟨j', hj', hjj⟩ := ih hkk hj
      refine ⟨j', ?_, hjj⟩
      rw [List.foldlM_cons, hk']
      exact hj'

end Use

end EntityLang
