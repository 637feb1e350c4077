import EntityLang.Pattern.Order

/-!
# The order of patterns

Among patterns that are not invalid, fitting is a preorder and `unify` finds joins: the pattern that
it gives is fitted by both, and fits everything that both fit. An invalid pattern stands for an
unknown one. It fits everything and everything fits it, so nothing follows from a chain of fitting
patterns that leads through an invalid one.
-/

namespace EntityLang.Pattern

/-- Only the required pattern of `none` is the pattern of `none`. -/
theorem eq_nothing_iff (a : Pattern) : a = nothing ↔ a.core = nothing ∧ a.isOptional = false := by
  cases a <;> simp [core, isOptional]

section SameType

/-- A core that is not invalid names the type that it names. -/
theorem sameType_core_self {a : Pattern} (ha : a.isInvalid = false) :
    sameType a.core a.core = true := by
  induction a with
  | optional inner ih => exact ih ha
  | invalid => simp [isInvalid, core] at ha
  | _ => simp [core, sameType]

/-- Being the same type is symmetric. -/
theorem sameType_symm {a b : Pattern} (h : sameType a b = true) : sameType b a = true := by
  cases a <;> cases b <;> simp_all [sameType]

/-- Being the same type is transitive. -/
theorem sameType_trans {a b c : Pattern} (hab : sameType a b = true) (hbc : sameType b c = true) :
    sameType a c = true := by
  cases a <;> cases b <;> simp [sameType] at hab <;> cases c <;> simp_all [sameType]

/-- No other type is that of `none`. -/
theorem eq_nothing_of_sameType {a b : Pattern} (h : sameType a b = true) (hb : b = nothing) :
    a = nothing := by
  subst hb
  cases a <;> simp_all [sameType]

/-- A pattern whose core names a type is not invalid. -/
theorem isInvalid_of_sameType {a b : Pattern} (h : sameType a.core b.core = true) :
    a.isInvalid = false := by
  unfold isInvalid
  cases ha : a.core with
  | invalid => simp [ha, sameType] at h
  | _ => rfl

/-- A name is the same type as a name only. -/
theorem isUnresolved_of_sameType {a b : Pattern} (h : sameType a.core b.core = true)
    (ha : a.isUnresolved = true) : b.isUnresolved = true := by
  unfold isUnresolved unresolved? at ha ⊢
  cases hcore : a.core with
  | unresolved name => cases hb : b.core <;> simp_all [sameType]
  | _ => simp [hcore] at ha

end SameType

/-- An optional layer does not change whether a pattern is invalid. -/
@[simp] theorem isInvalid_toOptional (a : Pattern) : a.toOptional.isInvalid = a.isInvalid := by
  simp [isInvalid]

/-- A pattern with an optional layer is optional. -/
@[simp] theorem isOptional_toOptional (a : Pattern) : a.toOptional.isOptional = true := by
  unfold toOptional
  split
  · assumption
  · rfl

/-- An invalid pattern fits everything. -/
theorem fits_of_isInvalid_left {a : Pattern} (ha : a.isInvalid = true) (b : Pattern) :
    a.fits b = true := by
  simp [fits, ha]

/-- Everything fits an invalid pattern. -/
theorem fits_of_isInvalid_right (a : Pattern) {b : Pattern} (hb : b.isInvalid = true) :
    a.fits b = true := by
  simp [fits, hb]

/-- What fits has the same type or is `none`, and an optional pattern fits optional ones only. -/
theorem fits_iff {a b : Pattern} (ha : a.isInvalid = false) (hb : b.isInvalid = false) :
    a.fits b = true ↔ (a.isOptional = true → b.isOptional = true) ∧
      (sameType a.core b.core = true ∨ a = nothing ∧ b.isOptional = true) := by
  rw [eq_nothing_iff]
  cases hoa : a.isOptional <;> cases hob : b.isOptional <;> simp [fits, ha, hb, hoa, hob, or_comm]

/-- Every pattern fits itself. -/
@[simp] theorem fits_refl (a : Pattern) : a.fits a = true := by
  cases ha : a.isInvalid with
  | true => exact fits_of_isInvalid_left ha a
  | false => exact (fits_iff ha ha).mpr ⟨id, .inl (sameType_core_self ha)⟩

/-- Fitting is transitive, except through an invalid pattern. -/
theorem fits_trans {a b c : Pattern} (hb : b.isInvalid = false) (hab : a.fits b = true)
    (hbc : b.fits c = true) : a.fits c = true := by
  cases ha : a.isInvalid with
  | true => exact fits_of_isInvalid_left ha c
  | false =>
    cases hc : c.isInvalid with
    | true => exact fits_of_isInvalid_right a hc
    | false =>
      obtain ⟨hoab, hab⟩ := (fits_iff ha hb).mp hab
      obtain ⟨hobc, hbc⟩ := (fits_iff hb hc).mp hbc
      refine (fits_iff ha hc).mpr ⟨fun h => hobc (hoab h), ?_⟩
      obtain hab | ⟨hnone, hob⟩ := hab
      · obtain hbc | ⟨hnone, hoc⟩ := hbc
        · exact .inl (sameType_trans hab hbc)
        · -- Then `a` is required, because `b` is the required pattern of `none`.
          have hb := (eq_nothing_iff b).mp hnone
          have hoa : a.isOptional = false := by
            cases hoa : a.isOptional with
            | false => rfl
            | true => exact absurd (hoab hoa) (by simp [hb.2])
          exact .inr ⟨(eq_nothing_iff a).mpr ⟨eq_nothing_of_sameType hab hb.1, hoa⟩, hoc⟩
      · exact .inr ⟨hnone, hobc hob⟩

/-- A pattern fits itself made optional. -/
theorem fits_toOptional (a : Pattern) : a.fits a.toOptional = true := by
  cases ha : a.isInvalid with
  | true => exact fits_of_isInvalid_left ha _
  | false =>
    refine (fits_iff ha (by simpa using ha)).mpr ⟨fun _ => isOptional_toOptional a, .inl ?_⟩
    rw [core_toOptional]
    exact sameType_core_self ha

/-- `none` fits every pattern made optional. -/
theorem nothing_fits_toOptional (a : Pattern) : nothing.fits a.toOptional = true := by
  cases ha : a.isInvalid with
  | true => exact fits_of_isInvalid_right _ (by simpa using ha)
  | false =>
    exact (fits_iff rfl (by simpa using ha)).mpr
      ⟨fun _ => isOptional_toOptional a, .inr ⟨rfl, isOptional_toOptional a⟩⟩

/-- What fits an optional pattern still does when it is made optional itself. -/
theorem toOptional_fits {a c : Pattern} (hc : c.isOptional = true) (h : a.fits c = true)
    (ha : a ≠ nothing) : a.toOptional.fits c = true := by
  cases hia : a.isInvalid with
  | true => exact fits_of_isInvalid_left (by simpa using hia) c
  | false =>
    cases hic : c.isInvalid with
    | true => exact fits_of_isInvalid_right _ hic
    | false =>
      obtain ⟨-, htype | ⟨hnone, -⟩⟩ := (fits_iff hia hic).mp h
      · refine (fits_iff (by simpa using hia) hic).mpr ⟨fun _ => hc, .inl ?_⟩
        rwa [core_toOptional]
      · exact absurd hnone ha

/-- A pattern is optional if `none` fits it and so does a pattern that `none` does not fit. -/
theorem isOptional_of_nothing_fits {b c : Pattern} (hb : b.isInvalid = false)
    (hc : c.isInvalid = false) (hnone : nothing.fits c = true) (hbc : b.fits c = true)
    (h : nothing.fits b = false) : c.isOptional = true := by
  obtain ⟨-, htype | ⟨-, hoc⟩⟩ := (fits_iff (a := nothing) rfl hc).mp hnone
  · obtain ⟨-, hbc | ⟨-, hoc⟩⟩ := (fits_iff hb hc).mp hbc
    · have hfits : nothing.fits b = true :=
        (fits_iff (a := nothing) rfl hb).mpr
          ⟨fun h => absurd h (by decide), .inl (sameType_trans htype (sameType_symm hbc))⟩
      exact absurd (h.symm.trans hfits) (by decide)
    · exact hoc
  · exact hoc

/-- The unified pattern has the core of one of the two. -/
theorem core_of_unify {a b c : Pattern} (h : unify a b = some c) :
    c.core = a.core ∨ c.core = b.core := by
  unfold unify at h
  split at h
  · exact .inr (congrArg core (Option.some.inj h).symm)
  · split at h
    · exact .inl (congrArg core (Option.some.inj h).symm)
    · split at h
      · exact .inr (by rw [← Option.some.inj h, core_toOptional])
      · split at h
        · exact .inl (by rw [← Option.some.inj h, core_toOptional])
        · exact absurd h (by simp)

/-- The pattern that unifies all has the core of one of them. -/
theorem core_of_unifyAll {ps : List Pattern} {c : Pattern} (h : unifyAll ps = some c) :
    ∃ x ∈ ps, c.core = x.core := by
  cases ps with
  | nil => simp [unifyAll] at h
  | cons first rest =>
    change rest.foldlM unify first = some c at h
    induction rest generalizing first with
    | nil => exact ⟨first, by simp, congrArg core (Option.some.inj h).symm⟩
    | cons b rest ih =>
      rw [List.foldlM_cons, Option.bind_eq_bind, Option.bind_eq_some_iff] at h
      obtain ⟨j, hj, h⟩ := h
      obtain ⟨x, hx, hcore⟩ := ih j h
      rcases List.mem_cons.mp hx with rfl | hx
      · rcases core_of_unify hj with hj | hj
        · exact ⟨first, by simp, hcore.trans hj⟩
        · exact ⟨b, by simp, hcore.trans hj⟩
      · exact ⟨x, by simp [hx], hcore⟩

/-- A pattern unified with itself is itself. -/
@[simp] theorem unify_self (a : Pattern) : unify a a = some a := by
  simp [unify]

/-- Patterns that are all the same are unified by that pattern, also if it is invalid. -/
theorem unifyAll_eq_of_forall_eq {ps : List Pattern} {c : Pattern} (hps : ps ≠ [])
    (h : ∀ x ∈ ps, x = c) : unifyAll ps = some c := by
  cases ps with
  | nil => exact absurd rfl hps
  | cons first rest =>
    obtain ⟨rfl, hrest⟩ := List.forall_mem_cons.mp h
    change rest.foldlM unify first = some first
    clear h hps
    induction rest with
    | nil => rfl
    | cons b rest ih =>
      obtain ⟨rfl, hrest⟩ := List.forall_mem_cons.mp hrest
      rw [List.foldlM_cons, unify_self]
      exact ih hrest

section Unify

variable {a b c : Pattern} (ha : a.isInvalid = false) (hb : b.isInvalid = false)
include ha hb

/-- Both patterns fit the unified one. -/
theorem fits_of_unify (h : unify a b = some c) :
    c.isInvalid = false ∧ a.fits c = true ∧ b.fits c = true := by
  unfold unify at h
  split at h
  · obtain rfl := Option.some.inj h
    exact ⟨hb, ‹_›, fits_refl b⟩
  · split at h
    · obtain rfl := Option.some.inj h
      exact ⟨ha, fits_refl a, ‹_›⟩
    · split at h
      · subst a
        obtain rfl := Option.some.inj h
        exact ⟨by simpa using hb, nothing_fits_toOptional b, fits_toOptional b⟩
      · split at h
        · subst b
          obtain rfl := Option.some.inj h
          exact ⟨by simpa using ha, fits_toOptional a, nothing_fits_toOptional a⟩
        · exact absurd h (by simp)

/-- The unified pattern fits everything that both patterns fit. -/
theorem exists_unify_fits (hc : c.isInvalid = false) (hac : a.fits c = true)
    (hbc : b.fits c = true) : ∃ j, unify a b = some j ∧ j.fits c = true := by
  unfold unify
  split
  · exact ⟨b, rfl, hbc⟩
  · rename_i hab
    rw [Bool.not_eq_true] at hab
    split
    · exact ⟨a, rfl, hac⟩
    · rename_i hba
      rw [Bool.not_eq_true] at hba
      have hne {x y : Pattern} (hx : x = nothing) (hxy : x.fits y = false) : y ≠ nothing := by
        rintro rfl
        simp [hx] at hxy
      split
      · rename_i hnone
        subst hnone
        exact ⟨_, rfl, toOptional_fits (isOptional_of_nothing_fits hb hc hac hbc hab) hbc
          (hne rfl hab)⟩
      · rename_i ha'
        split
        · rename_i hnone
          subst hnone
          exact ⟨_, rfl, toOptional_fits (isOptional_of_nothing_fits ha hc hbc hac hba) hac ha'⟩
        · rename_i hb'
          -- Both have the type of `c`, so one fits the other.
          obtain ⟨-, hac | ⟨hnone, -⟩⟩ := (fits_iff ha hc).mp hac
          · obtain ⟨-, hbc | ⟨hnone, -⟩⟩ := (fits_iff hb hc).mp hbc
            · have htype := sameType_trans hac (sameType_symm hbc)
              cases hoa : a.isOptional <;> cases hob : b.isOptional <;>
                simp_all [fits, sameType_symm htype]
            · exact absurd hnone hb'
          · exact absurd hnone ha'

end Unify

end EntityLang.Pattern
