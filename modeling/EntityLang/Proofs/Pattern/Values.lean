import EntityLang.Checking.Program
import EntityLang.Program.Declare
import EntityLang.Proofs.Pattern.Overlap
import Mathlib.Data.Set.Insert

/-!
# Patterns as sets of values

A meaning gives every type its values: `none` has one, every type has some, and different types have
none in common. An optional pattern has the values of its inner pattern and `none`.

The test for fitting compares cores and outermost layers, and knows nothing of values. It is sound:
whatever fits has no value that the other pattern lacks. Beyond the rule that what is optional never
fits what is required, it misses one inclusion. An optional pattern of `none` has no value but
`none`, and still it fits no optional pattern of another type.
-/

namespace EntityLang

namespace Pattern

/-- A type by itself. -/
abbrev Nominal := {d : Pattern // d.isNominal = true}

/-- What types mean: the values that each of them has. -/
structure Meaning (α : Type*) where
  /-- The value `none`. -/
  none : α
  /-- The values of a type. -/
  valuesOf : Nominal → Set α
  valuesOf_nothing : valuesOf ⟨nothing, rfl⟩ = {none}
  nonempty : ∀ d, (valuesOf d).Nonempty
  /-- Types that have a value in common are the same. -/
  disjoint : ∀ d e v, v ∈ valuesOf d → v ∈ valuesOf e → d = e

/-- Both patterns are optional, the first one of `none` and the second one of another type. -/
def OptionalNone (a b : Pattern) : Prop :=
  a.isOptional = true ∧ b.isOptional = true ∧ a.core = nothing ∧ b.core ≠ nothing

namespace Meaning

/-- The values of a pattern. It has no values of its own while its core is a name or invalid. -/
def values {α : Type*} (M : Meaning α) : Pattern → Set α
  | .optional inner => insert M.none (M.values inner)
  | .enum h => M.valuesOf ⟨.enum h, rfl⟩
  | .entity h => M.valuesOf ⟨.entity h, rfl⟩
  | .native h => M.valuesOf ⟨.native h, rfl⟩
  | .unresolved _ | .invalid => ∅

variable {α : Type*} (M : Meaning α)

/-- The only value of `none` is `none`. -/
@[simp] theorem values_nothing : M.values nothing = {M.none} := M.valuesOf_nothing

/-- However many optional layers there are, they add `none` and nothing else. -/
theorem mem_values_iff {a : Pattern} {v : α} :
    v ∈ M.values a ↔ v ∈ M.values a.core ∨ a.isOptional = true ∧ v = M.none := by
  induction a with
  | optional inner ih =>
    rw [values, Set.mem_insert_iff, ih]
    simp only [core, isOptional, true_and]
    tauto
  | _ => simp [core, isOptional]

section Nominal

variable {M} {d e : Pattern} (hd : d.isNominal = true)
include hd

/-- The values of a nominal pattern are those assigned to it. -/
theorem values_of_isNominal : M.values d = M.valuesOf ⟨d, hd⟩ := by
  cases d with
  | enum h => rfl
  | entity h => rfl
  | native h => rfl
  | _ => simp [isNominal] at hd

/-- Two nominal patterns that share a value are the same. -/
theorem eq_of_mem_values (he : e.isNominal = true) {v : α} (hvd : v ∈ M.values d)
    (hve : v ∈ M.values e) : d = e := by
  rw [values_of_isNominal hd] at hvd
  rw [values_of_isNominal he] at hve
  exact congrArg Subtype.val (M.disjoint ⟨d, hd⟩ ⟨e, he⟩ v hvd hve)

/-- For a type, fitting and inclusion of values agree. -/
theorem values_subset_iff_fits {b : Pattern} (hb : b.isInvalid = false)
    (hb' : b.isUnresolved = false) : M.values d ⊆ M.values b ↔ d.fits b = true := by
  rw [nominal_fits_iff hd hb]
  constructor
  · intro hsub
    -- Any one value of the type tells where it comes from: from the core or from the layers.
    obtain ⟨v, hv⟩ : (M.values d).Nonempty := values_of_isNominal hd ▸ M.nonempty ⟨d, hd⟩
    obtain hcore | ⟨hoptional, rfl⟩ := M.mem_values_iff.mp (hsub hv)
    · exact .inl (eq_of_mem_values hd (isNominal_core hb hb') hv hcore)
    · exact .inr ⟨eq_of_mem_values hd rfl hv (by simp), hoptional⟩
  · rintro (rfl | ⟨rfl, hoptional⟩) v hv
    · exact M.mem_values_iff.mpr (.inl hv)
    · exact M.mem_values_iff.mpr (.inr ⟨hoptional, by simpa using hv⟩)

end Nominal

/-- The values of an optional pattern lie in those of another one if the values of its core do. -/
theorem values_subset_iff_core {a b : Pattern} (h : a.isOptional = true → b.isOptional = true) :
    M.values a ⊆ M.values b ↔ M.values a.core ⊆ M.values b := by
  constructor
  · intro hsub v hv
    exact hsub (M.mem_values_iff.mpr (.inl hv))
  · intro hsub v hv
    obtain hcore | ⟨hoptional, rfl⟩ := M.mem_values_iff.mp hv
    · exact hsub hcore
    · exact M.mem_values_iff.mpr (.inr ⟨h hoptional, rfl⟩)

/-- An optional pattern of `none` has the value `none` alone. -/
theorem values_eq_singleton {a : Pattern} (ha : a.core = nothing) : M.values a = {M.none} := by
  ext v
  rw [M.mem_values_iff, ha, values_nothing, Set.mem_singleton_iff]
  tauto

end Meaning

section Fits

variable {a b : Pattern} (ha : a.isInvalid = false) (ha' : a.isUnresolved = false)
  (hb : b.isInvalid = false) (hb' : b.isUnresolved = false)
include ha ha' hb hb'

omit hb' in
/-- A pattern fits if its core does, except that an optional pattern fits no required one, and an
optional pattern of `none` no optional one of another type. -/
theorem fits_iff_core_fits : a.fits b = true ↔
    a.core.fits b = true ∧ (a.isOptional = true → b.isOptional = true) ∧ ¬ a.OptionalNone b := by
  have hcore := isNominal_core ha ha'
  rw [fits_iff ha hb, nominal_fits_iff hcore hb, sameType_iff_eq hcore, eq_nothing_iff,
    OptionalNone]
  cases a.isOptional with
  | false => simp
  | true =>
    cases b.isOptional with
    | false => simp
    | true =>
      by_cases hnone : a.core = nothing
      · simp [hnone, eq_comm]
      · simp [hnone]

/-- A pattern fits another one exactly if all its values are values of the other one, apart from two
cases in which it never does: a pattern that is optional does not fit one that is not, and an
optional pattern of `none` does not fit an optional pattern of another type. The first is a rule of
the language. In the second the values are included all the same: there is only `none`. -/
theorem fits_iff_values_subset {α : Type*} (M : Meaning α) :
    (a.fits b = true ↔ M.values a ⊆ M.values b ∧
        (a.isOptional = true → b.isOptional = true) ∧ ¬ a.OptionalNone b) ∧
      (a.OptionalNone b → M.values a = {M.none} ∧ M.values a ⊆ M.values b) := by
  constructor
  · rw [fits_iff_core_fits ha ha' hb,
      ← Meaning.values_subset_iff_fits (M := M) (isNominal_core ha ha') hb hb']
    refine and_congr_left fun h => ?_
    exact (M.values_subset_iff_core h.1).symm
  · rintro ⟨-, hoptional, hnone, -⟩
    have hvalues := M.values_eq_singleton hnone
    refine ⟨hvalues, ?_⟩
    rw [hvalues, Set.singleton_subset_iff]
    exact M.mem_values_iff.mpr (.inr ⟨hoptional, rfl⟩)

end Fits

/-- The meaning in which every type has a single value. -/
def Meaning.single : Meaning Nominal where
  none := ⟨nothing, rfl⟩
  valuesOf d := {d}
  valuesOf_nothing := rfl
  nonempty := Set.singleton_nonempty
  disjoint _ _ _ hd he := hd.symm.trans he

/-- The number of optional layers makes no difference, and a string is not an integer or `none`. -/
theorem fits_iff_values_subset_layers :
    let a : Pattern := .optional (.optional .int)
    let b : Pattern := .optional .int
    (a.isInvalid = false ∧ a.isUnresolved = false ∧ b.isInvalid = false ∧ b.isUnresolved = false) ∧
      Meaning.single.values a ⊆ Meaning.single.values b ∧
      ¬ Meaning.single.values .string ⊆ Meaning.single.values b := by
  intro a b
  refine ⟨⟨rfl, rfl, rfl, rfl⟩, ?_, fun hsub => ?_⟩
  · have hfits := (fits_iff_values_subset (a := a) (b := b) rfl rfl rfl rfl .single).1
    exact (hfits.mp (by decide)).1
  · have hfits := (fits_iff_values_subset (a := .string) (b := b) rfl rfl rfl rfl .single).1
    have hstring : Pattern.string.fits b = false := by decide
    rw [hstring] at hfits
    refine absurd (hfits.mpr ⟨hsub, ?_, ?_⟩) (by decide)
    · simp [isOptional]
    · simp [OptionalNone, isOptional]

end Pattern

/-- A conditional that is `none` in either case. -/
def Expr.absent : Expr :=
  .cond [⟨.literal (.bool true) .dummy, .literal .none .dummy, .dummy⟩] none ⟨1, 9, 1, 2⟩

/-- A state that may be `none` and is `none` at first. -/
def Program.vacant : Program :=
  (Program.fresh.declareState Program.globalScope "a" (.optional .int) [] (some .absent)).2

/-- All values of the conditional are values of the state's pattern, but it does not fit and the
state is reported. -/
theorem check_vacant_refuses_none :
    Expr.absent.pattern .vacant = .optional .nothing ∧
      Pattern.Meaning.single.values (.optional .nothing) ⊆
        Pattern.Meaning.single.values (.optional .int) ∧
      (Pattern.optional .nothing).fits (.optional .int) = false ∧
      Program.vacant.check = .found [(Problem.stateValue "a").reportAt ⟨1, 9, 1, 2⟩] := by
  refine ⟨by decide +kernel, ?_, by decide, by decide +kernel⟩
  rintro v (rfl | rfl) <;> exact Set.mem_insert _ _

end EntityLang
