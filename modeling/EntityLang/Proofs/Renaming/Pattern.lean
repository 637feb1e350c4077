import EntityLang.Expr.Coerce
import EntityLang.Pattern.Order
import EntityLang.Program.Declare
import Mathlib.Logic.Equiv.Defs

/-!
# Renaming handles in patterns

A renaming permutes the handles of each kind. It keeps the handles that the language knows without
looking a name up: the global scope and the intrinsic native types. Patterns are compared by
equality of handles and by comparison with intrinsic types, so every comparison has the same outcome
under new handles.
-/

namespace EntityLang

/-- A permutation of the handles of each kind. -/
structure Renaming where
  on : (kind : NodeKind) → Equiv.Perm (Handle kind)
  globalScope : on .scope Program.globalScope = Program.globalScope
  intrinsic : ∀ h : NativeId, h.index < Program.intrinsics.length → on .native h = h

namespace Renaming

variable (ρ : Renaming) {kind : NodeKind}

/-- The new name of a handle. -/
def handle (h : Handle kind) : Handle kind := ρ.on kind h

/-- Different handles get different names. -/
@[simp] theorem handle_inj (h k : Handle kind) : ρ.handle h = ρ.handle k ↔ h = k :=
  (ρ.on kind).injective.eq_iff

/-- The global scope keeps its handle. -/
@[simp] theorem handle_globalScope : ρ.handle Program.globalScope = Program.globalScope :=
  ρ.globalScope

end Renaming

namespace Pattern

variable (ρ : Renaming)

/-- A pattern under new handles. -/
def rename : Pattern → Pattern
  | .unresolved name => .unresolved name
  | .optional inner => .optional inner.rename
  | .invalid => .invalid
  | .enum h => .enum (ρ.handle h)
  | .entity h => .entity (ρ.handle h)
  | .native h => .native (ρ.handle h)

/-- Only an intrinsic type becomes that intrinsic type. -/
theorem rename_eq_native_iff {h : NativeId} (hh : h.index < Program.intrinsics.length)
    (a : Pattern) : a.rename ρ = .native h ↔ a = .native h := by
  cases a with
  | native k =>
    have hself : ρ.handle h = h := ρ.intrinsic h hh
    rw [rename, native.injEq, native.injEq]
    constructor
    · intro hk
      rwa [← hself, ρ.handle_inj] at hk
    · rintro rfl
      exact hself
  | _ => simp [rename]

/-- Renaming keeps the pattern of `none`. -/
@[simp] theorem rename_nothing : rename ρ .nothing = .nothing :=
  (rename_eq_native_iff ρ (by decide) _).mpr rfl

/-- Renaming keeps `bool`. -/
@[simp] theorem rename_bool : rename ρ .bool = .bool :=
  (rename_eq_native_iff ρ (by decide) _).mpr rfl

/-- Renaming keeps `int`. -/
@[simp] theorem rename_int : rename ρ .int = .int :=
  (rename_eq_native_iff ρ (by decide) _).mpr rfl

/-- Renaming keeps `number`. -/
@[simp] theorem rename_number : rename ρ .number = .number :=
  (rename_eq_native_iff ρ (by decide) _).mpr rfl

/-- Renaming keeps `string`. -/
@[simp] theorem rename_string : rename ρ .string = .string :=
  (rename_eq_native_iff ρ (by decide) _).mpr rfl

/-- No other pattern is renamed to the pattern of `none`. -/
@[simp] theorem rename_eq_nothing_iff (a : Pattern) : a.rename ρ = .nothing ↔ a = .nothing :=
  rename_eq_native_iff ρ (by decide) a

/-- No other pattern is renamed to `number`. -/
@[simp] theorem rename_eq_number_iff (a : Pattern) : a.rename ρ = .number ↔ a = .number :=
  rename_eq_native_iff ρ (by decide) a

/-- The core of a pattern is renamed with it. -/
@[simp] theorem core_rename (a : Pattern) : (a.rename ρ).core = a.core.rename ρ := by
  induction a with
  | optional inner ih => exact ih
  | _ => rfl

/-- Renaming keeps optionality. -/
@[simp] theorem isOptional_rename (a : Pattern) : (a.rename ρ).isOptional = a.isOptional := by
  cases a <;> rfl

/-- Adding an optional layer commutes with renaming. -/
@[simp] theorem toOptional_rename (a : Pattern) :
    (a.rename ρ).toOptional = a.toOptional.rename ρ := by
  unfold toOptional
  rw [isOptional_rename]
  split <;> rfl

/-- Renaming keeps whether a pattern is invalid. -/
@[simp] theorem isInvalid_rename (a : Pattern) : (a.rename ρ).isInvalid = a.isInvalid := by
  unfold isInvalid
  rw [core_rename]
  cases a.core <;> rfl

/-- Renaming keeps the name that the core of a pattern still is. -/
@[simp] theorem unresolved?_rename (a : Pattern) : (a.rename ρ).unresolved? = a.unresolved? := by
  unfold unresolved?
  rw [core_rename]
  cases a.core <;> rfl

/-- The enum that a pattern asks for is renamed with it. -/
@[simp] theorem enum?_rename (a : Pattern) : (a.rename ρ).enum? = a.enum?.map ρ.handle := by
  unfold enum?
  rw [core_rename]
  cases a.core <;> rfl

/-- Renaming keeps whether two patterns are the same type. -/
@[simp] theorem sameType_rename (a b : Pattern) :
    sameType (a.rename ρ) (b.rename ρ) = sameType a b := by
  cases a <;> cases b <;> simp [rename, sameType]

/-- Renaming keeps whether a pattern fits another one. -/
@[simp] theorem fits_rename (a b : Pattern) : (a.rename ρ).fits (b.rename ρ) = a.fits b := by
  simp [fits]

/-- Renaming keeps whether a pattern may match a value of another one. -/
@[simp] theorem overlaps_rename (a b : Pattern) :
    (a.rename ρ).overlaps (b.rename ρ) = a.overlaps b := by
  simp [overlaps, isUnresolved]

/-- Unification commutes with renaming. -/
@[simp] theorem unify_rename (a b : Pattern) :
    unify (a.rename ρ) (b.rename ρ) = (unify a b).map (rename ρ) := by
  simp only [unify, fits_rename, rename_eq_nothing_iff, toOptional_rename]
  split
  · rfl
  · split
    · rfl
    · split
      · rfl
      · split <;> rfl

/-- Unification of a list commutes with renaming. -/
@[simp] theorem unifyAll_rename (as : List Pattern) :
    unifyAll (as.map (rename ρ)) = (unifyAll as).map (rename ρ) := by
  cases as with
  | nil => rfl
  | cons a rest =>
    change (rest.map (rename ρ)).foldlM unify (a.rename ρ) = (rest.foldlM unify a).map (rename ρ)
    induction rest generalizing a with
    | nil => rfl
    | cons b rest ih =>
      rw [List.map_cons, List.foldlM_cons, List.foldlM_cons, unify_rename]
      cases unify a b with
      | none => rfl
      | some j => exact ih j

/-- What is inferred from a join that may not exist. -/
@[simp] theorem getD_map_rename (a : Option Pattern) :
    (a.map (rename ρ)).getD .invalid = (a.getD .invalid).rename ρ := by
  cases a <;> rfl

/-- Renaming keeps whether a hint asks for a number. -/
@[simp] theorem isNumberHint_rename (hint : Option Pattern) :
    isNumberHint (hint.map (rename ρ)) = isNumberHint hint := by
  cases hint <;> simp [isNumberHint]

end Pattern

end EntityLang
