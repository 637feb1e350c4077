import EntityLang.Handle
import EntityLang.Span

/-!
# Patterns

A pattern is the type of a value: an enum, an entity or a native type, possibly made optional. A
pattern that is still a name is unresolved, and a pattern whose name could not be resolved is
invalid. Optional layers may be stacked; the core of a pattern is what remains without them.
-/

namespace EntityLang

namespace Intrinsic

/-- The native type of the value `none`. -/
def none : NativeId := ⟨0⟩

/-- The native type of truth values. -/
def bool : NativeId := ⟨1⟩

/-- The native type of integers. -/
def int : NativeId := ⟨2⟩

/-- The native type of numbers. -/
def number : NativeId := ⟨3⟩

/-- The native type of strings. -/
def string : NativeId := ⟨4⟩

end Intrinsic

/-- The type of a value. -/
inductive Pattern where
  | unresolved (name : Mention)
  | optional (inner : Pattern)
  | invalid
  | enum (handle : EnumId)
  | entity (handle : EntityId)
  | native (handle : NativeId)
  deriving DecidableEq

namespace Pattern

instance : Inhabited Pattern := ⟨.invalid⟩

/-- The pattern of the value `none`. -/
abbrev nothing : Pattern := .native Intrinsic.none

/-- The pattern of truth values. -/
abbrev bool : Pattern := .native Intrinsic.bool

/-- The pattern of integers. -/
abbrev int : Pattern := .native Intrinsic.int

/-- The pattern of numbers. -/
abbrev number : Pattern := .native Intrinsic.number

/-- The pattern of strings. -/
abbrev string : Pattern := .native Intrinsic.string

/-- The pattern without its optional layers. -/
def core : Pattern → Pattern
  | .optional inner => inner.core
  | p => p

/-- The outermost layer is optional. -/
def isOptional : Pattern → Bool
  | .optional _ => true
  | _ => false

/-- The pattern made optional; one that is optional already stays as it is. -/
def toOptional (p : Pattern) : Pattern :=
  if p.isOptional then p else .optional p

/-- The core is invalid. -/
def isInvalid (p : Pattern) : Bool :=
  match p.core with
  | .invalid => true
  | _ => false

/-- The name that the core still is. -/
def unresolved? (p : Pattern) : Option Mention :=
  match p.core with
  | .unresolved name => some name
  | _ => none

/-- The core is still a name. -/
def isUnresolved (p : Pattern) : Bool := p.unresolved?.isSome

/-- The enum that is the core. -/
def enum? (p : Pattern) : Option EnumId :=
  match p.core with
  | .enum handle => some handle
  | _ => none

/-- A core is never optional. -/
@[simp] theorem isOptional_core (p : Pattern) : p.core.isOptional = false := by
  induction p with
  | optional inner ih => exact ih
  | _ => rfl

/-- The core of a core is itself. -/
@[simp] theorem core_core (p : Pattern) : p.core.core = p.core := by
  induction p with
  | optional inner ih => exact ih
  | _ => rfl

/-- Making a pattern optional keeps its core. -/
@[simp] theorem core_toOptional (p : Pattern) : p.toOptional.core = p.core := by
  unfold toOptional
  split <;> rfl

end Pattern

end EntityLang
