import EntityLang.Pattern.Basic

/-!
# Comparing patterns

`fits` says that every value of one pattern may stand where the other is expected, `overlaps` that
two patterns may share a value, and `unify` is the join of two patterns. An invalid pattern has been
reported already, so it fits everything and everything fits it.
-/

namespace EntityLang.Pattern

/-- Two cores name the same type; unresolved ones are compared by name alone. -/
def sameType : Pattern → Pattern → Bool
  | .enum a, .enum b => a = b
  | .entity a, .entity b => a = b
  | .native a, .native b => a = b
  | .unresolved a, .unresolved b => a.identity = b.identity
  | _, _ => false

/-- Every value of `sub` may stand where `sup` is expected. -/
def fits (sub sup : Pattern) : Bool :=
  if sub.isInvalid || sup.isInvalid then true
  else
    match sub.isOptional, sup.isOptional with
    | true, false => false
    | false, true => sub.core = nothing || sameType sub.core sup.core
    | _, _ => sameType sub.core sup.core

/-- A value of `subject` may be matched by `candidate`. -/
def overlaps (candidate subject : Pattern) : Bool :=
  candidate.isInvalid || subject.isInvalid || candidate.isUnresolved || subject.isUnresolved ||
    (subject.isOptional && candidate.core = nothing) ||
    (candidate.isOptional && subject.core = nothing) ||
    sameType candidate.core subject.core

/-- The least pattern that both patterns fit. -/
def unify (a b : Pattern) : Option Pattern :=
  if a.fits b then some b
  else if b.fits a then some a
  else if a = nothing then some b.toOptional
  else if b = nothing then some a.toOptional
  else none

/-- The least pattern that all patterns fit; there is none for no pattern at all. -/
def unifyAll : List Pattern → Option Pattern
  | [] => none
  | p :: rest => rest.foldlM unify p

end EntityLang.Pattern
