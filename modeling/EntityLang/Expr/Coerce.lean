import EntityLang.Expr.Basic

/-!
# Reading integers as numbers

Where a number is expected, an integer literal is read as the nearest number. The expectation
reaches the literals that decide the pattern of an expression, through negation, arithmetic and the
results of rules.
-/

namespace EntityLang

/-- A hint asks for a number. -/
def Pattern.isNumberHint (hint : Option Pattern) : Bool :=
  match hint with
  | some p => p.core = .number
  | none => false

/-- A literal read under a hint. -/
def Literal.coerce (hint : Option Pattern) : Literal → Literal
  | .int i => if Pattern.isNumberHint hint then .number (.ofInt64 i) else .int i
  | value => value

namespace Expr

mutual

/-- A resolved expression read under a hint. -/
def coerce (hint : Pattern) : Expr → Expr
  | .literal value span => .literal (value.coerce (some hint)) span
  | .unary op operand span =>
    match op with
    | .not => .unary .not operand span
    | .negate => .unary .negate (operand.coerce hint) span
  | .binary op lhs rhs span =>
    if op.isArithmetic then .binary op (lhs.coerce hint) (rhs.coerce hint) span
    else .binary op lhs rhs span
  | .select subject rules span => .select subject (coerceResults hint rules) span
  | .cond rules otherwise span =>
    .cond (coerceResults hint rules) (coerceOption hint otherwise) span
  | e => e

/-- The results of rules read under a hint. -/
def coerceResults (hint : Pattern) : List (Rule Expr) → List (Rule Expr)
  | [] => []
  | ⟨head, result, span⟩ :: rest => ⟨head, result.coerce hint, span⟩ :: coerceResults hint rest

/-- An expression that may be absent, read under a hint. -/
def coerceOption (hint : Pattern) : Option Expr → Option Expr
  | none => none
  | some e => some (e.coerce hint)

end

end Expr

end EntityLang
