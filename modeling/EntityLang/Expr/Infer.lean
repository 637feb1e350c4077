import EntityLang.Pattern.Order
import EntityLang.Program.Basic

/-!
# The pattern of an expression

The pattern is inferred from the literals and the declared patterns that an expression refers to.
There are no patterns for lists, so lists and indexing are invalid, and so is everything that is not
resolved.
-/

namespace EntityLang

/-- The pattern of a literal. -/
def Literal.pattern : Literal → Pattern
  | .none => .nothing
  | .bool _ => .bool
  | .int _ => .int
  | .number _ => .number
  | .string _ => .string

/-- The declared pattern of a property. -/
def PropertyRef.pattern (p : Program) : PropertyRef → Pattern
  | .unresolved _ => .invalid
  | .state h => (p.state h).pattern
  | .function h => (p.function h).pattern

/-- The declared pattern of a callee. -/
def Callee.pattern (p : Program) : Callee → Pattern
  | .unresolved _ => .invalid
  | .function h => (p.function h).pattern

namespace Expr

mutual

/-- The pattern of an expression.

A match has the join of its results. So has a conditional, which is optional if it may select no
result. -/
def pattern (p : Program) : Expr → Pattern
  | .unresolved _ _ => .invalid
  | .var h _ => (p.var h).pattern
  | .enumValue h _ => .enum (p.enumValue h).owner
  | .literal value _ => value.pattern
  | .list _ _ => .invalid
  | .instances _ _ => .invalid
  | .unary op operand _ =>
    match op with
    | .not => .bool
    | .negate => operand.pattern p
  | .binary op lhs _ _ => if op.isArithmetic then lhs.pattern p else .bool
  | .property _ target _ => target.pattern p
  | .select _ rules _ => (Pattern.unifyAll (resultPatterns p rules)).getD .invalid
  | .call callee _ _ => callee.pattern p
  | .cond rules otherwise _ =>
    match otherwise with
    | none => ((Pattern.unifyAll (resultPatterns p rules)).map Pattern.toOptional).getD .invalid
    | some e => (Pattern.unifyAll (resultPatterns p rules ++ [e.pattern p])).getD .invalid
  | .index _ _ _ => .invalid
  | .invalid _ => .invalid

/-- The patterns of the results of rules. -/
def resultPatterns (p : Program) : List (Rule Expr) → List Pattern
  | [] => []
  | ⟨_, result, _⟩ :: rest => result.pattern p :: resultPatterns p rest

end

/-- The results of rules are inferred one by one. -/
theorem resultPatterns_eq_map (p : Program) (rules : List (Rule Expr)) :
    resultPatterns p rules = rules.map fun r => r.result.pattern p := by
  induction rules with
  | nil => rfl
  | cons r rest ih => simp [resultPatterns, ih]

/-- There is one argument for each parameter, and each fits the pattern of its parameter. -/
def acceptedBy (p : Program) : List Expr → List VarId → Bool
  | [], [] => true
  | arg :: args, v :: vs => (arg.pattern p).fits (p.var v).pattern && acceptedBy p args vs
  | _, _ => false

end Expr

end EntityLang
