import EntityLang.Expr.Resolve
import EntityLang.Proofs.Renaming.Program

/-!
# Renaming and the patterns of expressions

Reading an expression under a hint and inferring its pattern commute with a renaming: under new
handles they give what they gave before, under new handles.
-/

namespace EntityLang

/-- Literals are read alike under a renamed hint. -/
@[simp] theorem Literal.coerce_rename (ρ : Renaming) (hint : Option Pattern) (value : Literal) :
    value.coerce (hint.map (Pattern.rename ρ)) = value.coerce hint := by
  cases value <;> simp [Literal.coerce]

/-- The pattern of a literal is an intrinsic type, so renaming keeps it. -/
@[simp] theorem Literal.rename_pattern (ρ : Renaming) (value : Literal) :
    value.pattern.rename ρ = value.pattern := by
  cases value <;> simp [Literal.pattern]

namespace Expr

section Coerce

variable {ρ : Renaming} {n : Nat} (hint : Pattern)

mutual

/-- Reading under a hint commutes with renaming. -/
theorem Renames.coerce : {e e' : Expr} → e.Renames ρ n e' →
    (e.coerce hint).Renames ρ n (e'.coerce (hint.rename ρ))
  | _, _, .literal value span => by
    have hvalue := Literal.coerce_rename ρ (some hint) value
    rw [Option.map_some] at hvalue
    rw [Expr.coerce, Expr.coerce, hvalue]
    exact .literal _ span
  | .unary .not operand span, _, .unary h => .unary h
  | .unary .negate operand span, _, .unary h => .unary h.coerce
  | .binary op lhs rhs span, .binary _ lhs' rhs' _, .binary hl hr => by
    rw [Expr.coerce, Expr.coerce]
    split
    · exact .binary hl.coerce hr.coerce
    · exact .binary hl hr
  | _, _, .select hs hr => .select hs hr.coerce
  | _, _, .cond hr ho => .cond hr.coerce ho.coerce
  | _, _, .unresolved name span => .unresolved name span
  | _, _, .var h span => .var h span
  | _, _, .enumValue hv span => .enumValue hv span
  | _, _, .list h => .list h
  | _, _, .instances h => .instances h
  | _, _, .property h => .property h
  | _, _, .call h => .call h
  | _, _, .index hs hp => .index hs hp
  | _, _, .invalid span => .invalid span

/-- The results of rules are read alike under a renamed hint. -/
theorem RenamesRules.coerce : {rules rules' : List (Rule Expr)} → RenamesRules ρ n rules rules' →
    RenamesRules ρ n (coerceResults hint rules) (coerceResults (hint.rename ρ) rules')
  | _, _, .nil => .nil
  | _, _, .cons hh hr hrest => .cons hh hr.coerce hrest.coerce

/-- An expression that may be absent is read alike under a renamed hint. -/
theorem RenamesOption.coerce : {o o' : Option Expr} → RenamesOption ρ n o o' →
    RenamesOption ρ n (coerceOption hint o) (coerceOption (hint.rename ρ) o')
  | _, _, .none => .none
  | _, _, .some h => .some h.coerce

end

end Coerce

end Expr

section Inference

variable {ρ : Renaming} {n : Nat} {p q : Program} (hp : p.Renames ρ n q)
include hp

/-- The pattern of a property is renamed with it. -/
theorem PropertyRef.pattern_rename (target : PropertyRef) :
    (target.rename ρ).pattern q = (target.pattern p).rename ρ := by
  cases target with
  | unresolved name => rfl
  | state k => exact (hp.state_renames k).pattern
  | function k => exact (hp.function_renames k).pattern

/-- The pattern of a callee is renamed with it. -/
theorem Callee.pattern_rename (callee : Callee) :
    (callee.rename ρ).pattern q = (callee.pattern p).rename ρ := by
  cases callee with
  | unresolved name => rfl
  | function k => exact (hp.function_renames k).pattern

/-- The pattern of a variable is renamed with it. -/
theorem Program.Renames.varPattern_eq (v : VarId) :
    (q.var (ρ.handle v)).pattern = (p.var v).pattern.rename ρ := by
  rw [hp.var_eq, Variable.rename]

omit hp

namespace Expr

mutual

/-- The pattern of an expression is renamed with it. -/
theorem Renames.pattern_eq (hp : p.Renames ρ n q) : {e e' : Expr} → e.Renames ρ n e' →
    e'.pattern q = (e.pattern p).rename ρ
  | _, _, .var h _ => hp.varPattern_eq h
  | _, _, .enumValue hv _ => by
    rw [pattern, pattern, hp.enumValue_eq hv]
    rfl
  | _, _, .literal value _ => (value.rename_pattern ρ).symm
  | .unary .not _ _, _, .unary _ => (Pattern.rename_bool ρ).symm
  | .unary .negate _ _, _, .unary h => by
    rw [pattern, pattern]
    exact h.pattern_eq hp
  | .binary op _ _ _, .binary _ _ _ _, .binary hl _ => by
    rw [pattern, pattern, hl.pattern_eq hp]
    split
    · rfl
    · exact (Pattern.rename_bool ρ).symm
  | .property _ target _, _, .property _ => target.pattern_rename hp
  | _, _, .select _ hr => by
    rw [pattern, pattern, hr.resultPatterns_eq hp, Pattern.unifyAll_rename,
      Pattern.getD_map_rename]
  | .call callee _ _, _, .call _ => callee.pattern_rename hp
  | _, _, .cond hr ho => by
    cases ho with
    | none =>
      have hmap (a : Option Pattern) : (a.map (Pattern.rename ρ)).map Pattern.toOptional =
          (a.map Pattern.toOptional).map (Pattern.rename ρ) := by
        cases a <;> simp
      simp only [pattern, hr.resultPatterns_eq hp, Pattern.unifyAll_rename, hmap,
        Pattern.getD_map_rename]
    | some h =>
      have happend (as : List Pattern) (a : Pattern) : as.map (Pattern.rename ρ) ++ [a.rename ρ] =
          (as ++ [a]).map (Pattern.rename ρ) := by simp
      simp only [pattern, hr.resultPatterns_eq hp, h.pattern_eq hp, happend,
        Pattern.unifyAll_rename, Pattern.getD_map_rename]
  | _, _, .unresolved _ _ => rfl
  | _, _, .list _ => rfl
  | _, _, .instances _ => rfl
  | _, _, .index _ _ => rfl
  | _, _, .invalid _ => rfl

/-- The patterns of results are renamed with them. -/
theorem RenamesRules.resultPatterns_eq (hp : p.Renames ρ n q) :
    {rules rules' : List (Rule Expr)} → RenamesRules ρ n rules rules' →
    resultPatterns q rules' = (resultPatterns p rules).map (Pattern.rename ρ)
  | _, _, .nil => rfl
  | _, _, .cons _ hr hrest => by
    rw [resultPatterns, resultPatterns, List.map_cons, hr.pattern_eq hp,
      hrest.resultPatterns_eq hp]

end

end Expr

end Inference

end EntityLang
