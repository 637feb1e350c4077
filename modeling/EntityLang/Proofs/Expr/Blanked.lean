import EntityLang.Proofs.Expr.Parts
import EntityLang.Proofs.Pattern.Agreement

/-!
# Expressions with parts blanked out

A part of an expression that has been reported is replaced by the invalid expression at the same
place. The pattern of what surrounds it may change then, but only matches and conditionals infer a
pattern from several parts: without one of its results, a match may have a narrower pattern than
before, or a pattern where it had none. The relation `Blanked` asks of each match and of each
conditional that its new pattern be admitted in the place of the old one, as far as the pattern is
used at all.
-/

namespace EntityLang

/-- How the pattern of the operand is used if the pattern of the result is used so. -/
def UnaryOp.operandUse (u : Use) : UnaryOp → Use
  | .not => .ignored
  | .negate => u

/-- How the pattern of the left operand is used if the pattern of the result is used so. -/
def BinaryOp.lhsUse (u : Use) (op : BinaryOp) : Use :=
  if op.isArithmetic then u else .ignored

namespace Expr

mutual

/-- The second expression is the first one with some parts blanked out, and its pattern may take the
place of the old one where the pattern is used in the way `u`. -/
inductive Blanked (p : Program) : Use → Expr → Expr → Prop
  | blank (u : Use) (e : Expr) : Blanked p u e (.invalid e.span)
  | leaf (u : Use) {e : Expr} (he : e.children = []) : Blanked p u e e
  | list {u : Use} {items items' : List Expr} {span : Span} (h : BlankedAll p items items') :
    Blanked p u (.list items span) (.list items' span)
  | instances {u : Use} {items items' : List Expr} {span : Span} (h : BlankedAll p items items') :
    Blanked p u (.instances items span) (.instances items' span)
  | unary {u : Use} {op : UnaryOp} {operand operand' : Expr} {span : Span}
    (h : Blanked p (op.operandUse u) operand operand') :
    Blanked p u (.unary op operand span) (.unary op operand' span)
  | binary {u : Use} {op : BinaryOp} {lhs lhs' rhs rhs' : Expr} {span : Span}
    (hl : Blanked p (op.lhsUse u) lhs lhs') (hr : Blanked p .ignored rhs rhs') :
    Blanked p u (.binary op lhs rhs span) (.binary op lhs' rhs' span)
  | property {u : Use} {subject subject' : Expr} {target : PropertyRef} {span : Span}
    (h : Blanked p .ignored subject subject') :
    Blanked p u (.property subject target span) (.property subject' target span)
  | select {u : Use} {subject subject' : Expr} {rules rules' : List (Rule Expr)} {span : Span}
    (hs : Blanked p .tested subject subject') (hr : BlankedRules p .tested .fitted rules rules')
    (hu : u.Admits ((Expr.select subject rules span).pattern p)
      ((Expr.select subject' rules' span).pattern p)) :
    Blanked p u (.select subject rules span) (.select subject' rules' span)
  | call {u : Use} {callee : Callee} {args args' : List Expr} {span : Span}
    (h : BlankedAll p args args') : Blanked p u (.call callee args span) (.call callee args' span)
  | cond {u : Use} {rules rules' : List (Rule Expr)} {otherwise otherwise' : Option Expr}
    {span : Span} (hr : BlankedRules p .condition .ignored rules rules')
    (ho : BlankedOption p otherwise otherwise')
    (hu : u.Admits ((Expr.cond rules otherwise span).pattern p)
      ((Expr.cond rules' otherwise' span).pattern p)) :
    Blanked p u (.cond rules otherwise span) (.cond rules' otherwise' span)
  | index {u : Use} {subject subject' position position' : Expr} {span : Span}
    (hs : Blanked p .ignored subject subject') (hp : Blanked p .ignored position position') :
    Blanked p u (.index subject position span) (.index subject' position' span)

/-- Expressions whose patterns are not used, with some parts blanked out. -/
inductive BlankedAll (p : Program) : List Expr → List Expr → Prop
  | nil : BlankedAll p [] []
  | cons {e e' : Expr} {rest rest' : List Expr} (he : Blanked p .ignored e e')
    (hrest : BlankedAll p rest rest') : BlankedAll p (e :: rest) (e' :: rest')

/-- Rules with some parts blanked out; the patterns of their heads are used in the way `v`, those of
their results in the way `u`. The heads of a match are compared with the subject, and the results are
joined, which has to succeed. The heads of a conditional are conditions, and the results need not have
a join. -/
inductive BlankedRules (p : Program) : Use → Use → List (Rule Expr) → List (Rule Expr) → Prop
  | nil {v u : Use} : BlankedRules p v u [] []
  | cons {v u : Use} {head head' result result' : Expr} {span : Span}
    {rest rest' : List (Rule Expr)} (hh : Blanked p v head head') (hr : Blanked p u result result')
    (hrest : BlankedRules p v u rest rest') :
    BlankedRules p v u (⟨head, result, span⟩ :: rest) (⟨head', result', span⟩ :: rest')

/-- The last result of a conditional with some parts blanked out. -/
inductive BlankedOption (p : Program) : Option Expr → Option Expr → Prop
  | none : BlankedOption p none none
  | some {e e' : Expr} (h : Blanked p .ignored e e') : BlankedOption p (some e) (some e')

end

section Refl

variable (p : Program)

mutual

/-- Nothing has to be blanked out. -/
theorem Blanked.refl (u : Use) : (e : Expr) → Blanked p u e e
  | .list items _ => .list (BlankedAll.refl items)
  | .instances items _ => .instances (BlankedAll.refl items)
  | .unary _ operand _ => .unary (Blanked.refl _ operand)
  | .binary _ lhs rhs _ => .binary (Blanked.refl _ lhs) (Blanked.refl _ rhs)
  | .property subject _ _ => .property (Blanked.refl _ subject)
  | .select subject rules _ =>
    .select (Blanked.refl _ subject) (BlankedRules.refl _ _ rules) (Use.admits_refl _ _)
  | .call _ args _ => .call (BlankedAll.refl args)
  | .cond rules otherwise _ =>
    .cond (BlankedRules.refl _ _ rules) (BlankedOption.refl otherwise) (Use.admits_refl _ _)
  | .index subject position _ => .index (Blanked.refl _ subject) (Blanked.refl _ position)
  | .unresolved _ _ | .var _ _ | .enumValue _ _ | .literal _ _ | .invalid _ => .leaf _ rfl

/-- Nothing has to be blanked out in a list of expressions. -/
theorem BlankedAll.refl : (es : List Expr) → BlankedAll p es es
  | [] => .nil
  | e :: rest => .cons (Blanked.refl _ e) (BlankedAll.refl rest)

/-- Nothing has to be blanked out in rules. -/
theorem BlankedRules.refl (v u : Use) :
    (rules : List (Rule Expr)) → BlankedRules p v u rules rules
  | [] => .nil
  | ⟨head, result, _⟩ :: rest =>
    .cons (Blanked.refl _ head) (Blanked.refl _ result) (BlankedRules.refl _ _ rest)

/-- Nothing has to be blanked out in an expression that may be absent. -/
theorem BlankedOption.refl : (o : Option Expr) → BlankedOption p o o
  | none => .none
  | some e => .some (Blanked.refl _ e)

end

end Refl

variable {p : Program} {u : Use} {e e' : Expr}

/-- The place stays the same. -/
theorem Blanked.span_eq (h : Blanked p u e e') : e'.span = e.span := by
  cases h <;> rfl

/-- The new pattern may take the place of the old one. -/
theorem Blanked.admits : {u : Use} → {e e' : Expr} → Blanked p u e e' →
    u.Admits (e.pattern p) (e'.pattern p)
  | u, e, _, .blank _ _ => Use.admits_of_isInvalid u _ rfl
  | u, e, _, .leaf _ _ => Use.admits_refl u _
  | u, _, _, .list _ | u, _, _, .instances _ | u, _, _, .index _ _ =>
    Use.admits_of_isInvalid u _ rfl
  | u, .unary .not operand span, _, .unary _ => Use.admits_refl u _
  | u, .unary .negate operand span, _, .unary h => h.admits
  | u, .binary op lhs rhs span, .binary _ lhs' rhs' _, .binary hl _ => by
    have hadmits := hl.admits
    rw [pattern, pattern]
    unfold BinaryOp.lhsUse at hadmits
    split
    · rwa [if_pos ‹_›] at hadmits
    · exact Use.admits_refl u _
  | u, _, _, .property _ => Use.admits_refl u _
  | u, _, _, .call _ => Use.admits_refl u _
  | _, _, _, .select _ _ hu => hu
  | _, _, _, .cond _ _ hu => hu

/-- The patterns of the results may take the places of the old ones. -/
theorem BlankedRules.results {v : Use} {rules rules' : List (Rule Expr)}
    (h : BlankedRules p v .fitted rules rules') :
    List.Forall₂ Use.fitted.Admits (resultPatterns p rules) (resultPatterns p rules') := by
  induction rules generalizing rules' with
  | nil =>
    cases h
    exact .nil
  | cons r rest ih =>
    cases h with
    | cons hh hr hrest => exact .cons hr.admits (ih hrest)

/-- Blanking removes no rule. -/
theorem BlankedRules.isEmpty_eq {v : Use} {rules rules' : List (Rule Expr)}
    (h : BlankedRules p v u rules rules') : rules'.isEmpty = rules.isEmpty := by
  cases h <;> rfl

end Expr

end EntityLang
