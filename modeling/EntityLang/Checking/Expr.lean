import EntityLang.Checking.Findings
import EntityLang.Expr.Infer

/-!
# Checking expressions

Conditions have to be truth values or optional, a rule of a match has to have something in common
with the subject, and the results of a match have to have a common pattern. A name that is still
there is an internal error.
-/

namespace EntityLang

/-- A name where a handle should be. -/
def Mention.unresolvedAs (role : NameRole) (name : Mention) : Findings :=
  .broken (.unresolved role name)

/-- The pattern is not a name any more. -/
def Pattern.check (q : Pattern) : Findings :=
  match q.unresolved? with
  | some name => name.unresolvedAs .pattern
  | none => .clean

namespace Expr

/-- A condition is a truth value, or optional and thereby possibly none. -/
def checkCondition (p : Program) (e : Expr) : Findings :=
  .require ((e.pattern p).fits .bool || (e.pattern p).isOptional) .condition e.span

/-- A rule may match the subject. -/
def checkReachable (p : Program) (subject : Pattern) (head : Expr) : Findings :=
  .require ((head.pattern p).overlaps subject) .unreachable head.span

/-- The results of rules have a common pattern. -/
def checkConsistent (p : Program) (rules : List (Rule Expr)) (span : Span) : Findings :=
  .require (rules.isEmpty || (Pattern.unifyAll (resultPatterns p rules)).isSome) .inconsistent span

mutual

/-- Check an expression and everything in it. -/
def check (p : Program) : Expr → Findings
  | .unresolved name _ => name.unresolvedAs .identity
  | .var _ _ => .clean
  | .enumValue _ _ => .clean
  | .literal _ _ => .clean
  | .list items _ => checkAll p items
  | .instances items _ => checkAll p items
  | .unary _ operand _ => operand.check p
  | .binary _ lhs rhs _ => lhs.check p ++ rhs.check p
  | .property subject target _ =>
    match target with
    | .unresolved name => name.unresolvedAs .property
    | .state _ | .function _ => subject.check p
  | .select subject rules span =>
    subject.check p ++ checkArms p (subject.pattern p) rules ++ checkConsistent p rules span
  | .call callee args _ =>
    match callee with
    | .unresolved name => name.unresolvedAs .function
    | .function _ => checkAll p args
  | .cond rules otherwise _ => checkRules p rules ++ checkOption p otherwise
  | .index subject position _ => subject.check p ++ position.check p
  | .invalid _ => .clean

/-- Check expressions from left to right. -/
def checkAll (p : Program) : List Expr → Findings
  | [] => .clean
  | e :: rest => e.check p ++ checkAll p rest

/-- Check the rules of a match. -/
def checkArms (p : Program) (subject : Pattern) : List (Rule Expr) → Findings
  | [] => .clean
  | ⟨head, result, _⟩ :: rest =>
    head.check p ++ result.check p ++ checkReachable p subject head ++ checkArms p subject rest

/-- Check the rules of a conditional. -/
def checkRules (p : Program) : List (Rule Expr) → Findings
  | [] => .clean
  | ⟨head, result, _⟩ :: rest =>
    head.check p ++ checkCondition p head ++ result.check p ++ checkRules p rest

/-- Check an expression that may be absent. -/
def checkOption (p : Program) : Option Expr → Findings
  | none => .clean
  | some e => e.check p

end

/-- Expressions are checked one after the other. -/
theorem checkAll_eq_forEach (p : Program) (es : List Expr) :
    checkAll p es = .forEach (check p) es := by
  induction es with
  | nil => rfl
  | cons e rest ih => rw [checkAll, Findings.forEach, ih]

/-- The rules of a match are checked one after the other. -/
theorem checkArms_eq_forEach (p : Program) (subject : Pattern) (rules : List (Rule Expr)) :
    checkArms p subject rules = .forEach (fun r =>
      r.head.check p ++ r.result.check p ++ r.head.checkReachable p subject) rules := by
  induction rules with
  | nil => rfl
  | cons r rest ih => rw [checkArms, Findings.forEach, ih]

/-- The rules of a conditional are checked one after the other. -/
theorem checkRules_eq_forEach (p : Program) (rules : List (Rule Expr)) :
    checkRules p rules = .forEach (fun r =>
      r.head.check p ++ r.head.checkCondition p ++ r.result.check p) rules := by
  induction rules with
  | nil => rfl
  | cons r rest ih => rw [checkRules, Findings.forEach, ih]

end Expr

end EntityLang
