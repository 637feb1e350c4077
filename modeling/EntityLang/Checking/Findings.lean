import EntityLang.Diagnostic.Problem

/-!
# What a check finds

A check finds a list of diagnostics, unless it comes to a halt: at a node that should have been
resolved, at an overload set with a member that is no function, or in a program whose properties
contain themselves. Findings are joined from left to right, and the first halt counts.
-/

namespace EntityLang

/-- The node that a name was left in. -/
inductive NameRole where
  | identity
  | property
  | function
  | pattern
  deriving DecidableEq

/-- The role as messages name it. -/
def NameRole.text : NameRole → String
  | .identity => "identity"
  | .property => "property"
  | .function => "function"
  | .pattern => "pattern"

/-- A program that resolving cannot have produced. -/
inductive InternalError where
  | unresolved (role : NameRole) (name : Mention)
  | malformedOverloads (identity : String) (found : BindingKind)
  deriving DecidableEq

namespace InternalError

/-- The wording of an internal error. -/
def message : InternalError → String
  | .unresolved role name =>
    s!"attempt to check unresolved {role.text} `{name.identity}` at {name.span.text}; " ++
      "it should have already been resolved"
  | .malformedOverloads identity found =>
    s!"overload set `{identity}` holds a {found.text}, only function properties can be overloaded"

/-- The place of an internal error. -/
def span? : InternalError → Option Span
  | .unresolved _ name => some name.span
  | .malformedOverloads _ _ => none

end InternalError

/-- Why a check does not finish. -/
inductive Halt where
  | broken (error : InternalError)
  | endless
  deriving DecidableEq

/-- The diagnostics of a check, or why it does not finish. -/
inductive Findings where
  | found (reports : List Diagnostic)
  | halted (cause : Halt)
  deriving DecidableEq

namespace Findings

/-- Nothing to report. -/
def clean : Findings := .found []

/-- A single report. -/
def report (problem : Problem) (span : Span) : Findings := .found [problem.reportAt span]

/-- A halt at a broken node. -/
def broken (error : InternalError) : Findings := .halted (.broken error)

/-- A report unless a condition holds. -/
def require (condition : Bool) (problem : Problem) (span : Span) : Findings :=
  if condition then clean else report problem span

/-- The findings of two checks in turn. -/
protected def append : Findings → Findings → Findings
  | .halted cause, _ => .halted cause
  | .found _, .halted cause => .halted cause
  | .found first, .found second => .found (first ++ second)

instance : Append Findings := ⟨Findings.append⟩

/-- The findings for the members of a list in turn. -/
def forEach {α : Type} (check : α → Findings) : List α → Findings
  | [] => clean
  | a :: rest => check a ++ forEach check rest

/-- A check that has halted finds nothing after that. -/
@[simp] theorem halted_append (cause : Halt) (y : Findings) :
    .halted cause ++ y = .halted cause := rfl

/-- A halt discards what was found before it. -/
@[simp] theorem found_append_halted (ds : List Diagnostic) (cause : Halt) :
    Findings.found ds ++ .halted cause = .halted cause := rfl

/-- Checks that finish find their reports in turn. -/
@[simp] theorem found_append_found (first second : List Diagnostic) :
    Findings.found first ++ .found second = .found (first ++ second) := rfl

/-- Two checks finish exactly when both do. -/
theorem append_eq_found_iff (x y : Findings) (ds : List Diagnostic) :
    x ++ y = .found ds ↔
      ∃ first second, x = .found first ∧ y = .found second ∧ ds = first ++ second := by
  cases x <;> cases y <;> simp [eq_comm]

end Findings

end EntityLang
