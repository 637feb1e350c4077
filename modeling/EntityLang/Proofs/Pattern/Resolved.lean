import EntityLang.Proofs.Expr.Reports
import EntityLang.Proofs.Expr.View
import EntityLang.Resolution.Signature

/-!
# Resolved patterns

A name in a pattern is to become the type that the name stands for, and invalid if it stands for no
type. Resolving a pattern does that and leaves no name, so a resolved pattern is resolved to itself.
-/

namespace EntityLang

/-- The type that a name stands for in a scope. -/
def Program.typeNamed (p : Program) (s : ScopeId) (identity : String) : Pattern :=
  match p.fetch s identity with
  | some (.decl (.enum h)) => .enum h
  | some (.decl (.entity h)) => .entity h
  | some (.decl (.native h)) => .native h
  | _ => .invalid

namespace Pattern

/-- The pattern with its name replaced by the type that the name stands for in a scope. -/
def named (p : Program) (s : ScopeId) : Pattern → Pattern
  | .unresolved name => p.typeNamed s name.identity
  | .optional inner => .optional (inner.named p s)
  | x => x

/-- Resolving a pattern replaces its name. -/
theorem resolve_value (p : Program) (s : ScopeId) (x : Pattern) :
    (x.resolve p s).value = x.named p s := by
  induction x with
  | unresolved name =>
    rw [resolve, named]
    unfold Program.resolveTypeName Program.typeNamed
    split <;> simp_all [Reported.failure]
  | optional inner ih => exact congrArg Pattern.optional ih
  | _ => rfl

/-- The core of a resolved pattern is not a name. -/
theorem unresolved?_resolve (p : Program) (s : ScopeId) (x : Pattern) :
    (x.resolve p s).value.unresolved? = none := by
  induction x with
  | unresolved name =>
    rw [resolve]
    unfold Program.resolveTypeName
    split <;> rfl
  | optional inner ih => exact ih
  | _ => rfl

/-- Once its name is replaced, the core of a pattern is not a name. -/
theorem unresolved?_named (p : Program) (s : ScopeId) (x : Pattern) :
    (x.named p s).unresolved? = none := by
  rw [← resolve_value]
  exact unresolved?_resolve p s x

/-- A pattern without a name has nothing to replace and nothing to report. -/
theorem resolve_of_unresolved?_eq_none {x : Pattern} (hx : x.unresolved? = none) (p : Program)
    (s : ScopeId) : x.resolve p s = ⟨x, []⟩ := by
  induction x with
  | unresolved name => simp [unresolved?, core] at hx
  | optional inner ih =>
    have hinner : inner.unresolved? = none := hx
    rw [resolve, ih hinner]
    rfl
  | _ => rfl

/-- A report on a pattern is about its name. -/
theorem mem_reports_resolve {p : Program} {s : ScopeId} {x : Pattern} {d : Diagnostic}
    (hd : d ∈ (x.resolve p s).reports) :
    ∃ name, x.unresolved? = some name ∧ d.span = name.span ∧ d.kind.IsNaming := by
  induction x with
  | unresolved name =>
    have hfailure {problem : Problem} (hproblem : problem.kind.IsNaming)
        (hd : d ∈ (Reported.failure Pattern.invalid problem name.span).reports) :
        d.span = name.span ∧ d.kind.IsNaming := by
      obtain rfl := List.mem_singleton.mp hd
      exact ⟨rfl, hproblem⟩
    refine ⟨name, rfl, ?_⟩
    rw [resolve] at hd
    unfold Program.resolveTypeName at hd
    split at hd
    · simp at hd
    · simp at hd
    · simp at hd
    · exact hfailure (by simp [Problem.kind, DiagnosticKind.IsNaming]) hd
    · exact hfailure (by simp [Problem.kind, DiagnosticKind.IsNaming]) hd
  | optional inner ih =>
    rw [resolve, Reported.reports_bind, Reported.reports_pure, List.append_nil] at hd
    exact ih hd
  | _ => simp [resolve] at hd

/-- Where names mean the same, patterns are resolved alike. -/
theorem resolve_congr {p q : Program} {s : ScopeId}
    (h : ∀ identity, p.fetch s identity = q.fetch s identity) (x : Pattern) :
    x.resolve p s = x.resolve q s := by
  induction x with
  | unresolved name =>
    rw [resolve, resolve]
    unfold Program.resolveTypeName
    rw [h]
  | optional inner ih => rw [resolve, resolve, ih]
  | _ => rfl

end Pattern

end EntityLang
