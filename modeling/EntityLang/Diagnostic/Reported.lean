import EntityLang.Diagnostic.Problem

/-!
# Values with reports

A computation that goes on after a problem gives a value together with the diagnostics that it
reported on the way, in order.
-/

namespace EntityLang

/-- A value and what was reported while it was computed. -/
@[ext]
structure Reported (α : Type) where
  value : α
  reports : List Diagnostic

namespace Reported

instance : Monad Reported where
  pure a := ⟨a, []⟩
  bind x f := ⟨(f x.value).value, x.reports ++ (f x.value).reports⟩

/-- A value that is just given stays as it is. -/
@[simp] theorem value_pure {α : Type} (a : α) : (pure a : Reported α).value = a := rfl

/-- Nothing is reported about a value that is just given. -/
@[simp] theorem reports_pure {α : Type} (a : α) : (pure a : Reported α).reports = [] := rfl

/-- The value of two computations in turn is that of the second one. -/
@[simp] theorem value_bind {α β : Type} (x : Reported α) (f : α → Reported β) :
    (x >>= f).value = (f x.value).value := rfl

/-- The reports of two computations come in turn. -/
@[simp] theorem reports_bind {α β : Type} (x : Reported α) (f : α → Reported β) :
    (x >>= f).reports = x.reports ++ (f x.value).reports := rfl

/-- A value in the place of something meaningless, and the report of the problem. -/
def failure {α : Type} (value : α) (problem : Problem) (span : Span) : Reported α :=
  ⟨value, [problem.reportAt span]⟩

end Reported

end EntityLang
