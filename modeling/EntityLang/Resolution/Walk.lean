import EntityLang.Expr.Resolve

/-!
# Walks over a program

A walk visits the scopes of a program, changes nodes and reports problems. A walk that would go
round in a circle forever has no outcome.
-/

namespace EntityLang

/-- What a walk leaves behind. -/
structure Outcome (α : Type) where
  value : α
  program : Program
  reports : List Diagnostic

/-- A computation that changes a program and reports problems; `none` stands for a walk without
end. -/
def Walk (α : Type) : Type := Program → Option (Outcome α)

namespace Walk

variable {α β : Type}

/-- Continue with the program that a walk leaves, and keep its reports. -/
protected def bind (x : Walk α) (f : α → Walk β) : Walk β := fun p =>
  match x p with
  | none => none
  | some first =>
    match f first.value first.program with
    | none => none
    | some second => some { second with reports := first.reports ++ second.reports }

instance : Monad Walk where
  pure a := fun p => some ⟨a, p, []⟩
  bind := Walk.bind

/-- The walk that never ends. -/
def endless : Walk α := fun _ => none

/-- Read the program. -/
def read (f : Program → α) : Walk α := fun p => some ⟨f p, p, []⟩

/-- Change the program. -/
def update (f : Program → Program) : Walk Unit := fun p => some ⟨(), f p, []⟩

/-- Compute something from the program that may report problems. -/
def reporting (f : Program → Reported α) : Walk α := fun p => some ⟨(f p).value, p, (f p).reports⟩

/-- Visit the members of a list in order. -/
def forEach (visit : α → Walk Unit) : List α → Walk Unit
  | [] => pure ()
  | a :: rest => do
    visit a
    forEach visit rest

/-- A walk that only returns a value leaves the program as it was and reports nothing. -/
theorem pure_apply (a : α) (p : Program) : (pure a : Walk α) p = some ⟨a, p, []⟩ := rfl

/-- Two walks in turn end exactly when both end, the second from where the first one stopped. -/
theorem bind_eq_some_iff (x : Walk α) (f : α → Walk β) (p : Program) (o : Outcome β) :
    (x >>= f) p = some o ↔
      ∃ first second, x p = some first ∧ f first.value first.program = some second ∧
        o = { second with reports := first.reports ++ second.reports } := by
  change Walk.bind x f p = some o ↔ _
  unfold Walk.bind
  cases hx : x p with
  | none => simp
  | some first =>
    cases hf : f first.value first.program with
    | none => simp [hf]
    | some second => simp [hf, eq_comm]

end Walk

end EntityLang
