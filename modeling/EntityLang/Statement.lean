import EntityLang.Expr.Basic

/-!
# Statements and blocks

A block has a scope of its own and a list of statements. A singleton block stands for the value of
its last statement.
-/

namespace EntityLang

/-- A branch of a conditional statement. -/
structure Branch (β : Type) where
  condition : Expr
  body : β
  span : Span := .dummy

mutual

/-- A statement. -/
inductive Statement where
  | expr (value : Expr)
  | block (body : Block)
  | cond (branches : List (Branch Block)) (otherwise : Option Block) (span : Span)
  | forEach (item : VarId) (range : Expr) (body : Block) (span : Span)
  | assign (subject value : Expr) (span : Span)
  | declare (target : VarId) (value : Option Expr) (span : Span)

/-- A list of statements with a scope of its own. -/
structure Block where
  singleton : Bool
  scope : ScopeId
  statements : List Statement
  span : Span

end

namespace Block

/-- The block that stands for one expression. -/
def ofResult (scope : ScopeId) (result : Expr) : Block :=
  ⟨true, scope, [.expr result], result.span⟩

/-- The block of some statements. -/
def ofStatements (scope : ScopeId) (statements : List Statement) : Block :=
  ⟨false, scope, statements, .dummy⟩

/-- The expression whose value a singleton block stands for. -/
def result? (b : Block) : Option Expr :=
  match b.singleton, b.statements.getLast? with
  | true, some (.expr result) => some result
  | _, _ => none

/-- The value that a block stands for is one of its statements. -/
theorem mem_statements_of_result? {b : Block} {e : Expr} (h : b.result? = some e) :
    .expr e ∈ b.statements := by
  unfold result? at h
  split at h
  · rename_i hlast
    exact Option.some.inj h ▸ List.mem_of_getLast? hlast
  · simp at h

end Block

end EntityLang
