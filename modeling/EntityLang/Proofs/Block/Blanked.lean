import EntityLang.Proofs.Expr.Blanked
import EntityLang.Statement

/-!
# Blocks with parts blanked out

Expressions are blanked out inside statements and blocks. What a value is assigned to is compared in
both directions, conditions have to remain conditions, and assigned values have to fit; all other
expressions may lose any part, except for the one whose value a body stands for.
-/

namespace EntityLang

mutual

/-- The second block is the first one with parts of its expressions blanked out. If the block stands
for the value of its last statement, the pattern of that value is used in the way `u`. -/
inductive Block.Blanked (p : Program) : Use → Block → Block → Prop
  | mk {u : Use} {singleton : Bool} {scope : ScopeId} {statements statements' : List Statement}
    {span : Span}
    (h : Statement.BlankedAll p (if singleton then u else .ignored) statements statements') :
    Block.Blanked p u ⟨singleton, scope, statements, span⟩ ⟨singleton, scope, statements', span⟩

/-- The second statement is the first one with parts of its expressions blanked out. -/
inductive Statement.Blanked (p : Program) : Use → Statement → Statement → Prop
  | expr {u : Use} {value value' : Expr} (h : value.Blanked p u value') :
    Statement.Blanked p u (.expr value) (.expr value')
  | block {u : Use} {body body' : Block} (h : Block.Blanked p .ignored body body') :
    Statement.Blanked p u (.block body) (.block body')
  | cond {u : Use} {branches branches' : List (Branch Block)} {otherwise otherwise' : Option Block}
    {span : Span} (hb : Statement.BlankedBranches p branches branches')
    (ho : Statement.BlankedOtherwise p otherwise otherwise') :
    Statement.Blanked p u (.cond branches otherwise span) (.cond branches' otherwise' span)
  | forEach {u : Use} {item : VarId} {range range' : Expr} {body body' : Block} {span : Span}
    (hr : range.Blanked p .ignored range') (hb : Block.Blanked p .ignored body body') :
    Statement.Blanked p u (.forEach item range body span) (.forEach item range' body' span)
  | assign {u : Use} {subject subject' value value' : Expr} {span : Span}
    (hs : subject.Blanked p .tested subject') (hv : value.Blanked p .fitted value') :
    Statement.Blanked p u (.assign subject value span) (.assign subject' value' span)
  | declare {u : Use} (target : VarId) (span : Span) :
    Statement.Blanked p u (.declare target none span) (.declare target none span)
  | define {u : Use} {target : VarId} {value value' : Expr} {span : Span}
    (h : value.Blanked p .fitted value') :
    Statement.Blanked p u (.declare target (some value) span) (.declare target (some value') span)

/-- Statements with parts blanked out; only the pattern of the last one is used. -/
inductive Statement.BlankedAll (p : Program) : Use → List Statement → List Statement → Prop
  | nil {u : Use} : Statement.BlankedAll p u [] []
  | last {u : Use} {x x' : Statement} (h : Statement.Blanked p u x x') :
    Statement.BlankedAll p u [x] [x']
  | cons {u : Use} {x x' y y' : Statement} {rest rest' : List Statement}
    (h : Statement.Blanked p .ignored x x')
    (hrest : Statement.BlankedAll p u (y :: rest) (y' :: rest')) :
    Statement.BlankedAll p u (x :: y :: rest) (x' :: y' :: rest')

/-- Branches with parts blanked out. -/
inductive Statement.BlankedBranches (p : Program) : List (Branch Block) → List (Branch Block) → Prop
  | nil : Statement.BlankedBranches p [] []
  | cons {condition condition' : Expr} {body body' : Block} {span : Span}
    {rest rest' : List (Branch Block)} (hc : condition.Blanked p .condition condition')
    (hb : Block.Blanked p .ignored body body') (hrest : Statement.BlankedBranches p rest rest') :
    Statement.BlankedBranches p (⟨condition, body, span⟩ :: rest)
      (⟨condition', body', span⟩ :: rest')

/-- A last block with parts blanked out. -/
inductive Statement.BlankedOtherwise (p : Program) : Option Block → Option Block → Prop
  | none : Statement.BlankedOtherwise p none none
  | some {body body' : Block} (h : Block.Blanked p .ignored body body') :
    Statement.BlankedOtherwise p (some body) (some body')

end

section Refl

variable (p : Program)

mutual

/-- Nothing has to be blanked out in a block. -/
theorem Block.Blanked.refl (u : Use) : (b : Block) → Block.Blanked p u b b
  | ⟨_, _, statements, _⟩ => .mk (Statement.BlankedAll.refl _ statements)

/-- Nothing has to be blanked out in a statement. -/
theorem Statement.Blanked.refl (u : Use) : (x : Statement) → Statement.Blanked p u x x
  | .expr value => .expr (Expr.Blanked.refl p u value)
  | .block body => .block (Block.Blanked.refl _ body)
  | .cond branches otherwise _ =>
    .cond (Statement.BlankedBranches.refl branches) (Statement.BlankedOtherwise.refl otherwise)
  | .forEach _ range body _ => .forEach (Expr.Blanked.refl p _ range) (Block.Blanked.refl _ body)
  | .assign subject value _ =>
    .assign (Expr.Blanked.refl p _ subject) (Expr.Blanked.refl p _ value)
  | .declare target none span => .declare target span
  | .declare _ (some value) _ => .define (Expr.Blanked.refl p _ value)

/-- Nothing has to be blanked out in a list of statements. -/
theorem Statement.BlankedAll.refl (u : Use) : (xs : List Statement) → Statement.BlankedAll p u xs xs
  | [] => .nil
  | [x] => .last (Statement.Blanked.refl u x)
  | x :: y :: rest => .cons (Statement.Blanked.refl _ x) (Statement.BlankedAll.refl u (y :: rest))

/-- Nothing has to be blanked out in branches. -/
theorem Statement.BlankedBranches.refl :
    (branches : List (Branch Block)) → Statement.BlankedBranches p branches branches
  | [] => .nil
  | ⟨condition, body, _⟩ :: rest =>
    .cons (Expr.Blanked.refl p _ condition) (Block.Blanked.refl _ body)
      (Statement.BlankedBranches.refl rest)

/-- Nothing has to be blanked out in a last block. -/
theorem Statement.BlankedOtherwise.refl :
    (otherwise : Option Block) → Statement.BlankedOtherwise p otherwise otherwise
  | none => .none
  | some body => .some (Block.Blanked.refl _ body)

end

end Refl

section Result

variable {p : Program} {u : Use}

/-- The last statement is the last one with parts blanked out. -/
theorem Statement.BlankedAll.getLast? {xs xs' : List Statement}
    (h : Statement.BlankedAll p u xs xs') :
    (xs.getLast? = none ∧ xs'.getLast? = none) ∨
      ∃ x x', xs.getLast? = some x ∧ xs'.getLast? = some x' ∧ Statement.Blanked p u x x' := by
  induction xs generalizing xs' with
  | nil =>
    cases h
    exact .inl ⟨rfl, rfl⟩
  | cons x rest ih =>
    cases h with
    | last h => exact .inr ⟨_, _, rfl, rfl, h⟩
    | cons h hrest =>
      rw [List.getLast?_cons_cons, List.getLast?_cons_cons]
      exact ih hrest

/-- The value that a block stands for is the old one with parts blanked out. -/
theorem Block.Blanked.result? {b b' : Block} (h : Block.Blanked p u b b') :
    (b.result? = none ∧ b'.result? = none) ∨
      ∃ r r', b.result? = some r ∧ b'.result? = some r' ∧ r.Blanked p u r' := by
  cases h with
  | @mk _ singleton _ _ _ _ h =>
    cases singleton with
    | false => exact .inl ⟨rfl, rfl⟩
    | true =>
      obtain ⟨hx, hx'⟩ | ⟨x, x', hx, hx', hlast⟩ := Statement.BlankedAll.getLast? h
      · exact .inl (by simp [Block.result?, hx, hx'])
      · cases hlast with
        | expr h => exact .inr ⟨_, _, by simp [Block.result?, hx], by simp [Block.result?, hx'], h⟩
        | _ => exact .inl (by simp [Block.result?, hx, hx'])

end Result

end EntityLang
