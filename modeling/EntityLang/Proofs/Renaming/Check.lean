import EntityLang.Checking.Program
import EntityLang.Proofs.Renaming.Expr

/-!
# Renaming and checking

A check finds the same in a program under new handles: the same reports in the same order, or the
same halt.
-/

namespace EntityLang

/-- Checking the images of some members is checking the members through the map. -/
theorem Findings.forEach_map {α β : Type} (check : β → Findings) (f : α → β) (as : List α) :
    forEach check (as.map f) = forEach (check ∘ f) as := by
  induction as with
  | nil => rfl
  | cons a rest ih => rw [List.map_cons, forEach, forEach, ih, Function.comp_apply]

/-- The check of a pattern finds the same. -/
@[simp] theorem Pattern.check_rename (ρ : Renaming) (a : Pattern) :
    (a.rename ρ).check = a.check := by
  rw [check, check, unresolved?_rename]

section

variable {ρ : Renaming} {n : Nat} {p q : Program} (hp : p.Renames ρ n q)

namespace Expr

/-! ### Expressions -/

include hp

/-- The check of a condition finds the same. -/
theorem Renames.checkCondition_eq {e e' : Expr} (h : e.Renames ρ n e') :
    e'.checkCondition q = e.checkCondition p := by
  have hfits := Pattern.fits_rename ρ (e.pattern p) .bool
  rw [Pattern.rename_bool] at hfits
  rw [checkCondition, checkCondition, h.pattern_eq hp, hfits, Pattern.isOptional_rename, h.span_eq]

/-- The check whether a rule can match finds the same. -/
theorem Renames.checkReachable_eq {e e' : Expr} (h : e.Renames ρ n e') (subject : Pattern) :
    e'.checkReachable q (subject.rename ρ) = e.checkReachable p subject := by
  rw [checkReachable, checkReachable, h.pattern_eq hp, Pattern.overlaps_rename, h.span_eq]

/-- The check whether an expression fits finds the same. -/
theorem Renames.checkFits_eq {e e' : Expr} (h : e.Renames ρ n e') (expected : Pattern)
    (problem : Problem) (span : Span) :
    e'.checkFits q (expected.rename ρ) problem span = e.checkFits p expected problem span := by
  rw [checkFits, checkFits, h.pattern_eq hp, Pattern.fits_rename]

/-- The check whether results have a common pattern finds the same. -/
theorem RenamesRules.checkConsistent_eq {rules rules' : List (Rule Expr)}
    (h : RenamesRules ρ n rules rules') (span : Span) :
    checkConsistent q rules' span = checkConsistent p rules span := by
  rw [checkConsistent, checkConsistent, h.resultPatterns_eq hp, h.isEmpty_eq,
    Pattern.unifyAll_rename, Option.isSome_map]

omit hp

mutual

/-- The check of an expression finds the same. -/
theorem Renames.check_eq (hp : p.Renames ρ n q) : {e e' : Expr} → e.Renames ρ n e' →
    e'.check q = e.check p
  | _, _, .list h => by
    rw [check, check]
    exact h.checkAll_eq hp
  | _, _, .instances h => by
    rw [check, check]
    exact h.checkAll_eq hp
  | _, _, .unary h => by
    rw [check, check]
    exact h.check_eq hp
  | _, _, .binary hl hr => by rw [check, check, hl.check_eq hp, hr.check_eq hp]
  | .property _ target _, _, .property h => by
    cases target with
    | unresolved name => rfl
    | state k =>
      rw [PropertyRef.rename, check, check]
      exact h.check_eq hp
    | function k =>
      rw [PropertyRef.rename, check, check]
      exact h.check_eq hp
  | _, _, .select hs hr => by
    rw [check, check, hs.check_eq hp, hs.pattern_eq hp, hr.checkArms_eq hp, hr.checkConsistent_eq hp]
  | .call callee _ _, _, .call h => by
    cases callee with
    | unresolved name => rfl
    | function k =>
      rw [Callee.rename, check, check]
      exact h.checkAll_eq hp
  | _, _, .cond hr ho => by rw [check, check, hr.checkRules_eq hp, ho.checkOption_eq hp]
  | _, _, .index hs hi => by rw [check, check, hs.check_eq hp, hi.check_eq hp]
  | _, _, .unresolved _ _ => rfl
  | _, _, .var _ _ => rfl
  | _, _, .enumValue _ _ => rfl
  | _, _, .literal _ _ => rfl
  | _, _, .invalid _ => rfl

/-- The check of a list of expressions finds the same. -/
theorem RenamesAll.checkAll_eq (hp : p.Renames ρ n q) : {es es' : List Expr} →
    RenamesAll ρ n es es' → checkAll q es' = checkAll p es
  | _, _, .nil => rfl
  | _, _, .cons he hrest => by rw [checkAll, checkAll, he.check_eq hp, hrest.checkAll_eq hp]

/-- The check of the rules of a match finds the same. -/
theorem RenamesRules.checkArms_eq (hp : p.Renames ρ n q) (subject : Pattern) :
    {rules rules' : List (Rule Expr)} → RenamesRules ρ n rules rules' →
    checkArms q (subject.rename ρ) rules' = checkArms p subject rules
  | _, _, .nil => rfl
  | _, _, .cons hh hr hrest => by
    rw [checkArms, checkArms, hh.check_eq hp, hr.check_eq hp, hh.checkReachable_eq hp,
      hrest.checkArms_eq hp]

/-- The check of the rules of a conditional finds the same. -/
theorem RenamesRules.checkRules_eq (hp : p.Renames ρ n q) : {rules rules' : List (Rule Expr)} →
    RenamesRules ρ n rules rules' → checkRules q rules' = checkRules p rules
  | _, _, .nil => rfl
  | _, _, .cons hh hr hrest => by
    rw [checkRules, checkRules, hh.check_eq hp, hr.check_eq hp, hh.checkCondition_eq hp,
      hrest.checkRules_eq hp]

/-- The check of an expression that may be absent finds the same. -/
theorem RenamesOption.checkOption_eq (hp : p.Renames ρ n q) : {o o' : Option Expr} →
    RenamesOption ρ n o o' → checkOption q o' = checkOption p o
  | _, _, .none => rfl
  | _, _, .some h => by
    rw [checkOption, checkOption]
    exact h.check_eq hp

end

end Expr

/-! ### Blocks -/

variable {enter enter' : ScopeId → Findings} (henter : ∀ s, enter' (ρ.handle s) = enter s)

mutual

/-- The check of a block finds the same, if entering a scope does. -/
theorem Block.Renames.check_eq (hp : p.Renames ρ n q)
    (henter : ∀ s, enter' (ρ.handle s) = enter s) :
    {b b' : Block} → b.Renames ρ n b' →
    b'.check q enter' = b.check p enter
  | _, _, .mk h => by
    rw [Block.check, Block.check, henter, h.checkAll_eq hp henter]

/-- The check of a statement finds the same, if entering a scope does. -/
theorem Statement.Renames.check_eq (hp : p.Renames ρ n q)
    (henter : ∀ s, enter' (ρ.handle s) = enter s) :
    {x x' : Statement} → x.Renames ρ n x' →
    x'.check q enter' = x.check p enter
  | _, _, .expr h => by
    rw [Statement.check, Statement.check]
    exact h.check_eq hp
  | _, _, .block h => by
    rw [Statement.check, Statement.check]
    exact h.check_eq hp henter
  | _, _, .cond hb ho => by
    rw [Statement.check, Statement.check, hb.checkBranches_eq hp henter, ho.checkOtherwise_eq hp henter]
  | _, _, .forEach hr hb => by
    rw [Statement.check, Statement.check, hr.check_eq hp, hb.check_eq hp henter]
  | _, _, .assign hs hv => by
    rw [Statement.check, Statement.check, hs.check_eq hp, hv.check_eq hp, hs.pattern_eq hp,
      hv.checkFits_eq hp]
  | .declare target _ _, _, .declare h => by
    have hvar := hp.var_eq target
    cases h with
    | none => simp only [Statement.check, hvar, Variable.rename, Pattern.check_rename]
    | some h =>
      simp only [Statement.check, hvar, Variable.rename, Pattern.check_rename, h.check_eq hp,
        h.checkFits_eq hp]

/-- The check of a list of statements finds the same, if entering a scope does. -/
theorem Statement.RenamesAll.checkAll_eq (hp : p.Renames ρ n q)
    (henter : ∀ s, enter' (ρ.handle s) = enter s) :
    {xs xs' : List Statement} →
    Statement.RenamesAll ρ n xs xs' →
    Statement.checkAll q enter' xs' = Statement.checkAll p enter xs
  | _, _, .nil => rfl
  | _, _, .cons h hrest => by
    rw [Statement.checkAll, Statement.checkAll, h.check_eq hp henter, hrest.checkAll_eq hp henter]

/-- The check of branches finds the same, if entering a scope does. -/
theorem Statement.RenamesBranches.checkBranches_eq (hp : p.Renames ρ n q)
    (henter : ∀ s, enter' (ρ.handle s) = enter s) :
    {bs bs' : List (Branch Block)} →
    Statement.RenamesBranches ρ n bs bs' →
    Statement.checkBranches q enter' bs' = Statement.checkBranches p enter bs
  | _, _, .nil => rfl
  | _, _, .cons hc hb hrest => by
    rw [Statement.checkBranches, Statement.checkBranches, hc.check_eq hp, hc.checkCondition_eq hp,
      hb.check_eq hp henter, hrest.checkBranches_eq hp henter]

/-- The check of a last block finds the same, if entering a scope does. -/
theorem Statement.RenamesOtherwise.checkOtherwise_eq (hp : p.Renames ρ n q)
    (henter : ∀ s, enter' (ρ.handle s) = enter s) :
    {o o' : Option Block} →
    Statement.RenamesOtherwise ρ n o o' →
    Statement.checkOtherwise q enter' o' = Statement.checkOtherwise p enter o
  | _, _, .none => rfl
  | _, _, .some h => by
    rw [Statement.checkOtherwise, Statement.checkOtherwise]
    exact h.check_eq hp henter

end

/-! ### Declarations and scopes -/

namespace Program.Renames

include hp henter

/-- The check of a state finds the same, if entering a scope does. -/
theorem checkState_eq (k : StateId) : q.checkState enter' (ρ.handle k) = p.checkState enter k := by
  have hk := hp.state_renames k
  have hvalue := hk.initialValue
  simp only [checkState, hk.pattern, hk.scope, hk.identity, Pattern.check_rename, henter]
  generalize (p.state k).initialValue = value at hvalue ⊢
  generalize (q.state (ρ.handle k)).initialValue = value' at hvalue ⊢
  cases hvalue with
  | none => rfl
  | some h => simp only [h.check_eq hp, h.checkFits_eq hp, h.span_eq]

omit henter in
/-- The check of the result of a body finds the same. -/
theorem checkResult_eq {f g : FunctionProperty} (h : f.Renames ρ n g) {b b' : Block}
    (hb : b.Renames ρ n b') : q.checkResult g b' = p.checkResult f b := by
  have hresult := hb.result?
  rw [checkResult, checkResult]
  generalize b.result? = result at hresult ⊢
  generalize b'.result? = result' at hresult ⊢
  cases hresult with
  | none => rfl
  | some hr =>
    simp only [h.pattern, h.identity, hr.pattern_eq hp, hp.describe_eq, hr.checkFits_eq hp,
      hr.span_eq]

/-- The check of a function finds the same, if entering a scope does. -/
theorem checkFunction_eq (k : FunctionId) :
    q.checkFunction enter' (ρ.handle k) = p.checkFunction enter k := by
  have hk := hp.function_renames k
  have hbody := hk.body
  simp only [checkFunction, hk.pattern, hk.scope, Pattern.check_rename, henter]
  generalize (p.function k).body = body at hbody ⊢
  generalize (q.function (ρ.handle k)).body = body' at hbody ⊢
  cases hbody with
  | none => rfl
  | some hb => simp only [hb.check_eq hp henter, hp.checkResult_eq hk hb]

/-- The check of a declaration finds the same, if entering a scope does. -/
theorem checkDecl_eq (d : Decl) : q.checkDecl enter' (d.rename ρ) = p.checkDecl enter d := by
  cases d with
  | var k => rw [Decl.rename, checkDecl, checkDecl, hp.varPattern_eq, Pattern.check_rename]
  | state k => exact hp.checkState_eq henter k
  | function k => exact hp.checkFunction_eq henter k
  | _ => rfl

/-- The check of a member of an overload set finds the same, if entering a scope does. -/
theorem checkMember_eq (identity : String) (b : Binding) :
    q.checkMember enter' identity (b.rename ρ) = p.checkMember enter identity b := by
  cases b with
  | decl d =>
    cases d with
    | function k => exact hp.checkFunction_eq henter k
    | _ => rfl
  | overloaded own members => rfl

/-- The check of what a name stands for finds the same, if entering a scope does. -/
theorem checkBinding_eq (b : Binding) :
    q.checkBinding enter' (b.rename ρ) = p.checkBinding enter b := by
  cases b with
  | decl d => exact hp.checkDecl_eq henter d
  | overloaded identity members =>
    rw [Binding.rename, checkBinding, checkBinding, Binding.renameAll_eq_map, Findings.forEach_map]
    congr 1
    exact funext (hp.checkMember_eq henter identity)

omit henter in
/-- The check of a scope finds the same, to any depth. -/
theorem checkScopeUpTo_eq (depth : Nat) (s : ScopeId) :
    q.checkScopeUpTo depth (ρ.handle s) = p.checkScopeUpTo depth s := by
  induction depth generalizing s with
  | zero => rfl
  | succ depth ih =>
    rw [checkScopeUpTo, checkScopeUpTo, (hp.scope_renames s).values, Findings.forEach_map]
    congr 1
    exact funext (hp.checkBinding_eq ih)

omit henter in
/-- The check of a program finds the same. -/
theorem check_eq : q.check = p.check := by
  have hglobal := hp.checkScopeUpTo_eq (p.propertyCount + 1) globalScope
  rw [ρ.handle_globalScope] at hglobal
  rw [Program.check, Program.check, hp.propertyCount_eq, hglobal]

end Program.Renames

end

end EntityLang
