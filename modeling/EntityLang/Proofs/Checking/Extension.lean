import EntityLang.Checking.Program
import EntityLang.Proofs.Program.Extension

/-!
# Checking inside larger programs

The check of an intact program and that of a program that extends it find the same in every scope
and to every depth: the same reports in the same order, or the same halt. So a check never reads a
node that is not there.
-/

namespace EntityLang

/-- Checks that find the same of each member find the same of a list. -/
theorem Findings.forEach_congr {α : Type} {f g : α → Findings} {as : List α}
    (h : ∀ a ∈ as, f a = g a) : forEach f as = forEach g as := by
  induction as with
  | nil => rfl
  | cons a rest ih =>
    rw [List.forall_mem_cons] at h
    rw [forEach, forEach, h.1, ih h.2]

namespace Program.Extends

section

variable {p q : Program} (h : p.Extends q)
include h

/-- A pattern is described alike. -/
theorem describe_eq {x : Pattern} (hx : Within p.count x.refs) : q.describe x = p.describe x := by
  induction x with
  | optional inner ih => rw [describe, describe, ih hx]
  | enum k => exact h.declIdentity_eq (d := .enum k) (within_cons.mp hx).1
  | entity k => exact h.declIdentity_eq (d := .entity k) (within_cons.mp hx).1
  | native k => exact h.declIdentity_eq (d := .native k) (within_cons.mp hx).1
  | _ => rfl

/-- The check whether an expression fits finds the same. -/
theorem checkFits_eq {e : Expr} (he : Within p.count e.refs) (expected : Pattern)
    (problem : Problem) (span : Span) :
    e.checkFits q expected problem span = e.checkFits p expected problem span := by
  rw [Expr.checkFits, Expr.checkFits, h.pattern_eq he]

/-- The check of a condition finds the same. -/
theorem checkCondition_eq {e : Expr} (he : Within p.count e.refs) :
    e.checkCondition q = e.checkCondition p := by
  rw [Expr.checkCondition, Expr.checkCondition, h.pattern_eq he]

/-- The check whether a rule can match finds the same. -/
theorem checkReachable_eq {e : Expr} (he : Within p.count e.refs) (subject : Pattern) :
    e.checkReachable q subject = e.checkReachable p subject := by
  rw [Expr.checkReachable, Expr.checkReachable, h.pattern_eq he]

/-- The check whether results have a common pattern finds the same. -/
theorem checkConsistent_eq {rules : List (Rule Expr)}
    (hrules : ∀ r ∈ rules, Within p.count r.result.refs) (span : Span) :
    Expr.checkConsistent q rules span = Expr.checkConsistent p rules span := by
  have hresults : Expr.resultPatterns q rules = Expr.resultPatterns p rules := by
    rw [Expr.resultPatterns_eq_map, Expr.resultPatterns_eq_map]
    exact List.map_congr_left fun r hr => h.pattern_eq (hrules r hr)
  rw [Expr.checkConsistent, Expr.checkConsistent, hresults]

/-- The check of an expression finds the same. -/
theorem checkExpr_eq {e : Expr} (he : Within p.count e.refs) : e.check q = e.check p := by
  induction e using Expr.induction_children with
  | node e ih =>
    have hpart : ∀ x ∈ e.children, Within p.count x.refs := fun x => Expr.within_child he
    have hcheck : ∀ x ∈ e.children, x.check q = x.check p := fun x hx => ih x hx (hpart x hx)
    cases e with
    | list items span =>
      simp only [Expr.check, Expr.checkAll_eq_forEach]
      exact Findings.forEach_congr hcheck
    | instances items span =>
      simp only [Expr.check, Expr.checkAll_eq_forEach]
      exact Findings.forEach_congr hcheck
    | unary op operand span =>
      rw [Expr.check, Expr.check]
      exact hcheck operand (by simp [Expr.children])
    | binary op lhs rhs span =>
      rw [Expr.check, Expr.check, hcheck lhs (by simp [Expr.children]),
        hcheck rhs (by simp [Expr.children])]
    | property subject target span =>
      have hsubject := hcheck subject (by simp [Expr.children])
      cases target <;> simp only [Expr.check, hsubject]
    | select subject rules span =>
      obtain ⟨hsubject, hrules⟩ := List.forall_mem_cons.mp hpart
      obtain ⟨hsubject', hrules'⟩ := List.forall_mem_cons.mp hcheck
      rw [Expr.forall_mem_rules_iff] at hrules hrules'
      have harms : Expr.checkArms q (subject.pattern p) rules =
          Expr.checkArms p (subject.pattern p) rules := by
        rw [Expr.checkArms_eq_forEach, Expr.checkArms_eq_forEach]
        refine Findings.forEach_congr fun r hr => ?_
        rw [(hrules' r hr).1, (hrules' r hr).2, h.checkReachable_eq (hrules r hr).1]
      rw [Expr.check, Expr.check, hsubject', h.pattern_eq hsubject, harms,
        h.checkConsistent_eq fun r hr => (hrules r hr).2]
    | call callee args span =>
      have hargs : Expr.checkAll q args = Expr.checkAll p args := by
        rw [Expr.checkAll_eq_forEach, Expr.checkAll_eq_forEach]
        exact Findings.forEach_congr hcheck
      cases callee <;> simp only [Expr.check, hargs]
    | cond rules otherwise span =>
      obtain ⟨hrules, -⟩ := List.forall_mem_append.mp hpart
      obtain ⟨hrules', hotherwise'⟩ := List.forall_mem_append.mp hcheck
      rw [Expr.forall_mem_rules_iff] at hrules hrules'
      have hheads : Expr.checkRules q rules = Expr.checkRules p rules := by
        rw [Expr.checkRules_eq_forEach, Expr.checkRules_eq_forEach]
        refine Findings.forEach_congr fun r hr => ?_
        rw [(hrules' r hr).1, (hrules' r hr).2, h.checkCondition_eq (hrules r hr).1]
      have hotherwise : Expr.checkOption q otherwise = Expr.checkOption p otherwise := by
        cases otherwise with
        | none => rfl
        | some x => exact hotherwise' x (by simp)
      rw [Expr.check, Expr.check, hheads, hotherwise]
    | index subject position span =>
      rw [Expr.check, Expr.check, hcheck subject (by simp [Expr.children]),
        hcheck position (by simp [Expr.children])]
    | _ => rfl

end

section Blocks

variable {p q : Program} {enter enter' : ScopeId → Findings}

mutual

/-- The check of a block finds the same, if entering a scope does. -/
theorem checkBlock_eq (h : p.Extends q) (henter : p.EntersAlike enter enter') :
    (b : Block) → Within p.count b.refs → b.check q enter' = b.check p enter
  | ⟨singleton, scope, statements, span⟩, hb => by
    obtain ⟨hscope, hstatements⟩ := within_cons.mp hb
    rw [Block.check, Block.check, henter scope hscope, h.checkStatements_eq henter statements hstatements]

/-- The check of a statement finds the same, if entering a scope does. -/
theorem checkStatement_eq (h : p.Extends q) (henter : p.EntersAlike enter enter') :
    (x : Statement) → Within p.count x.refs →
    x.check q enter' = x.check p enter
  | .expr value, hvalue => by
    rw [Statement.check, Statement.check]
    exact h.checkExpr_eq hvalue
  | .block body, hbody => by
    rw [Statement.check, Statement.check]
    exact h.checkBlock_eq henter body hbody
  | .cond branches otherwise span, hcond => by
    obtain ⟨hbranches, hotherwise⟩ := within_append.mp hcond
    rw [Statement.check, Statement.check, h.checkBranches_eq henter branches hbranches,
      h.checkOtherwise_eq henter otherwise hotherwise]
  | .forEach item range body span, hloop => by
    obtain ⟨hhead, hbody⟩ := within_append.mp hloop
    rw [Statement.check, Statement.check, h.checkExpr_eq (within_cons.mp hhead).2,
      h.checkBlock_eq henter body hbody]
  | .assign subject value span, hassign => by
    obtain ⟨hsubject, hvalue⟩ := within_append.mp hassign
    rw [Statement.check, Statement.check, h.checkExpr_eq hsubject, h.checkExpr_eq hvalue,
      h.pattern_eq hsubject, h.checkFits_eq hvalue]
  | .declare target value span, hdeclare => by
    obtain ⟨htarget, hvalue⟩ := within_cons.mp hdeclare
    have hvar : q.var target = p.var target := (h.vars target htarget).2
    cases value with
    | none => simp only [Statement.check, hvar]
    | some e =>
      have he : Within p.count e.refs := by simpa using hvalue
      simp only [Statement.check, hvar, h.checkExpr_eq he, h.checkFits_eq he]

/-- The check of a list of statements finds the same, if entering a scope does. -/
theorem checkStatements_eq (h : p.Extends q) (henter : p.EntersAlike enter enter') :
    (xs : List Statement) → Within p.count (Statement.refsAll xs) →
    Statement.checkAll q enter' xs = Statement.checkAll p enter xs
  | [], _ => rfl
  | x :: rest, hall => by
    obtain ⟨hx, hrest⟩ := within_append.mp hall
    rw [Statement.checkAll, Statement.checkAll, h.checkStatement_eq henter x hx,
      h.checkStatements_eq henter rest hrest]

/-- The check of branches finds the same, if entering a scope does. -/
theorem checkBranches_eq (h : p.Extends q) (henter : p.EntersAlike enter enter') :
    (bs : List (Branch Block)) →
    Within p.count (Statement.refsBranches bs) →
    Statement.checkBranches q enter' bs = Statement.checkBranches p enter bs
  | [], _ => rfl
  | ⟨condition, body, span⟩ :: rest, hall => by
    obtain ⟨hfirst, hrest⟩ := within_append.mp hall
    obtain ⟨hcondition, hbody⟩ := within_append.mp hfirst
    rw [Statement.checkBranches, Statement.checkBranches, h.checkExpr_eq hcondition,
      h.checkCondition_eq hcondition, h.checkBlock_eq henter body hbody, h.checkBranches_eq henter rest hrest]

/-- The check of a last block finds the same, if entering a scope does. -/
theorem checkOtherwise_eq (h : p.Extends q) (henter : p.EntersAlike enter enter') :
    (o : Option Block) → Within p.count (Statement.refsOtherwise o) →
    Statement.checkOtherwise q enter' o = Statement.checkOtherwise p enter o
  | none, _ => rfl
  | some body, hbody => by
    rw [Statement.checkOtherwise, Statement.checkOtherwise]
    exact h.checkBlock_eq henter body hbody

end

end Blocks

/-! ### Declarations and scopes -/

section

variable {p q : Program} (h : p.Extends q) (hp : p.Intact)
include h hp

/-- The check of the result of a body finds the same. -/
theorem checkResult_eq {f : FunctionProperty} (hf : Within p.count f.refs) {b : Block}
    (hb : Within p.count b.refs) : q.checkResult f b = p.checkResult f b := by
  have hpattern : Within p.count f.pattern.refs := (within_append.mp (within_append.mp hf).1).1
  rw [checkResult, checkResult]
  cases hresult : b.result? with
  | none => rfl
  | some e =>
    have he : Within p.count e.refs := Block.within_result hb hresult
    simp only [h.pattern_eq he, h.describe_eq (hp.pattern he), h.describe_eq hpattern,
      h.checkFits_eq he]

variable {enter enter' : ScopeId → Findings} (henter : p.EntersAlike enter enter')
include henter

/-- The check of a state finds the same, if entering a scope does. -/
theorem checkState_eq {k : StateId} (hk : k.index < p.states.size) :
    q.checkState enter' k = p.checkState enter k := by
  have heq : q.state k = p.state k := (h.states k hk).2
  have hrefs := hp.state hk
  simp only [StateProperty.refs, within_append, within_cons] at hrefs
  obtain ⟨⟨-, hscope, -⟩, hvalue⟩ := hrefs
  simp only [checkState, heq, henter _ hscope]
  cases hinitial : (p.state k).initialValue with
  | none => rfl
  | some e =>
    have he : Within p.count e.refs := by simpa [hinitial] using hvalue
    simp only [h.checkExpr_eq he, h.checkFits_eq he]

/-- The check of a function finds the same, if entering a scope does. -/
theorem checkFunction_eq {k : FunctionId} (hk : k.index < p.functions.size) :
    q.checkFunction enter' k = p.checkFunction enter k := by
  have heq : q.function k = p.function k := (h.functions k hk).2
  have hrefs := hp.function hk
  have hparts := hrefs
  simp only [FunctionProperty.refs, within_append, within_cons] at hparts
  obtain ⟨⟨-, hscope, -⟩, hbody⟩ := hparts
  simp only [checkFunction, heq, henter _ hscope]
  cases hb : (p.function k).body with
  | none => rfl
  | some b =>
    rw [hb] at hbody
    simp only [h.checkBlock_eq henter b hbody, h.checkResult_eq hp hrefs hbody]

/-- The check of a declaration finds the same, if entering a scope does. -/
theorem checkDecl_eq {d : Decl} (hd : p.HasNode d) :
    q.checkDecl enter' d = p.checkDecl enter d := by
  cases d with
  | var k => exact congrArg (Pattern.check ∘ Variable.pattern) (h.vars k hd).2
  | state k => exact h.checkState_eq hp henter hd
  | function k => exact h.checkFunction_eq hp henter hd
  | _ => rfl

/-- The check of a member of an overload set finds the same, if entering a scope does. -/
theorem checkMember_eq (identity : String) {b : Binding} (hb : Within p.count b.refs) :
    q.checkMember enter' identity b = p.checkMember enter identity b := by
  cases b with
  | decl d =>
    cases d with
    | function k => exact h.checkFunction_eq hp henter (within_cons.mp hb).1
    | _ => rfl
  | overloaded own members => rfl

/-- The check of what a name stands for finds the same, if entering a scope does. -/
theorem checkBinding_eq {b : Binding} (hb : Within p.count b.refs) :
    q.checkBinding enter' b = p.checkBinding enter b := by
  cases b with
  | decl d =>
    exact h.checkDecl_eq hp henter (within_binding_iff.mp hb d (by simp [Binding.overloads]))
  | overloaded identity members =>
    rw [checkBinding, checkBinding]
    exact Findings.forEach_congr fun m hm =>
      h.checkMember_eq hp henter identity (Binding.within_member hb hm)

omit henter in
/-- The check of a scope finds the same, to any depth. -/
theorem checkScopeUpTo_eq (depth : Nat) {s : ScopeId} (hs : s.index < p.scopes.size) :
    q.checkScopeUpTo depth s = p.checkScopeUpTo depth s := by
  induction depth generalizing s with
  | zero => rfl
  | succ depth ih =>
    have hscope : q.scope s = p.scope s := (h.scopes s hs).2
    have hbound := (Scope.within_refs_iff.mp (hp.scope s)).2.1
    rw [checkScopeUpTo, checkScopeUpTo, hscope]
    refine Findings.forEach_congr fun b hb => ?_
    obtain ⟨identity, hb⟩ := (Scope.mem_bindings_values_iff _ b).mp hb
    exact h.checkBinding_eq hp (fun c hc => ih hc) (hbound identity b hb)

end

end Program.Extends

end EntityLang
