import EntityLang.Checking.Program
import EntityLang.Proofs.Program.Construction
import EntityLang.Proofs.Program.Reach

/-!
# Where a check halts

Joined checks halt for the reason of the first one that halts, so the check of an expression, of a
block or of a declaration halts for the reason of the first node, in the order of the walk, that
halts on its own: a node that is still a name.

If scopes do not lead back to themselves, the check of a program halts exactly when a name is left
somewhere in what the global scope reaches, or an overload set there holds something that is no
function.
-/

namespace EntityLang

namespace Findings

/-- Why a check does not finish. -/
def cause? : Findings → Option Halt
  | .found _ => none
  | .halted cause => some cause

/-- A check halts for a cause exactly when its findings say so. -/
theorem cause?_eq_some_iff (f : Findings) (c : Halt) : f.cause? = some c ↔ f = .halted c := by
  cases f <;> simp [cause?]

/-- A check without a cause to halt has found its reports. -/
theorem cause?_eq_none_iff (f : Findings) : f.cause? = none ↔ ∃ ds, f = .found ds := by
  cases f <;> simp [cause?]

/-- A clean check does not halt. -/
@[simp] theorem cause?_clean : clean.cause? = none := rfl

/-- A requirement is reported or met, but never halts a check. -/
@[simp] theorem cause?_require (condition : Bool) (problem : Problem) (span : Span) :
    (require condition problem span).cause? = none := by
  cases condition <;> rfl

/-- Two checks in turn halt for the first cause there is. -/
@[simp] theorem cause?_append (x y : Findings) : (x ++ y).cause? = x.cause?.or y.cause? := by
  cases x <;> cases y <;> rfl

/-- The first hit is the one at the head, or else the first one behind it. -/
theorem findSome?_cons_or {α β : Type} (f : α → Option β) (a : α) (as : List α) :
    (a :: as).findSome? f = (f a).or (as.findSome? f) := by
  cases h : f a <;> simp [h]

/-- Checks in turn halt for the reason of the first one that halts. -/
theorem cause?_forEach {α : Type} (check : α → Findings) (as : List α) :
    (forEach check as).cause? = as.findSome? fun a => (check a).cause? := by
  induction as with
  | nil => rfl
  | cons a rest ih => rw [forEach, cause?_append, ih, findSome?_cons_or]

end Findings

/-- The reason to halt at a pattern. -/
def Pattern.leftover? (x : Pattern) : Option Halt :=
  x.unresolved?.map fun name => .broken (.unresolved .pattern name)

/-- The check of a pattern halts exactly if a name is left in it. -/
theorem Pattern.cause?_check (x : Pattern) : x.check.cause? = x.leftover? := by
  unfold check leftover?
  cases x.unresolved? <;> rfl

open Findings (findSome?_cons_or)

namespace Expr

/-- The reason to halt at a node. -/
def leftover? : Expr → Option Halt
  | .unresolved name _ => some (.broken (.unresolved .identity name))
  | .property _ (.unresolved name) _ => some (.broken (.unresolved .property name))
  | .call (.unresolved name) _ _ => some (.broken (.unresolved .function name))
  | _ => none

/-- There is a reason to halt exactly at names. -/
theorem leftover?_eq_none_iff (e : Expr) : e.leftover? = none ↔ e.mention? = none := by
  cases e with
  | property subject target span => cases target <;> simp [leftover?, mention?]
  | call callee args span => cases callee <;> simp [leftover?, mention?]
  | _ => simp [leftover?, mention?]

/-- The reason to halt at a name is an internal error. -/
theorem exists_of_leftover? {e : Expr} {c : Halt} (h : e.leftover? = some c) :
    ∃ err, c = .broken err := by
  cases e with
  | unresolved name span => exact ⟨_, (Option.some.inj h).symm⟩
  | property subject target span =>
    cases target with
    | unresolved name => exact ⟨_, (Option.some.inj h).symm⟩
    | _ => simp [leftover?] at h
  | call callee args span =>
    cases callee with
    | unresolved name => exact ⟨_, (Option.some.inj h).symm⟩
    | _ => simp [leftover?] at h
  | _ => simp [leftover?] at h

mutual

/-- The check of an expression halts at the first part that is a name. -/
theorem cause?_check (p : Program) : (e : Expr) →
    (e.check p).cause? = e.subexprs.findSome? leftover?
  | .unresolved _ _ | .var _ _ | .enumValue _ _ | .literal _ _ | .invalid _ => rfl
  | .list items _ => cause?_checkAll p items
  | .instances items _ => cause?_checkAll p items
  | .unary _ operand _ => cause?_check p operand
  | .binary op lhs rhs span => by
    simp [check, subexprs, cause?_check p lhs, cause?_check p rhs, findSome?_cons_or,
      leftover?]
  | .property subject target span => by
    cases target with
    | unresolved name => rfl
    | state h => exact cause?_check p subject
    | function h => exact cause?_check p subject
  | .select subject rules span => by
    simp [check, subexprs, cause?_check p subject, cause?_checkArms p _ rules, checkConsistent,
      findSome?_cons_or, leftover?]
  | .call callee args span => by
    cases callee with
    | unresolved name => rfl
    | function h => exact cause?_checkAll p args
  | .cond rules otherwise span => by
    simp [check, subexprs, cause?_checkRules p rules, cause?_checkOption p otherwise,
      findSome?_cons_or, leftover?]
  | .index subject position span => by
    simp [check, subexprs, cause?_check p subject, cause?_check p position,
      findSome?_cons_or, leftover?]

/-- The check of expressions halts at the first part that is a name. -/
theorem cause?_checkAll (p : Program) : (es : List Expr) →
    (checkAll p es).cause? = (subexprsAll es).findSome? leftover?
  | [] => rfl
  | e :: rest => by simp [checkAll, subexprsAll, cause?_check p e, cause?_checkAll p rest]

/-- The check of the rules of a match halts at the first part that is a name. -/
theorem cause?_checkArms (p : Program) (subject : Pattern) : (rules : List (Rule Expr)) →
    (checkArms p subject rules).cause? = (subexprsRules rules).findSome? leftover?
  | [] => rfl
  | ⟨head, result, span⟩ :: rest => by
    simp [checkArms, subexprsRules, checkReachable, cause?_check p head, cause?_check p result,
      cause?_checkArms p subject rest, Option.or_assoc]

/-- The check of the rules of a conditional halts at the first part that is a name. -/
theorem cause?_checkRules (p : Program) : (rules : List (Rule Expr)) →
    (checkRules p rules).cause? = (subexprsRules rules).findSome? leftover?
  | [] => rfl
  | ⟨head, result, span⟩ :: rest => by
    simp [checkRules, subexprsRules, checkCondition, cause?_check p head, cause?_check p result,
      cause?_checkRules p rest, Option.or_assoc]

/-- The check of an expression that may be absent halts at the first part that is a name. -/
theorem cause?_checkOption (p : Program) : (o : Option Expr) →
    (checkOption p o).cause? = (subexprsOption o).findSome? leftover?
  | none => rfl
  | some e => cause?_check p e

end

/-- There is no reason to halt in an expression exactly when no part is a name. -/
theorem findSome?_leftover?_eq_none_iff (e : Expr) :
    e.subexprs.findSome? leftover? = none ↔ e.IsResolved := by
  rw [List.findSome?_eq_none_iff]
  exact forall₂_congr fun x _ => leftover?_eq_none_iff x

end Expr

section Blocks

variable (p : Program) (enter : ScopeId → Findings)

/-- The reason to halt at a site. -/
def Site.leftover? : Site → Option Halt
  | .enter _ _ => none
  | .eval _ _ e => e.subexprs.findSome? Expr.leftover?
  | .declare _ v => (p.var v).pattern.leftover?

/-- Why the check halts at a site or in the scope that it enters, where `enter` checks a scope. -/
def Site.cause? : Site → Option Halt
  | .enter _ c => (enter c).cause?
  | x => x.leftover? p

/-- The site of a scope halts where entering the scope does. -/
@[simp] theorem Site.cause?_enter (o c : ScopeId) :
    (Site.enter o c).cause? p enter = (enter c).cause? := rfl

/-- The site of an expression halts where the check of the expression does. -/
@[simp] theorem Site.cause?_eval (s : ScopeId) (expected : Expectation) (e : Expr) :
    (Site.eval s expected e).cause? p enter = (e.check p).cause? := (Expr.cause?_check p e).symm

/-- The site of a declaration halts if the variable still has a name for a pattern. -/
@[simp] theorem Site.cause?_declare (s : ScopeId) (v : VarId) :
    (Site.declare s v).cause? p enter = (p.var v).pattern.leftover? := rfl

mutual

/-- The check of a block halts at the first site that it halts at. -/
theorem Block.cause?_check (outer : ScopeId) (hinted : Bool) : (b : Block) →
    (b.check p enter).cause? = (b.sites outer hinted).findSome? (Site.cause? p enter)
  | ⟨singleton, scope, statements, span⟩ => by
    rw [Block.check, Block.sites, Findings.cause?_append, findSome?_cons_or,
      Statement.cause?_checkAll scope (hinted && singleton) statements]
    rfl

/-- The check of a statement halts at the first site that it halts at. -/
theorem Statement.cause?_check (s : ScopeId) (hinted : Bool) : (statement : Statement) →
    (statement.check p enter).cause? =
      (statement.sites s hinted).findSome? (Site.cause? p enter)
  | .expr value => by
    simp [Statement.check, Statement.sites, findSome?_cons_or]
  | .block body => Block.cause?_check s false body
  | .cond branches otherwise span => by
    rw [Statement.check, Statement.sites, Findings.cause?_append, List.findSome?_append,
      Statement.cause?_checkBranches s branches, Statement.cause?_checkOtherwise s otherwise]
  | .forEach item range body span => by
    rw [Statement.check, Statement.sites, Findings.cause?_append, findSome?_cons_or,
      Block.cause?_check s false body, Site.cause?_eval]
  | .assign subject value span => by
    simp [Statement.check, Statement.sites, Expr.checkFits, findSome?_cons_or]
  | .declare target value span => by
    cases value <;>
      simp [Statement.check, Statement.sites, Expr.checkFits, Pattern.cause?_check,
        findSome?_cons_or]

/-- The check of statements halts at the first site that it halts at. -/
theorem Statement.cause?_checkAll (s : ScopeId) (hinted : Bool) : (statements : List Statement) →
    (Statement.checkAll p enter statements).cause? =
      (Statement.sitesAll s hinted statements).findSome? (Site.cause? p enter)
  | [] => rfl
  | statement :: rest => by
    rw [Statement.checkAll, Statement.sitesAll, Findings.cause?_append, List.findSome?_append,
      Statement.cause?_check s _ statement, Statement.cause?_checkAll s hinted rest]

/-- The check of branches halts at the first site that it halts at. -/
theorem Statement.cause?_checkBranches (s : ScopeId) : (branches : List (Branch Block)) →
    (Statement.checkBranches p enter branches).cause? =
      (Statement.sitesBranches s branches).findSome? (Site.cause? p enter)
  | [] => rfl
  | ⟨condition, body, span⟩ :: rest => by
    simp [Statement.checkBranches, Statement.sitesBranches, Expr.checkCondition,
      Block.cause?_check s false body, Statement.cause?_checkBranches s rest, findSome?_cons_or,
      Option.or_assoc]

/-- The check of the last block of a conditional halts at the first site that it halts at. -/
theorem Statement.cause?_checkOtherwise (s : ScopeId) : (otherwise : Option Block) →
    (Statement.checkOtherwise p enter otherwise).cause? =
      (Statement.sitesOtherwise s otherwise).findSome? (Site.cause? p enter)
  | none => rfl
  | some body => Block.cause?_check s false body

end

end Blocks

/-- The binding is an overload set with a member that is no function, and the reason says so. -/
def Binding.Malformed (c : Halt) : Binding → Prop
  | .decl _ => False
  | .overloaded identity members =>
    ∃ m ∈ members, (¬ ∃ h, m = .decl (.function h)) ∧
      c = .broken (.malformedOverloads identity m.kind)

/-- A malformed overload set has a member that is no function. -/
theorem Binding.Malformed.not_functionsOnly {b : Binding} {c : Halt} (h : b.Malformed c) :
    ¬ b.FunctionsOnly := by
  cases b with
  | decl d => exact h.elim
  | overloaded identity members =>
    obtain ⟨m, hm, hnot, -⟩ := h
    exact fun hmembers => hnot (hmembers m hm)

namespace Program

/-- What is met in a declaration that is bound in `s`: its scope, and the sites of its contents. -/
def declSites (p : Program) (s : ScopeId) : Decl → List Site
  | .state h =>
    let own := (p.state h).scope
    .enter s own :: (p.state h).initialValue.toList.map (.eval own .result)
  | .function h =>
    let own := (p.function h).scope
    .enter s own :: (p.function h).body.toList.flatMap (Block.sites own true)
  | .var _ | .native _ | .enum _ | .entity _ => []

/-- The check of a declaration halts at its pattern, or else at the first site that it halts at. -/
theorem cause?_checkDecl (p : Program) (enter : ScopeId → Findings) (s : ScopeId) (d : Decl) :
    (p.checkDecl enter d).cause? =
      (p.declPattern d).leftover?.or ((p.declSites s d).findSome? (Site.cause? p enter)) := by
  cases d with
  | var h => simp [checkDecl, declPattern, declSites, Pattern.cause?_check]
  | state h =>
    cases hvalue : (p.state h).initialValue <;>
      simp [checkDecl, checkState, declPattern, declSites, hvalue, Pattern.cause?_check,
        Expr.checkFits, findSome?_cons_or, Option.or_assoc]
  | function h =>
    have hresult (b : Block) : (p.checkResult (p.function h) b).cause? = none := by
      unfold checkResult
      cases b.result? <;> simp [Expr.checkFits]
    cases hbody : (p.function h).body with
    | none =>
      simp [checkDecl, checkFunction, declPattern, declSites, hbody, Pattern.cause?_check,
        findSome?_cons_or]
    | some b =>
      simp [checkDecl, checkFunction, declPattern, declSites, hbody, Pattern.cause?_check,
        findSome?_cons_or, Option.or_assoc, hresult,
        Block.cause?_check p enter (p.function h).scope true b]
  | _ => rfl

/-- If overload sets hold functions only, the check of a binding is that of its declarations. -/
theorem cause?_checkBinding (p : Program) (enter : ScopeId → Findings) {b : Binding}
    (hb : b.FunctionsOnly) :
    (p.checkBinding enter b).cause? =
      b.overloads.findSome? fun d => (p.checkDecl enter d).cause? := by
  cases b with
  | decl d => simp [checkBinding, Binding.overloads, findSome?_cons_or]
  | overloaded identity members =>
    rw [checkBinding, Findings.cause?_forEach, Binding.overloads]
    induction members with
    | nil => rfl
    | cons m rest ih =>
      obtain ⟨h, rfl⟩ := hb m List.mem_cons_self
      have hrest := ih fun n hn => hb n (List.mem_cons_of_mem _ hn)
      rw [findSome?_cons_or, hrest, Binding.overloadsAll, List.findSome?_append]
      simp [checkMember, checkDecl, Binding.overloads, findSome?_cons_or]

/-- A member of an overload set that is no function is a reason to halt. -/
theorem cause?_checkMember (p : Program) (enter : ScopeId → Findings) (identity : String)
    (m : Binding) :
    (∃ h, m = .decl (.function h)) ∨ (p.checkMember enter identity m).cause? =
      some (.broken (.malformedOverloads identity m.kind)) := by
  cases m with
  | decl d =>
    cases d with
    | function h => exact .inl ⟨h, rfl⟩
    | _ => exact .inr rfl
  | overloaded own members => exact .inr rfl

/-- If the check of a binding finishes, overload sets hold functions only. -/
theorem functionsOnly_of_checkBinding {p : Program} {enter : ScopeId → Findings} {b : Binding}
    (h : (p.checkBinding enter b).cause? = none) : b.FunctionsOnly := by
  cases b with
  | decl d => trivial
  | overloaded identity members =>
    rw [checkBinding, Findings.cause?_forEach, List.findSome?_eq_none_iff] at h
    intro m hm
    apply (p.cause?_checkMember enter identity m).resolve_right
    rw [h m hm]
    simp

/-- The check of a binding halts at one of its declarations, or because it is malformed. -/
theorem exists_of_cause?_checkBinding {p : Program} {enter : ScopeId → Findings} {b : Binding}
    {c : Halt} (h : (p.checkBinding enter b).cause? = some c) :
    (∃ d ∈ b.overloads, (p.checkDecl enter d).cause? = some c) ∨ b.Malformed c := by
  cases b with
  | decl d => exact .inl ⟨d, by simp [Binding.overloads], h⟩
  | overloaded identity members =>
    rw [checkBinding, Findings.cause?_forEach] at h
    obtain ⟨m, hm, hc⟩ := List.exists_of_findSome?_eq_some h
    by_cases hfunction : ∃ k, m = .decl (.function k)
    · obtain ⟨k, rfl⟩ := hfunction
      refine .inl ⟨.function k, ?_, hc⟩
      rw [Binding.overloads, Binding.overloadsAll_eq_flatMap]
      exact List.mem_flatMap.mpr ⟨_, hm, by simp [Binding.overloads]⟩
    · have hcause := (p.cause?_checkMember enter identity m).resolve_left hfunction
      exact .inr ⟨m, hm, hfunction, Option.some.inj (hc.symm.trans hcause)⟩

/-- If overload sets hold functions only, the check of a scope is that of its declarations. -/
theorem cause?_checkScope {p : Program} {s : ScopeId}
    (hs : ∀ identity b, p.boundIn identity s = some b → b.FunctionsOnly) (depth : Nat) :
    (p.checkScopeUpTo (depth + 1) s).cause? =
      (p.declared s).findSome? fun d => (p.checkDecl (p.checkScopeUpTo depth) d).cause? := by
  have hvalues : ∀ b ∈ (p.scope s).bindings.values, b.FunctionsOnly := by
    intro b hb
    obtain ⟨identity, hb⟩ := (Scope.mem_bindings_values_iff _ b).mp hb
    exact hs identity b hb
  rw [checkScopeUpTo, Findings.cause?_forEach, declared]
  generalize (p.scope s).bindings.values = bs at hvalues
  induction bs with
  | nil => rfl
  | cons b rest ih =>
    rw [List.forall_mem_cons] at hvalues
    rw [findSome?_cons_or, List.flatMap_cons, List.findSome?_append, ih hvalues.2,
      cause?_checkBinding p _ hvalues.1]

/-- The check of a scope halts at one of its declarations, or because a binding is malformed. -/
theorem exists_of_cause?_checkScope {p : Program} {s : ScopeId} {depth : Nat} {c : Halt}
    (h : (p.checkScopeUpTo (depth + 1) s).cause? = some c) :
    (∃ d ∈ p.declared s, (p.checkDecl (p.checkScopeUpTo depth) d).cause? = some c) ∨
      ∃ identity b, p.boundIn identity s = some b ∧ b.Malformed c := by
  rw [checkScopeUpTo, Findings.cause?_forEach] at h
  obtain ⟨b, hb, hc⟩ := List.exists_of_findSome?_eq_some h
  obtain ⟨d, hd, hc⟩ | hmalformed := exists_of_cause?_checkBinding hc
  · exact .inl ⟨d, List.mem_flatMap.mpr ⟨b, hb, hd⟩, hc⟩
  · obtain ⟨identity, hb⟩ := (Scope.mem_bindings_values_iff _ b).mp hb
    exact .inr ⟨identity, b, hb, hmalformed⟩

/-- If the check of a scope finishes, its overload sets hold functions only. -/
theorem functionsOnly_of_checkScopeUpTo {p : Program} {s : ScopeId} {depth : Nat}
    (h : (p.checkScopeUpTo (depth + 1) s).cause? = none) {identity : String} {b : Binding}
    (hb : p.boundIn identity s = some b) : b.FunctionsOnly := by
  rw [checkScopeUpTo, Findings.cause?_forEach, List.findSome?_eq_none_iff] at h
  exact functionsOnly_of_checkBinding (h b ((Scope.mem_bindings_values_iff _ b).mpr ⟨identity, hb⟩))

/-- The scopes that are entered at the sites of a declaration are those that it leads into. -/
theorem exists_enter_mem_declSites_iff (p : Program) (s : ScopeId) (d : Decl) (t : ScopeId) :
    (∃ o, .enter o t ∈ p.declSites s d) ↔ p.Enters (fun _ => False) d t := by
  constructor
  · rintro ⟨o, ho⟩
    cases d with
    | state h =>
      have ht : t = (p.state h).scope := by simp_all [declSites]
      exact .own (congrArg some ht.symm)
    | function h =>
      simp only [declSites, List.mem_cons, Site.enter.injEq, List.mem_flatMap,
        Option.mem_toList] at ho
      obtain ⟨-, ht⟩ | ⟨b, hb, ho⟩ := ho
      · exact .own (congrArg some ht.symm)
      · exact .block not_false hb ((b.mem_scopes_iff _ true t).mpr ⟨o, ho⟩)
    | _ => simp [declSites] at ho
  · rintro (ht | ⟨-, hb, hc⟩)
    · refine ⟨s, ?_⟩
      cases d <;> simp_all [ownScope?, declSites]
    · rename_i h b
      obtain ⟨o, ho⟩ := (b.mem_scopes_iff (p.function h).scope true t).mp hc
      refine ⟨o, List.mem_cons_of_mem _ (List.mem_flatMap.mpr ⟨b, ?_, ho⟩)⟩
      exact Option.mem_toList.mpr hb

/-- The expressions at the sites of a declaration are those of its initial value or body. -/
theorem mem_ownExprs_iff (p : Program) (s : ScopeId) (d : Decl) (e : Expr) :
    e ∈ p.ownExprs d ↔ ∃ t expected, .eval t expected e ∈ p.declSites s d := by
  cases d with
  | state h =>
    simp only [ownExprs, declSites, List.mem_cons, reduceCtorEq, false_or, List.mem_map,
      Option.mem_toList]
    constructor
    · exact fun he => ⟨_, _, e, he, rfl⟩
    · rintro ⟨t, expected, e₀, he, heq⟩
      obtain ⟨-, -, rfl⟩ := Site.eval.inj heq
      exact he
  | function h =>
    simp only [ownExprs, declSites, List.mem_cons, reduceCtorEq, false_or, List.mem_flatMap,
      Option.mem_toList]
    constructor
    · rintro ⟨b, hb, he⟩
      obtain ⟨t, expected, he⟩ := (b.mem_exprs_iff (p.function h).scope true e).mp he
      exact ⟨t, expected, b, hb, he⟩
    · rintro ⟨t, expected, b, hb, he⟩
      exact ⟨b, hb, (b.mem_exprs_iff (p.function h).scope true e).mpr ⟨t, expected, he⟩⟩
  | _ => simp [declSites]

/-- A variable is declared by a statement at a site of a function exactly when it is declared so in
the body. -/
theorem declare_mem_declSites_iff (p : Program) (s : ScopeId) (d : Decl) (c : ScopeId)
    (v : VarId) : .declare c v ∈ p.declSites s d ↔
      ∃ h, d = .function h ∧ ∃ b, (p.function h).body = some b ∧
        .declare c v ∈ b.sites (p.function h).scope true := by
  cases d <;> simp [declSites]

/-- A name is left in something reachable: in the pattern of a declaration, or at a site in it. -/
def Leftover (p : Program) (c : Halt) : Prop :=
  ∃ s, p.Reachable s ∧ ∃ d ∈ p.declared s,
    (p.declPattern d).leftover? = some c ∨ ∃ x ∈ p.declSites s d, x.leftover? p = some c

/-- An overload set in a reachable scope is malformed. -/
def Misgrouped (p : Program) (c : Halt) : Prop :=
  ∃ s, p.Reachable s ∧ ∃ identity b, p.boundIn identity s = some b ∧ b.Malformed c

section Scopes

variable {p : Program}

/-- If reachable scopes do not lead back to themselves, the check of a scope halts at a name that is
left or at a malformed overload set. -/
theorem exists_of_checkScopeUpTo (rank : ScopeId → Nat)
    (hrank : ∀ s, p.Reachable s → ∀ d ∈ p.declared s, ∀ t, p.Enters (fun _ => False) d t →
      rank t < rank s)
    {depth : Nat} {s : ScopeId} (hdepth : rank s < depth) (hs : p.Reachable s) {c : Halt}
    (h : (p.checkScopeUpTo depth s).cause? = some c) : p.Leftover c ∨ p.Misgrouped c := by
  induction depth generalizing s with
  | zero => omega
  | succ depth ih =>
    obtain ⟨d, hd, hc⟩ | hmalformed := exists_of_cause?_checkScope h
    · rw [cause?_checkDecl p _ s, Option.or_eq_some_iff] at hc
      obtain hpattern | ⟨-, hsite⟩ := hc
      · exact .inl ⟨s, hs, d, hd, .inl hpattern⟩
      · obtain ⟨x, hx, hc⟩ := List.exists_of_findSome?_eq_some hsite
        cases x with
        | enter o t =>
          have hent := (exists_enter_mem_declSites_iff p s d t).mp ⟨o, hx⟩
          have ht := hrank s hs d hd t hent
          exact ih (by omega) (hs.enter hd hent) hc
        | eval t expected e => exact .inl ⟨s, hs, d, hd, .inr ⟨_, hx, hc⟩⟩
        | declare t v => exact .inl ⟨s, hs, d, hd, .inr ⟨_, hx, hc⟩⟩
    · exact .inr ⟨s, hs, hmalformed⟩

/-- If the check of a scope finishes, so does the check of everything in it. -/
theorem checkScopeUpTo_finishes {depth : Nat} {s : ScopeId}
    (h : (p.checkScopeUpTo (depth + 1) s).cause? = none) {d : Decl} (hd : d ∈ p.declared s) :
    (p.declPattern d).leftover? = none ∧
      ∀ x ∈ p.declSites s d, x.cause? p (p.checkScopeUpTo depth) = none := by
  have hmembers : ∀ identity b, p.boundIn identity s = some b → b.FunctionsOnly := by
    intro identity b hb
    exact functionsOnly_of_checkScopeUpTo h hb
  rw [cause?_checkScope hmembers, List.findSome?_eq_none_iff] at h
  have hdecl := h d hd
  rwa [cause?_checkDecl p _ s, Option.or_eq_none_iff, List.findSome?_eq_none_iff] at hdecl

/-- If the check of a program finishes, so does the check of every reachable scope. -/
theorem exists_checkScopeUpTo_finishes (h : p.check.cause? = none) {s : ScopeId}
    (hs : p.Reachable s) : ∃ depth, (p.checkScopeUpTo (depth + 1) s).cause? = none := by
  induction hs with
  | refl => exact ⟨p.propertyCount, h⟩
  | tail _ hstep ih =>
    obtain ⟨d, hd, ht⟩ := hstep
    obtain ⟨depth, hdepth⟩ := ih
    obtain ⟨o, ho⟩ := (exists_enter_mem_declSites_iff p _ d _).mpr ht
    have hent := (checkScopeUpTo_finishes hdepth hd).2 _ ho
    cases depth with
    | zero => exact absurd hent (by simp [Site.cause?, checkScopeUpTo, Findings.cause?])
    | succ depth => exact ⟨depth, hent⟩

/-- If the check of a program finishes, no name is left. -/
theorem not_leftover_of_check (h : p.check.cause? = none) (c : Halt) : ¬ p.Leftover c := by
  rintro ⟨s, hs, d, hd, hc⟩
  obtain ⟨depth, hdepth⟩ := exists_checkScopeUpTo_finishes h hs
  obtain ⟨hpattern, hsites⟩ := checkScopeUpTo_finishes hdepth hd
  obtain hc | ⟨x, hx, hc⟩ := hc
  · simp [hpattern] at hc
  · have hx := hsites x hx
    cases x with
    | enter o t => simp [Site.leftover?] at hc
    | eval t expected e => simp [Site.cause?, hc] at hx
    | declare t v => simp [Site.cause?, hc] at hx

/-- If the check of a program finishes, no overload set is malformed. -/
theorem not_misgrouped_of_check (h : p.check.cause? = none) (c : Halt) : ¬ p.Misgrouped c := by
  rintro ⟨s, hs, identity, b, hb, hmalformed⟩
  obtain ⟨depth, hdepth⟩ := exists_checkScopeUpTo_finishes h hs
  exact hmalformed.not_functionsOnly (functionsOnly_of_checkScopeUpTo hdepth hb)

end Scopes

end Program

end EntityLang
