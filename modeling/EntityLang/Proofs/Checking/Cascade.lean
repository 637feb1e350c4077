import EntityLang.Proofs.Block.Blanked
import EntityLang.Proofs.Checking.AtMost
import EntityLang.Proofs.Program.Cells
import EntityLang.Proofs.Program.Construction

/-!
# Reported errors do not cascade

A part of a program that has been reported is blanked out, so that it is not reported again and
nothing else is reported because of it. Blanking adds no report, as long as the pattern of each
match and of each conditional around the blank may take the place of the pattern that it had. Where
a match loses one of its results and becomes narrower, the loss can be seen from outside.
-/

namespace EntityLang

open Findings (AtMost atMost_require)

/-- The check of an expression without parts reads nothing. -/
theorem Expr.check_eq_of_children_eq_nil (p q : Program) {e : Expr} (he : e.children = []) :
    e.check q = e.check p := by
  cases e with
  | list items span =>
    obtain rfl : items = [] := he
    rfl
  | instances items span =>
    obtain rfl : items = [] := he
    rfl
  | call callee args span =>
    obtain rfl : args = [] := he
    cases callee <;> rfl
  | cond rules otherwise span =>
    obtain ⟨hrules, hotherwise⟩ := List.append_eq_nil_iff.mp he
    have hrules : rules = [] := by
      cases rules with
      | nil => rfl
      | cons r rest => simp at hrules
    obtain rfl : otherwise = none := Option.toList_eq_nil_iff.mp hotherwise
    rw [hrules]
    rfl
  | unary | binary | property | select | index => simp [children] at he
  | _ => rfl

/-- Both programs have the same variables and infer the same patterns. -/
structure Program.InfersAlike (p q : Program) : Prop where
  pattern_eq (e : Expr) : e.pattern q = e.pattern p
  var_eq (h : VarId) : q.var h = p.var h

section Expressions

variable {p q : Program}

/-- A condition with parts blanked out is still a condition. -/
theorem Expr.Blanked.checkCondition_atMost (hpq : p.InfersAlike q) {e e' : Expr}
    (h : e.Blanked p .condition e') : (e'.checkCondition q).AtMost (e.checkCondition p) := by
  rw [checkCondition, checkCondition, hpq.pattern_eq, h.span_eq]
  exact atMost_require h.admits rfl _

/-- A value with parts blanked out still fits. -/
theorem Expr.Blanked.checkFits_atMost (hpq : p.InfersAlike q) {value value' : Expr}
    (h : value.Blanked p .fitted value') {expected expected' : Pattern}
    (he : Use.tested.Admits expected expected') {problem problem' : Problem}
    (hkind : problem'.kind = problem.kind) (span : Span) :
    (value'.checkFits q expected' problem' span).AtMost
      (value.checkFits p expected problem span) := by
  rw [checkFits, checkFits, hpq.pattern_eq]
  exact atMost_require (h.admits.fits he) hkind span

/-- Results of a match with parts blanked out still have a join. -/
theorem Expr.BlankedRules.checkConsistent_atMost (hpq : p.InfersAlike q) {v : Use}
    {rules rules' : List (Rule Expr)} (h : BlankedRules p v .fitted rules rules') (span : Span) :
    (checkConsistent q rules' span).AtMost (checkConsistent p rules span) := by
  have hresults : resultPatterns q rules' = resultPatterns p rules' := by
    rw [resultPatterns_eq_map, resultPatterns_eq_map]
    exact List.map_congr_left fun r _ => hpq.pattern_eq r.result
  rw [checkConsistent, checkConsistent, hresults, h.isEmpty_eq]
  refine atMost_require (fun hjoin => ?_) rfl _
  rw [Bool.or_eq_true] at hjoin ⊢
  refine hjoin.imp id fun hjoin => ?_
  obtain ⟨j, hj⟩ := Option.isSome_iff_exists.mp hjoin
  obtain ⟨j', hj', -⟩ := Use.Admits.unifyAll h.results hj
  rw [hj']
  rfl

mutual

/-- Blanking out parts of an expression adds no report. -/
theorem Expr.Blanked.check_atMost (hpq : p.InfersAlike q) : {u : Use} → {e e' : Expr} →
    e.Blanked p u e' → (e'.check q).AtMost (e.check p)
  | _, _, _, .blank _ _ => Findings.clean_atMost _
  | _, e, _, .leaf _ he => by
    rw [check_eq_of_children_eq_nil p q he]
    exact AtMost.refl _
  | _, _, _, .list h => h.check_atMost hpq
  | _, _, _, .instances h => h.check_atMost hpq
  | _, _, _, .unary h => by
    rw [check, check]
    exact h.check_atMost hpq
  | _, _, _, .binary hl hr => (hl.check_atMost hpq).append (hr.check_atMost hpq)
  | _, .property subject target span, _, .property h => by
    have hsubject := h.check_atMost hpq
    cases target with
    | unresolved name => exact AtMost.refl _
    | state handle => exact hsubject
    | function handle => exact hsubject
  | _, .select subject rules span, .select subject' rules' _, .select hs hr _ => by
    have harms := hr.checkArms_atMost hpq hs.admits rfl
    rw [check, check, hpq.pattern_eq]
    exact ((hs.check_atMost hpq).append harms).append (hr.checkConsistent_atMost hpq span)
  | _, .call callee args span, _, .call h => by
    cases callee with
    | unresolved name => exact AtMost.refl _
    | function handle => exact h.check_atMost hpq
  | _, _, _, .cond hr ho _ => (hr.check_atMost hpq rfl).append (ho.check_atMost hpq)
  | _, _, _, .index hs hp => (hs.check_atMost hpq).append (hp.check_atMost hpq)

/-- Blanking out parts of expressions in a list adds no report. -/
theorem Expr.BlankedAll.check_atMost (hpq : p.InfersAlike q) : {es es' : List Expr} →
    BlankedAll p es es' → (checkAll q es').AtMost (checkAll p es)
  | _, _, .nil => AtMost.refl _
  | _, _, .cons he hrest => (he.check_atMost hpq).append (hrest.check_atMost hpq)

/-- Blanking out parts of the rules of a match adds no report. -/
theorem Expr.BlankedRules.checkArms_atMost (hpq : p.InfersAlike q) {subject subject' : Pattern}
    (hs : Use.tested.Admits subject subject') : {v u : Use} → {rules rules' : List (Rule Expr)} →
    BlankedRules p v u rules rules' → v = .tested →
    (checkArms q subject' rules').AtMost (checkArms p subject rules)
  | _, _, _, _, .nil, _ => AtMost.refl _
  | _, _, _, _, .cons hh hr hrest, hv => by
    refine AtMost.append (AtMost.append ((hh.check_atMost hpq).append (hr.check_atMost hpq)) ?_)
      (hrest.checkArms_atMost hpq hs hv)
    subst hv
    rw [checkReachable, checkReachable, hpq.pattern_eq, hh.span_eq]
    exact atMost_require (hh.admits.overlaps hs) rfl _

/-- Blanking out parts of the rules of a conditional adds no report. -/
theorem Expr.BlankedRules.check_atMost (hpq : p.InfersAlike q) : {v u : Use} →
    {rules rules' : List (Rule Expr)} → BlankedRules p v u rules rules' → v = .condition →
    (checkRules q rules').AtMost (checkRules p rules)
  | _, _, _, _, .nil, _ => AtMost.refl _
  | _, _, _, _, .cons hh hr hrest, hv => by
    have hcondition := (hv ▸ hh).checkCondition_atMost hpq
    exact (((hh.check_atMost hpq).append hcondition).append (hr.check_atMost hpq)).append
      (hrest.check_atMost hpq hv)

/-- Blanking out parts of the last result of a conditional adds no report. -/
theorem Expr.BlankedOption.check_atMost (hpq : p.InfersAlike q) : {o o' : Option Expr} →
    BlankedOption p o o' → (checkOption q o').AtMost (checkOption p o)
  | _, _, .none => AtMost.refl _
  | _, _, .some h => h.check_atMost hpq

end

end Expressions

section Blocks

variable {p q : Program} {enter enter' : ScopeId → Findings}

mutual

/-- Blanking out parts of a block adds no report. -/
theorem Block.Blanked.check_atMost (hpq : p.InfersAlike q)
    (henter : ∀ s, (enter' s).AtMost (enter s)) : {u : Use} → {b b' : Block} →
    Block.Blanked p u b b' → (b'.check q enter').AtMost (b.check p enter)
  | _, ⟨_, scope, _, _⟩, _, .mk h => (henter scope).append (h.check_atMost hpq henter)

/-- Blanking out parts of a statement adds no report. -/
theorem Statement.Blanked.check_atMost (hpq : p.InfersAlike q)
    (henter : ∀ s, (enter' s).AtMost (enter s)) : {u : Use} → {x x' : Statement} →
    Statement.Blanked p u x x' → (x'.check q enter').AtMost (x.check p enter)
  | _, _, _, .expr h => h.check_atMost hpq
  | _, _, _, .block h => by
    rw [Statement.check, Statement.check]
    exact h.check_atMost hpq henter
  | _, _, _, .cond hb ho => (hb.check_atMost hpq henter).append (ho.check_atMost hpq henter)
  | _, _, _, .forEach hr hb => (hr.check_atMost hpq).append (hb.check_atMost hpq henter)
  | _, .assign subject value span, .assign subject' value' _, .assign hs hv => by
    rw [Statement.check, Statement.check, hpq.pattern_eq]
    exact ((hs.check_atMost hpq).append (hv.check_atMost hpq)).append
      (hv.checkFits_atMost hpq hs.admits rfl span)
  | _, _, _, .declare target span => by
    rw [Statement.check, Statement.check, hpq.var_eq]
    exact AtMost.refl _
  | _, .declare target (some value) span, .declare _ (some value') _, .define h => by
    rw [Statement.check, Statement.check, hpq.var_eq]
    exact (AtMost.refl _).append ((h.check_atMost hpq).append
      (h.checkFits_atMost hpq (Use.admits_refl _ _) rfl span))

/-- Blanking out parts of statements in a list adds no report. -/
theorem Statement.BlankedAll.check_atMost (hpq : p.InfersAlike q)
    (henter : ∀ s, (enter' s).AtMost (enter s)) : {u : Use} → {xs xs' : List Statement} →
    Statement.BlankedAll p u xs xs' →
    (Statement.checkAll q enter' xs').AtMost (Statement.checkAll p enter xs)
  | _, _, _, .nil => AtMost.refl _
  | _, _, _, .last h => (h.check_atMost hpq henter).append (AtMost.refl _)
  | _, _, _, .cons h hrest => (h.check_atMost hpq henter).append (hrest.check_atMost hpq henter)

/-- Blanking out parts of branches adds no report. -/
theorem Statement.BlankedBranches.check_atMost (hpq : p.InfersAlike q)
    (henter : ∀ s, (enter' s).AtMost (enter s)) : {branches branches' : List (Branch Block)} →
    Statement.BlankedBranches p branches branches' →
    (Statement.checkBranches q enter' branches').AtMost (Statement.checkBranches p enter branches)
  | _, _, .nil => AtMost.refl _
  | _, _, .cons hc hb hrest =>
    (((hc.check_atMost hpq).append (hc.checkCondition_atMost hpq)).append
      (hb.check_atMost hpq henter)).append (hrest.check_atMost hpq henter)

/-- Blanking out parts of the last block of a conditional adds no report. -/
theorem Statement.BlankedOtherwise.check_atMost (hpq : p.InfersAlike q)
    (henter : ∀ s, (enter' s).AtMost (enter s)) : {otherwise otherwise' : Option Block} →
    Statement.BlankedOtherwise p otherwise otherwise' →
    (Statement.checkOtherwise q enter' otherwise').AtMost
      (Statement.checkOtherwise p enter otherwise)
  | _, _, .none => AtMost.refl _
  | _, _, .some h => h.check_atMost hpq henter

end

end Blocks

namespace Program

/-- The second program is the first one with parts of an initial value or of a body blanked out. -/
inductive Blanked (p : Program) : Program → Prop
  | value {h : StateId} {e e' : Expr} (hvalue : (p.state h).initialValue = some e)
    (he : e.Blanked p .fitted e') : Blanked p (p.setInitialValue h (some e'))
  | body {h : FunctionId} {b b' : Block} (hbody : (p.function h).body = some b)
    (hb : b.Blanked p .fitted b') : Blanked p (p.setBody h b')

section Nodes

variable {p q : Program} (h : p.Blanked q)
include h

/-- Blanking changes no declared pattern, so it changes no pattern that is inferred. -/
theorem Blanked.infersAlike : p.InfersAlike q := by
  cases h with
  | value _ _ => exact ⟨(p.resolvesAlike_setInitialValue _ _).pattern_eq, fun _ => rfl⟩
  | body _ _ => exact ⟨(p.resolvesAlike_setBody _ _).pattern_eq, fun _ => rfl⟩

/-- Blanking changes no scope. -/
theorem Blanked.scope_eq (s : ScopeId) : q.scope s = p.scope s := by
  cases h <;> rfl

/-- Blanking adds and removes no property. -/
theorem Blanked.propertyCount_eq : q.propertyCount = p.propertyCount := by
  cases h <;> simp [propertyCount, setInitialValue, setBody]

/-- A state stays as it is, or parts of its initial value are blanked out. -/
theorem Blanked.state_eq (k : StateId) :
    q.state k = p.state k ∨ ∃ e e', (p.state k).initialValue = some e ∧ e.Blanked p .fitted e' ∧
      q.state k = { p.state k with initialValue := some e' } := by
  cases h with
  | body hbody hb => exact .inl rfl
  | @value h e e' hvalue he =>
    by_cases hk : k = h
    · subst hk
      have hsome : (p.states.get? k).isSome := by
        rw [Table.isSome_get?]
        apply Table.index_lt_size
        intro hblank
        have hnone : (default : StateProperty).initialValue = none := rfl
        rw [state, hblank, hnone] at hvalue
        exact absurd hvalue (by simp)
      refine .inr ⟨e, e', hvalue, he, ?_⟩
      exact (Table.get_modify ..).trans (if_pos ⟨rfl, hsome⟩)
    · exact .inl (Table.get_modify_of_ne hk)

/-- A function stays as it is, or parts of its body are blanked out. -/
theorem Blanked.function_eq (k : FunctionId) :
    q.function k = p.function k ∨ ∃ b b', (p.function k).body = some b ∧ b.Blanked p .fitted b' ∧
      q.function k = { p.function k with body := some b' } := by
  cases h with
  | value hvalue he => exact .inl rfl
  | @body h b b' hbody hb =>
    by_cases hk : k = h
    · subst hk
      have hsome : (p.functions.get? k).isSome := by
        rw [Table.isSome_get?]
        apply Table.index_lt_size
        intro hblank
        have hnone : (default : FunctionProperty).body = none := rfl
        rw [function, hblank, hnone] at hbody
        exact absurd hbody (by simp)
      refine .inr ⟨b, b', hbody, hb, ?_⟩
      exact (Table.get_modify ..).trans (if_pos ⟨rfl, hsome⟩)
    · exact .inl (Table.get_modify_of_ne hk)

/-- The result of a body with parts blanked out still fits. -/
theorem Blanked.checkResult_atMost {node node' : FunctionProperty}
    (hnode : node'.pattern = node.pattern) {b b' : Block} (hb : b.Blanked p .fitted b') :
    (q.checkResult node' b').AtMost (p.checkResult node b) := by
  obtain ⟨hr, hr'⟩ | ⟨r, r', hr, hr', hblank⟩ := hb.result?
  · simp only [checkResult, hr, hr']
    exact AtMost.refl _
  · simp only [checkResult, hr, hr', hnode, hblank.span_eq]
    refine hblank.checkFits_atMost h.infersAlike (Use.admits_refl _ _) ?_ _
    rfl

variable {enter enter' : ScopeId → Findings} (henter : ∀ s, (enter' s).AtMost (enter s))
include henter

/-- The check of a state finds at most what it found before, if entering a scope does. -/
theorem Blanked.checkState_atMost (k : StateId) :
    (q.checkState enter' k).AtMost (p.checkState enter k) := by
  have hvalue {e e' : Expr} (he : e.Blanked p .fitted e') (node : StateProperty) :
      (e'.check q ++ e'.checkFits q node.pattern (.stateValue node.identity) e'.span).AtMost
        (e.check p ++ e.checkFits p node.pattern (.stateValue node.identity) e.span) := by
    rw [he.span_eq]
    exact (he.check_atMost h.infersAlike).append
      (he.checkFits_atMost h.infersAlike (Use.admits_refl _ _) rfl _)
  obtain hk | ⟨e, e', he, hblank, hk⟩ := h.state_eq k
  · rw [checkState, checkState, hk]
    refine ((AtMost.refl _).append (henter _)).append ?_
    cases (p.state k).initialValue with
    | none => exact AtMost.refl _
    | some e => exact hvalue (Expr.Blanked.refl p _ e) _
  · rw [checkState, checkState, hk, he]
    exact ((AtMost.refl _).append (henter _)).append (hvalue hblank _)

/-- The check of a function finds at most what it found before, if entering a scope does. -/
theorem Blanked.checkFunction_atMost (k : FunctionId) :
    (q.checkFunction enter' k).AtMost (p.checkFunction enter k) := by
  have hbody {b b' : Block} (hb : b.Blanked p .fitted b') {node node' : FunctionProperty}
      (hnode : node'.pattern = node.pattern) :
      (b'.check q enter' ++ q.checkResult node' b').AtMost
        (b.check p enter ++ p.checkResult node b) :=
    (hb.check_atMost h.infersAlike henter).append (h.checkResult_atMost hnode hb)
  obtain hk | ⟨b, b', hb, hblank, hk⟩ := h.function_eq k
  · rw [checkFunction, checkFunction, hk]
    refine ((AtMost.refl _).append (henter _)).append ?_
    cases (p.function k).body with
    | none => exact AtMost.refl _
    | some b => exact hbody (Block.Blanked.refl p _ b) rfl
  · rw [checkFunction, checkFunction, hk, hb]
    exact ((AtMost.refl _).append (henter _)).append (hbody hblank rfl)

/-- The check of what a name stands for finds at most what it found before, if entering a scope
does. -/
theorem Blanked.checkBinding_atMost (b : Binding) :
    (q.checkBinding enter' b).AtMost (p.checkBinding enter b) := by
  cases b with
  | decl d =>
    cases d with
    | var k =>
      rw [checkBinding, checkBinding, checkDecl, checkDecl, h.infersAlike.var_eq]
      exact AtMost.refl _
    | state k => exact h.checkState_atMost henter k
    | function k => exact h.checkFunction_atMost henter k
    | _ => exact AtMost.refl _
  | overloaded identity members =>
    apply Findings.atMost_forEach
    intro m _
    unfold checkMember
    split
    · exact h.checkFunction_atMost henter _
    · exact AtMost.refl _

omit henter in
/-- The check of a scope finds at most what it found before, however deep it goes. -/
theorem Blanked.checkScopeUpTo_atMost (depth : Nat) (s : ScopeId) :
    (q.checkScopeUpTo depth s).AtMost (p.checkScopeUpTo depth s) := by
  induction depth generalizing s with
  | zero => exact AtMost.refl _
  | succ depth ih =>
    rw [checkScopeUpTo, checkScopeUpTo, h.scope_eq]
    exact Findings.atMost_forEach fun b _ => h.checkBinding_atMost ih b

end Nodes

/-- Blanking out parts of a program adds no report: the check finishes as before, and the kinds and
places of its reports are some of those before, in the same order. -/
theorem check_blanked {p q : Program} (h : p.Blanked q) {ds : List Diagnostic}
    (hcheck : p.check = .found ds) :
    ∃ ds', q.check = .found ds' ∧
      (ds'.map Diagnostic.gist).Sublist (ds.map Diagnostic.gist) := by
  have hatMost := h.checkScopeUpTo_atMost (p.propertyCount + 1) globalScope
  rw [check, h.propertyCount_eq]
  exact hatMost ds hcheck

/-- A match with two results. -/
def matched (first second : Expr) (place : Span) : Expr :=
  let int (i : Int64) : Expr := .literal (.int i) .dummy
  .select (int 0) [⟨int 1, first, .dummy⟩, ⟨int 2, second, .dummy⟩] place

/-- A state whose initial value is a match with results that have no common pattern. -/
def clashing : Program :=
  .build [.declareState globalScope "a" .int []
    (some (matched (.literal (.string "one") .dummy) (.literal (.int 7) .dummy) ⟨1, 9, 1, 2⟩))]

/-- The clash of two results is reported, and with one of them blanked out nothing else is. -/
theorem check_blanked_clashing :
    let q := clashing.setInitialValue ⟨0⟩
      (some (matched (.literal (.string "one") .dummy) (.invalid .dummy) ⟨1, 9, 1, 2⟩))
    clashing.check = .found [Problem.inconsistent.reportAt ⟨1, 9, 1, 2⟩] ∧ clashing.Blanked q ∧
      ∃ ds', q.check = .found ds' ∧ (ds'.map Diagnostic.gist).Sublist
        [Diagnostic.gist (Problem.inconsistent.reportAt ⟨1, 9, 1, 2⟩)] := by
  have hcheck : clashing.check = .found [Problem.inconsistent.reportAt ⟨1, 9, 1, 2⟩] := by
    decide +kernel
  have hblanked : clashing.Blanked (clashing.setInitialValue ⟨0⟩
      (some (matched (.literal (.string "one") .dummy) (.invalid .dummy) ⟨1, 9, 1, 2⟩))) := by
    refine .value rfl (.select (.refl _ _ _) ?_ (by decide +kernel))
    exact .cons (.refl _ _ _) (.refl _ _ _) (.cons (.refl _ _ _) (.blank _ _) .nil)
  exact ⟨hcheck, hblanked, check_blanked hblanked hcheck⟩

/-- A conditional whose condition is a match; the match is optional as long as `first` is. -/
def guarded (first : Expr) : Program :=
  let int (i : Int64) : Expr := .literal (.int i) .dummy
  .build [.var globalScope ⟨"o", .optional .int, .dummy⟩,
    .declareState globalScope "a" .int []
      (some (.cond [⟨matched first (int 7) ⟨3, 9, 1, 4⟩, int 1, .dummy⟩] (some (int 2)) .dummy))]

/-- A match that loses its only optional result is no condition any more, and that is reported. -/
theorem check_blank_cascades :
    (guarded (.var ⟨0⟩ ⟨5, 6, 1, 6⟩)).check = .clean ∧
      (guarded (.invalid ⟨5, 6, 1, 6⟩)).check =
        .found [Problem.condition.reportAt ⟨3, 9, 1, 4⟩] := by
  decide +kernel

end Program

end EntityLang
