import EntityLang.Analysis
import EntityLang.Proofs.Checking.AtMost
import EntityLang.Proofs.Expr.Parts
import EntityLang.Proofs.Pattern.Join
import EntityLang.Proofs.Program.Construction

/-!
# What a clean analysis says about results

The value of a state, or of a function with a single result, is one of the leaves of an expression:
matches and conditionals select among their results, and anything else is a leaf. If the analysis of
a program finds nothing, then every leaf fits the declared pattern, unless it is lost on the way up.

The pattern of a match or a conditional is inferred from left to right, and forgets all results
before the last one that has an invalid pattern. If the results that count have no common pattern,
the whole has an invalid pattern, which fits everywhere. For a match this is reported, for a
conditional it is not. Leaves that are forgotten in one of these two ways are lost.
-/

namespace EntityLang

namespace Expr

/-- The results that a match or a conditional selects from. -/
def branches? : Expr → Option (List Expr)
  | .select _ rules _ => some (rules.map Rule.result)
  | .cond rules otherwise _ => some (rules.map Rule.result ++ otherwise.toList)
  | _ => none

mutual

/-- The expressions whose values an expression can have: the leaves of the results of a match or a
conditional, and otherwise the expression itself. -/
def leaves : Expr → List Expr
  | .select _ rules _ => leavesRules rules
  | .cond rules otherwise _ => leavesRules rules ++ leavesOption otherwise
  | e => [e]

/-- The leaves of the results of rules. -/
def leavesRules : List (Rule Expr) → List Expr
  | [] => []
  | ⟨_, result, _⟩ :: rest => result.leaves ++ leavesRules rest

/-- The leaves of an expression that may be absent. -/
def leavesOption : Option Expr → List Expr
  | none => []
  | some e => e.leaves

end

/-- The leaves of rules are those of each result in turn. -/
theorem leavesRules_eq_flatMap (rules : List (Rule Expr)) :
    leavesRules rules = (rules.map Rule.result).flatMap leaves := by
  induction rules with
  | nil => rfl
  | cons r rest ih => simp [leavesRules, ih]

/-- What selects nothing is its own leaf. -/
theorem leaves_of_branches?_eq_none {e : Expr} (h : e.branches? = none) : e.leaves = [e] := by
  cases e <;> simp_all [branches?, leaves]

/-- The leaves of a match or a conditional are those of its results. -/
theorem leaves_of_branches?_eq_some {e : Expr} {rs : List Expr} (h : e.branches? = some rs) :
    e.leaves = rs.flatMap leaves := by
  cases e with
  | select subject rules span =>
    obtain rfl := Option.some.inj h
    exact leavesRules_eq_flatMap rules
  | cond rules otherwise span =>
    obtain rfl := Option.some.inj h
    cases otherwise <;> simp [leaves, leavesOption, leavesRules_eq_flatMap]
  | _ => simp [branches?] at h

/-- The results of a match or a conditional are among its children. -/
theorem mem_children_of_branches? {e r : Expr} {rs : List Expr} (h : e.branches? = some rs)
    (hr : r ∈ rs) : r ∈ e.children := by
  cases e with
  | select subject rules span =>
    obtain rfl := Option.some.inj h
    obtain ⟨rule, hrule, rfl⟩ := List.mem_map.mp hr
    exact List.mem_cons_of_mem _ (result_mem_rules hrule)
  | cond rules otherwise span =>
    obtain rfl := Option.some.inj h
    obtain hr | hr := List.mem_append.mp hr
    · obtain ⟨rule, hrule, rfl⟩ := List.mem_map.mp hr
      exact List.mem_append_left _ (result_mem_rules hrule)
    · exact List.mem_append_right _ hr
  | _ => simp [branches?] at h

/-- The common pattern of the results of a match or a conditional fits the pattern of the whole. -/
theorem common_fits_pattern {p : Program} {e : Expr} {rs : List Expr} (h : e.branches? = some rs)
    {c : Pattern} (hc : Pattern.unifyAll (rs.map (pattern p)) = some c) :
    (e.pattern p).isInvalid = c.isInvalid ∧ c.fits (e.pattern p) = true := by
  cases e with
  | select subject rules span =>
    obtain rfl := Option.some.inj h
    rw [List.map_map] at hc
    simp only [pattern, resultPatterns_eq_map]
    rw [show Pattern.unifyAll (rules.map fun r => r.result.pattern p) = some c from hc]
    exact ⟨rfl, Pattern.fits_refl c⟩
  | cond rules otherwise span =>
    obtain rfl := Option.some.inj h
    cases otherwise with
    | none =>
      rw [Option.toList_none, List.append_nil, List.map_map] at hc
      simp only [pattern, resultPatterns_eq_map]
      rw [show Pattern.unifyAll (rules.map fun r => r.result.pattern p) = some c from hc]
      exact ⟨Pattern.isInvalid_toOptional c, Pattern.fits_toOptional c⟩
    | some x =>
      rw [Option.toList_some, List.map_append, List.map_map] at hc
      simp only [pattern, resultPatterns_eq_map]
      rw [show Pattern.unifyAll ((rules.map fun r => r.result.pattern p) ++ [x.pattern p]) = some c
        from hc]
      exact ⟨rfl, Pattern.fits_refl c⟩
  | _ => simp [branches?] at h

/-- The inferred pattern of the expression says nothing about the leaf. -/
inductive Loses (p : Program) : Expr → Expr → Prop
  /-- The results of a conditional have no common pattern. -/
  | apart {rules : List (Rule Expr)} {otherwise : Option Expr} {span : Span} {l : Expr}
    (hl : l ∈ (Expr.cond rules otherwise span).leaves)
    (hapart : Pattern.unifyAll ((rules.map Rule.result ++ otherwise.toList).map (pattern p)) =
      none) : Loses p (.cond rules otherwise span) l
  /-- A result that comes after the one that the leaf belongs to has an invalid pattern. -/
  | passed {e l r x : Expr} {before after : List Expr}
    (h : e.branches? = some (before ++ r :: after)) (hl : l ∈ r.leaves) (hx : x ∈ after)
    (hinvalid : (x.pattern p).isInvalid = true) : Loses p e l
  /-- A result loses the leaf. -/
  | inside {e l r : Expr} {rs : List Expr} (h : e.branches? = some rs) (hr : r ∈ rs)
    (hl : Loses p r l) : Loses p e l

end Expr

namespace Pattern

/-- A pattern fits the one that unifies a list, if neither it nor a later one is invalid. -/
theorem fits_of_unifyAll_append {before after : List Pattern} {x c : Pattern}
    (hlater : ∀ y ∈ x :: after, y.isInvalid = false)
    (h : unifyAll (before ++ x :: after) = some c) : c.isInvalid = false ∧ x.fits c = true := by
  have hlast := lastRun_append_of_valid before hlater
  obtain ⟨hempty, -⟩ | ⟨hbounds, -⟩ := isJoin_of_unifyAll h
  · simp [hlast] at hempty
  · rw [hlast] at hbounds
    exact ⟨hbounds.1, hbounds.2 x (by simp)⟩

end Pattern

/-- A requirement that was checked without a report is met. -/
theorem Findings.of_require_eq_clean {condition : Bool} {problem : Problem} {span : Span}
    (h : require condition problem span = clean) : condition = true := by
  cases condition with
  | true => rfl
  | false => simp [require, report, clean] at h

open Findings (AtMost atMost_append_left atMost_append_right)

namespace Expr

/-- The check of a result of a match or a conditional finds at most what the check of the whole
finds. -/
theorem result_atMost_check (p : Program) {e r : Expr} {rs : List Expr}
    (h : e.branches? = some rs) (hr : r ∈ rs) : (r.check p).AtMost (e.check p) := by
  cases e with
  | select subject rules span =>
    obtain rfl := Option.some.inj h
    obtain ⟨rule, hrule, rfl⟩ := List.mem_map.mp hr
    have harms : (rule.result.check p).AtMost (checkArms p (subject.pattern p) rules) := by
      rw [checkArms_eq_forEach]
      refine AtMost.trans ?_ (Findings.member_atMost_forEach _ hrule)
      exact (atMost_append_right _ _).trans (atMost_append_left _ _)
    exact (harms.trans (atMost_append_right _ _)).trans (atMost_append_left _ _)
  | cond rules otherwise span =>
    obtain rfl := Option.some.inj h
    obtain hr | hr := List.mem_append.mp hr
    · obtain ⟨rule, hrule, rfl⟩ := List.mem_map.mp hr
      have hrules : (rule.result.check p).AtMost (checkRules p rules) := by
        rw [checkRules_eq_forEach]
        exact (atMost_append_right _ _).trans (Findings.member_atMost_forEach _ hrule)
      exact hrules.trans (atMost_append_left _ _)
    · obtain rfl := Option.mem_toList.mp hr
      exact atMost_append_right _ _
  | _ => simp [branches?] at h

/-- If the check of a match or a conditional is clean and its results have no common pattern, it
loses all of its leaves: only the results of a match are required to have a common pattern. -/
theorem loses_of_unifyAll_eq_none {p : Program} {e l : Expr} {rs : List Expr}
    (hclean : e.check p = .clean) (h : e.branches? = some rs) (hl : l ∈ e.leaves)
    (hnone : Pattern.unifyAll (rs.map (pattern p)) = none) : e.Loses p l := by
  cases e with
  | select subject rules span =>
    obtain rfl := Option.some.inj h
    have hconsistent : checkConsistent p rules span = .clean :=
      (atMost_append_right _ _).eq_clean hclean
    have hjoin := Findings.of_require_eq_clean hconsistent
    rw [List.map_map] at hnone
    rw [resultPatterns_eq_map, show Pattern.unifyAll (rules.map fun r => r.result.pattern p) = none
      from hnone, Option.isSome_none, Bool.or_false, List.isEmpty_iff] at hjoin
    subst hjoin
    simp [leaves, leavesRules] at hl
  | cond rules otherwise span =>
    obtain rfl := Option.some.inj h
    exact .apart hl hnone
  | _ => simp [branches?] at h

/-- If the check of an expression is clean, then each of its leaves fits the inferred pattern, unless
the leaf is lost or has an invalid pattern itself. -/
theorem leaf_fits_or_loses {p : Program} {e l : Expr} (hclean : e.check p = .clean)
    (hl : l ∈ e.leaves) :
    e.Loses p l ∨ (l.pattern p).isInvalid = true ∨
      (e.pattern p).isInvalid = false ∧ (l.pattern p).fits (e.pattern p) = true := by
  induction e using induction_children with
  | node e ih =>
    cases hbranches : e.branches? with
    | none =>
      rw [leaves_of_branches?_eq_none hbranches, List.mem_singleton] at hl
      subst hl
      cases hinvalid : (l.pattern p).isInvalid with
      | true => exact .inr (.inl rfl)
      | false => exact .inr (.inr ⟨rfl, Pattern.fits_refl _⟩)
    | some rs =>
      have hleaves := hl
      rw [leaves_of_branches?_eq_some hbranches, List.mem_flatMap] at hleaves
      obtain ⟨r, hr, hlr⟩ := hleaves
      have hresult := (result_atMost_check p hbranches hr).eq_clean hclean
      obtain hloses | hinvalid | ⟨hvalid, hfits⟩ :=
        ih r (mem_children_of_branches? hbranches hr) hresult hlr
      · exact .inl (.inside hbranches hr hloses)
      · exact .inr (.inl hinvalid)
      obtain ⟨before, after, rfl⟩ := List.append_of_mem hr
      by_cases hlater : ∃ x ∈ after, (x.pattern p).isInvalid = true
      · obtain ⟨x, hx, hinvalid⟩ := hlater
        exact .inl (.passed hbranches hlr hx hinvalid)
      simp only [not_exists, not_and, Bool.not_eq_true] at hlater
      cases hcommon : Pattern.unifyAll ((before ++ r :: after).map (pattern p)) with
      | none => exact .inl (loses_of_unifyAll_eq_none hclean hbranches hl hcommon)
      | some c =>
        obtain ⟨hsame, hce⟩ := common_fits_pattern hbranches hcommon
        rw [List.map_append, List.map_cons] at hcommon
        have hrun : ∀ y ∈ r.pattern p :: after.map (pattern p), y.isInvalid = false := by
          rw [List.forall_mem_cons, List.forall_mem_map]
          exact ⟨hvalid, hlater⟩
        obtain ⟨hc, hrc⟩ := Pattern.fits_of_unifyAll_append hrun hcommon
        exact .inr (.inr ⟨hsame.trans hc,
          Pattern.fits_trans hvalid hfits (Pattern.fits_trans hc hrc hce)⟩)

/-- If the check of an expression is clean and the expression fits a pattern, each of its leaves
fits it or is lost. -/
theorem leaf_fits_of_fits {p : Program} {e l : Expr} {x : Pattern} (hclean : e.check p = .clean)
    (h : (e.pattern p).fits x = true) (hl : l ∈ e.leaves) :
    (l.pattern p).fits x = true ∨ e.Loses p l := by
  obtain hloses | hinvalid | ⟨hvalid, hfits⟩ := leaf_fits_or_loses hclean hl
  · exact .inr hloses
  · exact .inl (Pattern.fits_of_isInvalid_left hinvalid x)
  · exact .inl (Pattern.fits_trans hvalid hfits h)

end Expr

namespace Program

variable {p : Program}

/-- If the check of a state is clean, so is that of its initial value, which fits. -/
theorem value_fits_of_checkDecl {enter : ScopeId → Findings} {h : StateId} {v : Expr}
    (hclean : p.checkDecl enter (.state h) = .clean) (hv : (p.state h).initialValue = some v) :
    v.check p = .clean ∧ (v.pattern p).fits (p.state h).pattern = true := by
  have hvalue : (v.check p ++ v.checkFits p (p.state h).pattern
      (.stateValue (p.state h).identity) v.span).AtMost (p.checkDecl enter (.state h)) := by
    simp only [checkDecl, checkState, hv]
    exact atMost_append_right _ _
  exact ⟨((atMost_append_left _ _).trans hvalue).eq_clean hclean,
    Findings.of_require_eq_clean (((atMost_append_right _ _).trans hvalue).eq_clean hclean)⟩

/-- If the check of a function is clean, so is that of the result of its body, which fits. -/
theorem result_fits_of_checkDecl {enter : ScopeId → Findings} {h : FunctionId} {b : Block}
    {v : Expr} (hclean : p.checkDecl enter (.function h) = .clean)
    (hb : (p.function h).body = some b) (hv : b.result? = some v) :
    v.check p = .clean ∧ (v.pattern p).fits (p.function h).pattern = true := by
  have hbody : (b.check p enter ++ p.checkResult (p.function h) b).AtMost
      (p.checkDecl enter (.function h)) := by
    simp only [checkDecl, checkFunction, hb]
    exact atMost_append_right _ _
  have hfits := ((atMost_append_right _ _).trans hbody).eq_clean hclean
  rw [checkResult, hv] at hfits
  exact ⟨((Block.result_atMost_check p enter hv).trans
    ((atMost_append_left _ _).trans hbody)).eq_clean hclean, Findings.of_require_eq_clean hfits⟩

end Program

/-- If the analysis of a program finds nothing, every leaf of the initial value of a reachable state
and of the result of a reachable function fits the declared pattern, or it is lost. -/
theorem analyze_clean_leaves {p : Program} {a : Analysis} (ha : p.analyze = some a)
    (hclean : a.findings = .found []) {s : ScopeId} (hs : a.program.Reachable s) :
    (∀ h v, .state h ∈ a.program.declared s → (a.program.state h).initialValue = some v →
      ∀ l ∈ v.leaves, (l.pattern a.program).fits (a.program.state h).pattern = true ∨
        v.Loses a.program l) ∧
    ∀ h b v, .function h ∈ a.program.declared s → (a.program.function h).body = some b →
      b.result? = some v →
      ∀ l ∈ v.leaves, (l.pattern a.program).fits (a.program.function h).pattern = true ∨
        v.Loses a.program l := by
  have hcheck : a.program.check = .clean := by
    cases hresolve : Walk.resolve p with
    | none => simp [Program.analyze, hresolve] at ha
    | some o =>
      rw [Program.analyze, hresolve, Option.some.injEq] at ha
      subst ha
      exact (Findings.atMost_append_right _ _).eq_clean hclean
  have hdecl (d : Decl) (hd : d ∈ a.program.declared s) :
      ∃ depth, a.program.checkDecl (a.program.checkScopeUpTo depth) d = .clean := by
    obtain ⟨depth, hdepth⟩ := a.program.checkDecl_atMost_check hs hcheck hd
    exact ⟨depth, hdepth.eq_clean hcheck⟩
  constructor
  · intro h v hd hv l hl
    obtain ⟨depth, hdepth⟩ := hdecl _ hd
    obtain ⟨hvalue, hfits⟩ := Program.value_fits_of_checkDecl hdepth hv
    exact Expr.leaf_fits_of_fits hvalue hfits hl
  · intro h b v hd hb hv l hl
    obtain ⟨depth, hdepth⟩ := hdecl _ hd
    obtain ⟨hresult, hfits⟩ := Program.result_fits_of_checkDecl hdepth hb hv
    exact Expr.leaf_fits_of_fits hresult hfits hl

/-- An optional integer that a conditional with a match inside it gives. -/
def graded : Program :=
  let literal (value : Literal) : Expr := .literal value .dummy
  let rule (head result : Literal) : Rule Expr := ⟨literal head, literal result, .dummy⟩
  let inner : Expr :=
    .select (literal (.int 0)) [rule (.int 0) (.int 1), rule (.int 1) .none] .dummy
  .build [.declareState Program.globalScope "a" (.optional (.unresolved ⟨"int", .dummy⟩)) []
    (some (.cond [⟨literal (.bool true), inner, .dummy⟩] (some (literal (.int 2))) .dummy))]

/-- All three leaves of a conditional with a match inside it fit, or are lost. -/
theorem analyze_clean_leaves_graded :
    ∃ a, graded.analyze = some a ∧ a.findings = .found [] ∧
      a.program.Reachable Program.globalScope ∧
      .state ⟨0⟩ ∈ a.program.declared Program.globalScope ∧
      ∃ v, (a.program.state ⟨0⟩).initialValue = some v ∧ v.leaves.length = 3 ∧
        ∀ l ∈ v.leaves, (l.pattern a.program).fits (a.program.state ⟨0⟩).pattern = true ∨
          v.Loses a.program l := by
  have hrun : graded.analyze.any (fun a => a.findings = .found [] ∧
      .state ⟨0⟩ ∈ a.program.declared Program.globalScope ∧
      (a.program.state ⟨0⟩).initialValue.map (fun v => v.leaves.length) = some 3) = true := by
    decide +kernel
  obtain ⟨a, ha, hrun⟩ := (Option.any_eq_true _ _).mp hrun
  obtain ⟨hclean, hbound, hvalue⟩ := of_decide_eq_true hrun
  obtain ⟨v, hv, hcount⟩ := Option.map_eq_some_iff.mp hvalue
  have hglobal := a.program.reachable_globalScope
  exact ⟨a, ha, hclean, hglobal, hbound, v, hv, hcount,
    (analyze_clean_leaves ha hclean hglobal).1 ⟨0⟩ v hbound hv⟩

/-- A truth value that a match gives, whose results are an integer, a list and a truth value. -/
def mixed : Program :=
  let literal (value : Literal) : Expr := .literal value .dummy
  .build [.declareState Program.globalScope "a" .bool []
    (some (.select (literal (.int 0)) [⟨literal (.int 1), literal (.int 1), .dummy⟩,
      ⟨literal (.int 2), .list [] .dummy, .dummy⟩,
      ⟨literal (.int 3), literal (.bool true), .dummy⟩] .dummy))]

/-- The analysis finds nothing, but the first result does not fit. -/
theorem analyze_clean_misfit_mixed :
    ∃ a, mixed.analyze = some a ∧ a.findings = .found [] ∧
      .state ⟨0⟩ ∈ a.program.declared Program.globalScope ∧
      ∃ v, (a.program.state ⟨0⟩).initialValue = some v ∧
        ∃ l ∈ v.leaves, (l.pattern a.program).fits (a.program.state ⟨0⟩).pattern = false := by
  have hrun : mixed.analyze.any (fun a => a.findings = .found [] ∧
      .state ⟨0⟩ ∈ a.program.declared Program.globalScope ∧
      (a.program.state ⟨0⟩).initialValue.any (fun v => v.leaves.any fun l =>
        (l.pattern a.program).fits (a.program.state ⟨0⟩).pattern = false) = true) = true := by
    decide +kernel
  obtain ⟨a, ha, hrun⟩ := (Option.any_eq_true _ _).mp hrun
  obtain ⟨hclean, hbound, hvalue⟩ := of_decide_eq_true hrun
  obtain ⟨v, hv, hleaf⟩ := (Option.any_eq_true _ _).mp hvalue
  obtain ⟨l, hl, hfits⟩ := List.any_eq_true.mp hleaf
  exact ⟨a, ha, hclean, hbound, v, hv, l, hl, of_decide_eq_true hfits⟩

end EntityLang
