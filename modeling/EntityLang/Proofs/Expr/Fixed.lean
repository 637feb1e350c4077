import EntityLang.Proofs.Expr.Reports
import EntityLang.Proofs.Expr.Resolved

/-!
# Resolving twice

An expression is fixed in a scope under a hint if resolving gives it back. What resolving gives is
fixed under the same hint. Most hints go down the tree unchanged; the others are inferred from
children that are fixed already, so a second run finds the same hints.

Arguments of a call are the exception: they are read under the patterns of the parameters, but
resolved again without a hint. They stay fixed because reading under a hint changes literals only,
and no hint depends on those literals.
-/

namespace EntityLang

/-- A function gives a list back exactly when it gives each member back. -/
private theorem map_eq_self_iff {α : Type} (f : α → α) (as : List α) :
    as.map f = as ↔ ∀ a ∈ as, f a = a := by
  induction as with
  | nil => simp
  | cons a rest ih => simp [ih]

/-- New parts give a rule back exactly when they are the parts it has. -/
private theorem rule_eq_iff (head result : Expr) (r : Rule Expr) :
    (⟨head, result, r.span⟩ : Rule Expr) = r ↔ head = r.head ∧ result = r.result := by
  cases r
  simp

/-- A literal read under a hint reads the same under it again. -/
@[simp] theorem Literal.coerce_coerce (hint : Option Pattern) (value : Literal) :
    (value.coerce hint).coerce hint = value.coerce hint := by
  cases value with
  | int i =>
    by_cases h : Pattern.isNumberHint hint
    · simp [coerce, h]
    · simp [coerce, h]
  | _ => rfl

/-- Without a hint a literal stays as it is. -/
@[simp] theorem Literal.coerce_none (value : Literal) :
    value.coerce Option.none = value := by
  cases value <;> rfl

namespace Expr

/-- Resolving gives the expression back. -/
def Fixed (p : Program) (s : ScopeId) (hint : Option Pattern) (e : Expr) : Prop :=
  (e.resolve p s hint).value = e

variable {p : Program} {s : ScopeId} {hint : Option Pattern}

/-- A fixed expression is resolved. -/
theorem Fixed.isResolved {e : Expr} (h : e.Fixed p s hint) : e.IsResolved := by
  have hresolved := resolve_isResolved p s hint e
  rwa [h] at hresolved

/-- Resolving a fixed expression gives it back and reports nothing. -/
theorem Fixed.resolve_eq {e : Expr} (h : e.Fixed p s hint) : e.resolve p s hint = ⟨e, []⟩ :=
  Reported.ext h (h.isResolved.reports_resolve p s hint)

section Nodes

/-- A list is fixed if its items are, without a hint. -/
theorem fixed_list_iff (items : List Expr) (span : Span) :
    (list items span).Fixed p s hint ↔ ∀ x ∈ items, x.Fixed p s none := by
  simp [Fixed, resolve, resolveAll_value, map_eq_self_iff]

/-- A list of instances is fixed if its items are, without a hint. -/
theorem fixed_instances_iff (items : List Expr) (span : Span) :
    (instances items span).Fixed p s hint ↔ ∀ x ∈ items, x.Fixed p s none := by
  simp [Fixed, resolve, resolveAll_value, map_eq_self_iff]

/-- An operation is fixed if its operand is, under the hint that the operator passes on. -/
theorem fixed_unary_iff (op : UnaryOp) (operand : Expr) (span : Span) :
    (unary op operand span).Fixed p s hint ↔ operand.Fixed p s (op.operandHint hint) := by
  simp [Fixed, resolve]

/-- A property that has a handle is fixed if its subject is. -/
theorem fixed_property_iff (subject : Expr) (target : PropertyRef) (span : Span)
    (htarget : ∀ name, target ≠ .unresolved name) :
    (property subject target span).Fixed p s hint ↔ subject.Fixed p s none := by
  cases target with
  | unresolved name => exact absurd rfl (htarget name)
  | state h => simp [Fixed, resolve]
  | function h => simp [Fixed, resolve]

/-- A call that has a handle is fixed if its arguments are. -/
theorem fixed_call_iff (f : FunctionId) (args : List Expr) (span : Span) :
    (call (.function f) args span).Fixed p s hint ↔ ∀ x ∈ args, x.Fixed p s none := by
  simp [Fixed, resolve, resolveAll_value, map_eq_self_iff]

/-- The hint for the right operand is the one that the fixed left operand gives. -/
theorem fixed_binary_iff (op : BinaryOp) (lhs rhs : Expr) (span : Span) :
    (binary op lhs rhs span).Fixed p s hint ↔
      lhs.Fixed p s (op.leftHint hint) ∧ rhs.Fixed p s (op.rightHint hint (lhs.pattern p)) := by
  simp only [Fixed, resolve, Reported.value_bind, Reported.value_pure, binary.injEq, true_and,
    and_true]
  exact and_congr_right fun h => by rw [h]

/-- Heads are read under the pattern of the fixed subject. -/
theorem fixed_select_iff (subject : Expr) (rules : List (Rule Expr)) (span : Span) :
    (select subject rules span).Fixed p s hint ↔ subject.Fixed p s none ∧
      ∀ r ∈ rules, r.head.Fixed p s (some (subject.pattern p)) ∧ r.result.Fixed p s hint := by
  simp only [Fixed, resolve, Reported.value_bind, Reported.value_pure, resolveRules_value,
    select.injEq, and_true, map_eq_self_iff, rule_eq_iff]
  exact and_congr_right fun h => by rw [h]

/-- A conditional is fixed if its conditions are under `bool` and its results under the hint. -/
theorem fixed_cond_iff (rules : List (Rule Expr)) (otherwise : Option Expr) (span : Span) :
    (cond rules otherwise span).Fixed p s hint ↔
      (∀ r ∈ rules, r.head.Fixed p s (some .bool) ∧ r.result.Fixed p s hint) ∧
        ∀ x ∈ otherwise, x.Fixed p s hint := by
  simp only [Fixed, resolve, Reported.value_bind, Reported.value_pure, resolveRules_value,
    resolveOption_value, cond.injEq, and_true, map_eq_self_iff, rule_eq_iff]
  exact and_congr_right fun _ => by cases otherwise <;> simp [eq_comm]

/-- An access by index is fixed if its subject is, and its position under `int`. -/
theorem fixed_index_iff (subject position : Expr) (span : Span) :
    (index subject position span).Fixed p s hint ↔
      subject.Fixed p s none ∧ position.Fixed p s (some .int) := by
  simp [Fixed, resolve]

end Nodes

/-- Reading under a hint keeps an expression fixed without a hint. -/
theorem Fixed.coerce {e : Expr} (he : e.Fixed p s none) (q : Pattern) :
    (e.coerce q).Fixed p s none := by
  induction e using induction_children with
  | node e ih =>
    cases e with
    | literal value span => simp [Expr.coerce, Fixed, resolve]
    | unary op operand span =>
      cases op with
      | not => exact he
      | negate =>
        rw [fixed_unary_iff] at he
        rw [Expr.coerce, fixed_unary_iff]
        exact ih operand (by simp [children]) he
    | binary op lhs rhs span =>
      by_cases hop : op.isArithmetic
      · rw [fixed_binary_iff] at he
        simp only [BinaryOp.leftHint, BinaryOp.rightHint, hop, if_true] at he
        rw [Expr.coerce, if_pos hop, fixed_binary_iff]
        simp only [BinaryOp.leftHint, BinaryOp.rightHint, hop, if_true]
        exact ⟨ih lhs (by simp [children]) he.1, ih rhs (by simp [children]) he.2⟩
      · rw [Expr.coerce, if_neg hop]
        exact he
    | select subject rules span =>
      rw [fixed_select_iff] at he
      rw [Expr.coerce, coerceResults_eq_map, fixed_select_iff, List.forall_mem_map]
      refine ⟨he.1, fun r hr => ⟨(he.2 r hr).1, ?_⟩⟩
      exact ih r.result (List.mem_cons_of_mem _ (result_mem_rules hr)) (he.2 r hr).2
    | cond rules otherwise span =>
      rw [fixed_cond_iff] at he
      rw [Expr.coerce, coerceResults_eq_map, coerceOption_eq_map, fixed_cond_iff,
        List.forall_mem_map]
      refine ⟨fun r hr => ⟨(he.1 r hr).1, ?_⟩, ?_⟩
      · exact ih r.result (List.mem_append_left _ (result_mem_rules hr)) (he.1 r hr).2
      · intro x hx
        obtain ⟨y, hy, rfl⟩ := Option.map_eq_some_iff.mp hx
        exact ih y (List.mem_append_right _ (by simpa using hy)) (he.2 y hy)
    | _ => exact he

/-- Reading arguments under the patterns of parameters keeps them fixed. -/
theorem fixed_coerceArguments (q : Program) (args : List Expr) (parameters : List VarId)
    (h : ∀ x ∈ args, x.Fixed p s none) :
    ∀ x ∈ q.coerceArguments args parameters, x.Fixed p s none := by
  induction args generalizing parameters with
  | nil => simp [Program.coerceArguments]
  | cons arg args ih =>
    cases parameters with
    | nil => exact h
    | cons v vs =>
      rw [List.forall_mem_cons] at h
      rw [Program.coerceArguments, List.forall_mem_cons]
      exact ⟨h.1.coerce _, ih vs h.2⟩

/-- What resolving gives is fixed under the same hint. -/
theorem fixed_resolve (p : Program) (s : ScopeId) (hint : Option Pattern) (e : Expr) :
    (e.resolve p s hint).value.Fixed p s hint := by
  induction e using induction_children generalizing hint with
  | node e ih =>
    cases e with
    | unresolved name span =>
      rw [resolve]
      obtain ⟨h, -, heq⟩ | ⟨v, -, -, -, heq⟩ | heq :=
        Program.resolveName_value p s name.identity span hint
      · rw [heq, Fixed, resolve, Reported.value_pure]
      · rw [heq, Fixed, resolve, Reported.value_pure]
      · rw [heq, Fixed, resolve, Reported.value_pure]
    | literal value span => simp [Fixed, resolve]
    | list items span =>
      rw [resolve, Reported.value_bind, Reported.value_pure, resolveAll_value, fixed_list_iff,
        List.forall_mem_map]
      exact fun x hx => ih x hx none
    | instances items span =>
      rw [resolve, Reported.value_bind, Reported.value_pure, resolveAll_value, fixed_instances_iff,
        List.forall_mem_map]
      exact fun x hx => ih x hx none
    | unary op operand span =>
      rw [resolve, Reported.value_bind, Reported.value_pure, fixed_unary_iff]
      exact ih operand (by simp [children]) _
    | binary op lhs rhs span =>
      simp only [resolve, Reported.value_bind, Reported.value_pure]
      rw [fixed_binary_iff]
      exact ⟨ih lhs (by simp [children]) _, ih rhs (by simp [children]) _⟩
    | property subject target span =>
      have hsubject := ih subject (by simp [children]) none
      cases target with
      | unresolved name =>
        simp only [resolve]
        split
        · obtain ⟨v, -, heq⟩ | heq := Program.resolveQualified_value p name.identity span
            ‹String› ‹EnumId›
          · rw [heq, Fixed, resolve, Reported.value_pure]
          · rw [heq, Fixed, resolve, Reported.value_pure]
        · rw [Reported.value_bind]
          obtain ⟨h, -, heq⟩ | ⟨h, -, heq⟩ | heq := Program.resolveProperty_value p s name.identity
            span (subject.resolve p s none).value
          · rw [heq, fixed_property_iff _ _ _ (by simp)]
            exact hsubject
          · rw [heq, fixed_property_iff _ _ _ (by simp)]
            exact hsubject
          · rw [heq, Fixed, resolve, Reported.value_pure]
      | state h =>
        simp only [resolve, Reported.value_bind, Reported.value_pure]
        exact (fixed_property_iff _ _ _ (by simp)).mpr hsubject
      | function h =>
        simp only [resolve, Reported.value_bind, Reported.value_pure]
        exact (fixed_property_iff _ _ _ (by simp)).mpr hsubject
    | select subject rules span =>
      simp only [resolve, Reported.value_bind, Reported.value_pure, resolveRules_value]
      rw [fixed_select_iff, List.forall_mem_map]
      refine ⟨ih subject (by simp [children]) none, fun r hr => ⟨?_, ?_⟩⟩
      · exact ih r.head (List.mem_cons_of_mem _ (head_mem_rules hr)) _
      · exact ih r.result (List.mem_cons_of_mem _ (result_mem_rules hr)) _
    | call callee args span =>
      have hargs : ∀ x ∈ (resolveAll p s args).value, x.Fixed p s none := by
        rw [resolveAll_value, List.forall_mem_map]
        exact fun x hx => ih x hx none
      cases callee with
      | unresolved name =>
        simp only [resolve, Reported.value_bind]
        obtain ⟨f, -, heq⟩ | heq := Program.resolveCall_value p s name.identity span
          (resolveAll p s args).value
        · rw [heq, fixed_call_iff]
          exact fixed_coerceArguments p _ _ hargs
        · rw [heq, Fixed, resolve, Reported.value_pure]
      | function f =>
        simp only [resolve, Reported.value_bind, Reported.value_pure]
        rw [fixed_call_iff]
        exact hargs
    | cond rules otherwise span =>
      simp only [resolve, Reported.value_bind, Reported.value_pure, resolveRules_value,
        resolveOption_value]
      rw [fixed_cond_iff, List.forall_mem_map]
      refine ⟨fun r hr => ⟨?_, ?_⟩, ?_⟩
      · exact ih r.head (List.mem_append_left _ (head_mem_rules hr)) _
      · exact ih r.result (List.mem_append_left _ (result_mem_rules hr)) _
      · intro x hx
        obtain ⟨y, hy, rfl⟩ := Option.map_eq_some_iff.mp hx
        exact ih y (List.mem_append_right _ (by simpa using hy)) hint
    | index subject position span =>
      simp only [resolve, Reported.value_bind, Reported.value_pure]
      rw [fixed_index_iff]
      exact ⟨ih subject (by simp [children]) _, ih position (by simp [children]) _⟩
    | _ => rfl

/-- Resolving what was resolved in the same scope and under the same hint gives it back and reports
nothing. -/
theorem resolve_idempotent (p : Program) (s : ScopeId) (hint : Option Pattern) (e : Expr) :
    (e.resolve p s hint).value.resolve p s hint = ⟨(e.resolve p s hint).value, []⟩ :=
  (fixed_resolve p s hint e).resolve_eq

end Expr

end EntityLang
