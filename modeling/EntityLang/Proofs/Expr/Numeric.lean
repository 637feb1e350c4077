import EntityLang.Checking.Program
import EntityLang.Proofs.Expr.Hints
import EntityLang.Proofs.Pattern.Overlap

/-!
# Where a number is expected

The pattern of a numeric expression is decided by its literals alone. They are reached through
negations, the operands of arithmetic, and the results of matches and conditionals; heads of rules
and subjects have no part in it and may be anything. A hint that asks for a number goes the same
ways, so it turns every integer that decides the pattern into a number, whether it comes before the
names are resolved or after.
-/

namespace EntityLang

namespace Expr

/-- The pattern is decided by literals that are integers or numbers. -/
inductive Numeric : Expr → Prop
  | int (i : Int64) (span : Span) : Numeric (.literal (.int i) span)
  | number (x : Number) (span : Span) : Numeric (.literal (.number x) span)
  | negate {operand : Expr} (span : Span) (hoperand : Numeric operand) :
    Numeric (.unary .negate operand span)
  | arithmetic {op : BinaryOp} {lhs rhs : Expr} (span : Span) (hop : op.isArithmetic = true)
    (hlhs : Numeric lhs) (hrhs : Numeric rhs) : Numeric (.binary op lhs rhs span)
  | select (subject : Expr) {rules : List (Rule Expr)} (span : Span) (hrules : rules ≠ [])
    (hresults : ∀ r ∈ rules, Numeric r.result) : Numeric (.select subject rules span)
  | cond {rules : List (Rule Expr)} {otherwise : Expr} (span : Span)
    (hresults : ∀ r ∈ rules, Numeric r.result) (hotherwise : Numeric otherwise) :
    Numeric (.cond rules (some otherwise) span)

section Pattern

variable {p : Program} {c : Pattern} {rules : List (Rule Expr)}

/-- A match whose results all have one pattern has that pattern. -/
theorem pattern_select (subject : Expr) (span : Span) (hrules : rules ≠ [])
    (h : ∀ r ∈ rules, r.result.pattern p = c) : (select subject rules span).pattern p = c := by
  rw [pattern, resultPatterns_eq_map, Pattern.unifyAll_eq_of_forall_eq (c := c) (by simpa)]
  · rfl
  · simpa using h

/-- A conditional that always selects a result has the one pattern that all results have. -/
theorem pattern_cond {otherwise : Expr} (span : Span) (h : ∀ r ∈ rules, r.result.pattern p = c)
    (hotherwise : otherwise.pattern p = c) :
    (cond rules (some otherwise) span).pattern p = c := by
  rw [pattern, resultPatterns_eq_map, Pattern.unifyAll_eq_of_forall_eq (c := c) (by simp)]
  · rfl
  · simp only [List.mem_append, List.mem_map, List.mem_singleton]
    rintro x (⟨r, hr, rfl⟩ | rfl)
    · exact h r hr
    · exact hotherwise

end Pattern

/-- Under a hint that asks for a number, a numeric expression is a number. -/
theorem Numeric.pattern_resolve {e : Expr} (he : e.Numeric) (p : Program) (s : ScopeId)
    {q : Pattern} (hq : q.core = .number) : (e.resolve p s (some q)).value.pattern p = .number := by
  induction he with
  | int i span => simp [resolve, Literal.coerce, Pattern.isNumberHint, hq, pattern, Literal.pattern]
  | number x span => rfl
  | negate span _ ih => exact ih
  | arithmetic span hop _ _ ihl _ =>
    simpa [resolve, BinaryOp.leftHint, pattern, hop] using ihl
  | select subject span hrules _ ih =>
    simp only [resolve, Reported.value_bind, Reported.value_pure, resolveRules_value]
    apply pattern_select _ _ (by simpa)
    simpa using ih
  | cond span _ _ ih iho =>
    simp only [resolve, Reported.value_bind, Reported.value_pure, resolveRules_value]
    apply pattern_cond
    · simpa using ih
    · exact iho

section Arguments

variable {p : Program} {args : List Expr} {vs : List VarId} (h : args.length = vs.length)
  (more : List Expr) (ws : List VarId)
include h

/-- Arguments are read under the patterns of the parameters at the same places. -/
theorem coerceArguments_append : p.coerceArguments (args ++ more) (vs ++ ws) =
    p.coerceArguments args vs ++ p.coerceArguments more ws := by
  induction args generalizing vs with
  | nil =>
    obtain rfl := List.length_eq_zero_iff.mp h.symm
    rfl
  | cons arg args ih =>
    cases vs with
    | nil => simp at h
    | cons v vs =>
      have h : args.length = vs.length := by simpa using h
      simp [Program.coerceArguments, ih h]

/-- Arguments are accepted if those at the first places are and those at the other places are. -/
theorem acceptedBy_append : acceptedBy p (args ++ more) (vs ++ ws) =
    (acceptedBy p args vs && acceptedBy p more ws) := by
  induction args generalizing vs with
  | nil =>
    obtain rfl := List.length_eq_zero_iff.mp h.symm
    rfl
  | cons arg args ih =>
    cases vs with
    | nil => simp at h
    | cons v vs =>
      have h : args.length = vs.length := by simpa using h
      simp [acceptedBy, ih h, Bool.and_assoc]

omit h in
/-- Reading arguments under parameters keeps their number. -/
theorem length_coerceArguments (p : Program) (args : List Expr) (vs : List VarId) :
    (p.coerceArguments args vs).length = args.length := by
  induction args generalizing vs with
  | nil => cases vs <;> rfl
  | cons arg args ih => cases vs <;> simp [Program.coerceArguments, ih]

end Arguments

/-- Where a number is expected, a numeric expression is exactly a number: if it is resolved under
the hint, and also if it is resolved without one and read under the hint later. So it is found to
fit as the value of a state or of a variable that expects the number. As an argument for a parameter
that expects the number, it leaves it to the other arguments whether the call is accepted. -/
theorem numeric_reads_as_number {e : Expr} (he : e.Numeric) (p : Program) (s : ScopeId)
    {q : Pattern} (hq : q.core = .number) :
    let hinted := (e.resolve p s (some q)).value
    let resolved := (e.resolve p s none).value
    hinted.pattern p = .number ∧ (resolved.coerce q).pattern p = .number ∧
      (∀ problem span, hinted.checkFits p q problem span = .clean) ∧
      ∀ (args more : List Expr) (vs ws : List VarId) (v : VarId), args.length = vs.length →
        (p.var v).pattern = q →
        acceptedBy p (p.coerceArguments (args ++ resolved :: more) (vs ++ v :: ws))
            (vs ++ v :: ws) =
          (acceptedBy p (p.coerceArguments args vs) vs &&
            acceptedBy p (p.coerceArguments more ws) ws) := by
  intro hinted resolved
  have hhinted : hinted.pattern p = .number := he.pattern_resolve p s hq
  -- A hint for a number selects no enum value, so it makes no difference when it comes.
  have hlate : hinted = resolved.coerce q :=
    congrArg Reported.value (resolve_some_eq (by simp [Pattern.enum?, hq]) e)
  have hvalid : q.isInvalid = false := by simp [Pattern.isInvalid, hq]
  have hfits : Pattern.number.fits q = true :=
    (Pattern.nominal_fits_iff rfl hvalid).mpr (.inl hq.symm)
  refine ⟨hhinted, hlate ▸ hhinted, fun problem span => ?_, ?_⟩
  · simp [checkFits, hhinted, hfits, Findings.require]
  · rintro args more vs ws v hlength rfl
    rw [coerceArguments_append hlength, acceptedBy_append (by rw [length_coerceArguments, hlength]),
      Program.coerceArguments, acceptedBy, ← hlate, hhinted, hfits, Bool.true_and]

/-- A match on something unknown. One result is the negative of a sum of an integer and a number, the
other one chooses between an integer and a match of its own. -/
def mixed : Expr :=
  let one := Expr.literal (.int 1) .dummy
  let name := Expr.unresolved ⟨"missing", .dummy⟩ .dummy
  .select name
    [⟨name, .unary .negate (.binary .add one (.literal (.number (.ofInt64 2)) .dummy) .dummy) .dummy,
      .dummy⟩,
    ⟨.literal .none .dummy, .cond [⟨name, one, .dummy⟩]
      (some (.select one [⟨one, .binary .div one one .dummy, .dummy⟩] .dummy)) .dummy, .dummy⟩]
    .dummy

/-- Without the hint the match counts as an integer, because the left operand decides in the sum.
Under the hint it is a number, whether the hint comes early or late. -/
theorem numeric_reads_as_number_mixed :
    let q : Pattern := .optional (.optional .number)
    mixed.Numeric ∧ q.core = .number ∧
      (mixed.resolve .fresh Program.globalScope none).value.pattern .fresh = .int ∧
      (mixed.resolve .fresh Program.globalScope (some q)).value.pattern .fresh = .number ∧
      ((mixed.resolve .fresh Program.globalScope none).value.coerce q).pattern .fresh =
        .number := by
  intro q
  have hnumeric : mixed.Numeric := by
    refine .select _ _ (by simp) (List.forall_mem_cons.mpr ⟨?_, List.forall_mem_singleton.mpr ?_⟩)
    · exact .negate _ (.arithmetic _ rfl (.int _ _) (.number _ _))
    · refine .cond _ (List.forall_mem_singleton.mpr (.int _ _)) ?_
      refine .select _ _ (by simp) (List.forall_mem_singleton.mpr ?_)
      exact .arithmetic _ rfl (.int _ _) (.int _ _)
  obtain ⟨hhinted, hlate, -⟩ :=
    numeric_reads_as_number hnumeric .fresh Program.globalScope (q := q) rfl
  exact ⟨hnumeric, rfl, by decide +kernel, hhinted, hlate⟩

end Expr

end EntityLang
