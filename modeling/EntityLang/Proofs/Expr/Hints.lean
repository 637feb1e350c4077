import EntityLang.Proofs.Expr.Fixed

/-!
# Hints that come late

The arguments of a call are resolved before it is known which function takes them, so what is
expected of an argument comes up only when the argument has been resolved. Reading a resolved
expression under a hint is the same as resolving it again under that hint. Unless the hint asks for
an enum, among whose values it would have selected, both give what resolving under the hint gives
right away.
-/

namespace EntityLang

namespace Expr

-- Hints reach literals through negation, arithmetic and the results of rules only.

/-- A variable is not read anew under a hint. -/
@[simp] theorem coerce_var (q : Pattern) (h : VarId) (span : Span) :
    (var h span).coerce q = .var h span := rfl

/-- An enum value is not read anew under a hint. -/
@[simp] theorem coerce_enumValue (q : Pattern) (h : EnumValueId) (span : Span) :
    (enumValue h span).coerce q = .enumValue h span := rfl

/-- A property is not read anew under a hint. -/
@[simp] theorem coerce_property (q : Pattern) (subject : Expr) (target : PropertyRef)
    (span : Span) : (property subject target span).coerce q = .property subject target span := rfl

/-- A call is not read anew under a hint. -/
@[simp] theorem coerce_call (q : Pattern) (callee : Callee) (args : List Expr) (span : Span) :
    (call callee args span).coerce q = .call callee args span := rfl

/-- The invalid expression is not read anew under a hint. -/
@[simp] theorem coerce_invalid (q : Pattern) (span : Span) :
    (invalid span).coerce q = .invalid span := rfl

end Expr

namespace Program

variable (p : Program) (s : ScopeId) (identity : String) (span : Span)

/-- A hint that asks for no enum does not select values. -/
theorem resolveName_of_enum?_eq_none {q : Pattern} (hq : q.enum? = none) :
    p.resolveName s (some q) identity span = p.resolveName s none identity span := by
  have hhinted : p.hintedValue (some q) identity = p.hintedValue none identity := by
    simp [hintedValue, hq]
  simp only [resolveName, hhinted]

/-- What a bare name stands for is not read under hints. -/
theorem coerce_resolveName (hint : Option Pattern) (q : Pattern) :
    (p.resolveName s hint identity span).value.coerce q =
      (p.resolveName s hint identity span).value := by
  obtain ⟨h, -, heq⟩ | ⟨v, -, -, -, heq⟩ | heq := resolveName_value p s identity span hint
  · simp [heq]
  · simp [heq]
  · simp [heq]

/-- A qualified value is not read under hints. -/
theorem coerce_resolveQualified (enumName : String) (e : EnumId) (q : Pattern) :
    (p.resolveQualified enumName e identity span).value.coerce q =
      (p.resolveQualified enumName e identity span).value := by
  obtain ⟨v, -, heq⟩ | heq := resolveQualified_value p identity span enumName e
  · simp [heq]
  · simp [heq]

/-- A property is not read under hints. -/
theorem coerce_resolveProperty (subject : Expr) (q : Pattern) :
    (p.resolveProperty s subject identity span).value.coerce q =
      (p.resolveProperty s subject identity span).value := by
  obtain ⟨h, -, heq⟩ | ⟨h, -, heq⟩ | heq := resolveProperty_value p s identity span subject
  · simp [heq]
  · simp [heq]
  · simp [heq]

/-- A call is not read under hints, and neither are its arguments. -/
theorem coerce_resolveCall (args : List Expr) (q : Pattern) :
    (p.resolveCall s identity args span).value.coerce q =
      (p.resolveCall s identity args span).value := by
  obtain ⟨f, -, heq⟩ | heq := resolveCall_value p s identity span args
  · simp [heq]
  · simp [heq]

end Program

namespace Expr

variable {p : Program} {s : ScopeId}

/-- Resolving a resolved expression again under a hint reads it under the hint. -/
theorem Fixed.value_resolve_some {e : Expr} (he : e.Fixed p s none) (q : Pattern) :
    (e.resolve p s (some q)).value = e.coerce q := by
  induction e using induction_children with
  | node e ih =>
    have hname := he.isResolved.self
    cases e with
    | unresolved name span => simp [mention?] at hname
    | literal value span => rfl
    | list items span =>
      rw [fixed_list_iff] at he
      exact (fixed_list_iff items span).mpr he
    | instances items span =>
      rw [fixed_instances_iff] at he
      exact (fixed_instances_iff items span).mpr he
    | unary op operand span =>
      rw [fixed_unary_iff] at he
      cases op with
      | not => exact (fixed_unary_iff .not operand span).mpr he
      | negate =>
        simp only [resolve, Reported.value_bind, Reported.value_pure, Expr.coerce,
          UnaryOp.operandHint]
        rw [ih operand (by simp [children]) he]
    | binary op lhs rhs span =>
      rw [fixed_binary_iff] at he
      by_cases hop : op.isArithmetic
      · simp only [BinaryOp.leftHint, BinaryOp.rightHint, hop, if_true] at he
        simp only [resolve, Reported.value_bind, Reported.value_pure, Expr.coerce,
          BinaryOp.leftHint, BinaryOp.rightHint, hop, if_true]
        rw [ih lhs (by simp [children]) he.1, ih rhs (by simp [children]) he.2]
      · rw [Expr.coerce, if_neg hop]
        -- The hints of all other operators come from the operator and from the left operand.
        refine (fixed_binary_iff op lhs rhs span).mpr ?_
        simpa only [BinaryOp.leftHint, BinaryOp.rightHint, if_neg hop] using he
    | property subject target span =>
      have htarget (name : Mention) : target ≠ .unresolved name := by
        rintro rfl
        simp [mention?] at hname
      rw [fixed_property_iff _ _ _ htarget] at he
      exact (fixed_property_iff subject target span htarget).mpr he
    | select subject rules span =>
      rw [fixed_select_iff] at he
      obtain ⟨hsubject, hrules⟩ := he
      simp only [resolve, Reported.value_bind, Reported.value_pure, resolveRules_value,
        Expr.coerce, coerceResults_eq_map]
      rw [hsubject]
      congr 1
      refine List.map_congr_left fun r hr => ?_
      rw [(hrules r hr).1,
        ih r.result (List.mem_cons_of_mem _ (result_mem_rules hr)) (hrules r hr).2]
    | call callee args span =>
      cases callee with
      | unresolved name => simp [mention?] at hname
      | function f =>
        rw [fixed_call_iff] at he
        exact (fixed_call_iff f args span).mpr he
    | cond rules otherwise span =>
      rw [fixed_cond_iff] at he
      obtain ⟨hrules, hotherwise⟩ := he
      simp only [resolve, Reported.value_bind, Reported.value_pure, resolveRules_value,
        resolveOption_value, Expr.coerce, coerceResults_eq_map, coerceOption_eq_map]
      congr 1
      · refine List.map_congr_left fun r hr => ?_
        rw [(hrules r hr).1,
          ih r.result (List.mem_append_left _ (result_mem_rules hr)) (hrules r hr).2]
      · refine Option.map_congr fun x hx => ?_
        exact ih x (List.mem_append_right _ (by simpa using hx)) (hotherwise x hx)
    | index subject position span =>
      rw [fixed_index_iff] at he
      exact (fixed_index_iff subject position span).mpr he
    | _ => rfl

/-- Rules may be read under a hint late if their results may. -/
theorem resolveRules_some_eq {q : Pattern} (headHint : Option Pattern) {rules : List (Rule Expr)}
    (hresult : ∀ r ∈ rules, r.result.resolve p s (some q) =
      ⟨(r.result.resolve p s none).value.coerce q, (r.result.resolve p s none).reports⟩) :
    resolveRules p s headHint (some q) rules =
      ⟨coerceResults q (resolveRules p s headHint none rules).value,
        (resolveRules p s headHint none rules).reports⟩ := by
  induction rules with
  | nil => rfl
  | cons r rest ih =>
    rw [List.forall_mem_cons] at hresult
    simp [resolveRules, Reported.ext_iff, coerceResults, hresult.1, ih hresult.2]

/-- A hint that asks for no enum may as well come late. -/
theorem resolve_some_eq {q : Pattern} (hq : q.enum? = none) (e : Expr) :
    e.resolve p s (some q) =
      ⟨(e.resolve p s none).value.coerce q, (e.resolve p s none).reports⟩ := by
  induction e using induction_children with
  | node e ih =>
    cases e with
    | unresolved name span =>
      rw [resolve, resolve, Program.resolveName_of_enum?_eq_none p s _ _ hq,
        Program.coerce_resolveName]
    | literal value span => simp [resolve, Expr.coerce, pure]
    | unary op operand span =>
      cases op with
      | not => rfl
      | negate =>
        have hoperand := ih operand (by simp [children])
        simp [resolve, Reported.ext_iff, UnaryOp.operandHint, hoperand, Expr.coerce]
    | binary op lhs rhs span =>
      by_cases hop : op.isArithmetic
      · have hlhs := ih lhs (by simp [children])
        have hrhs := ih rhs (by simp [children])
        simp [resolve, Reported.ext_iff, BinaryOp.leftHint, BinaryOp.rightHint, hop, hlhs, hrhs,
          Expr.coerce]
      · simp [resolve, Reported.ext_iff, BinaryOp.leftHint, BinaryOp.rightHint, hop, Expr.coerce]
    | property subject target span =>
      cases target with
      | unresolved name =>
        cases hqualifier : p.qualifier? s subject with
        | none => simp [resolve, hqualifier, Reported.ext_iff, Program.coerce_resolveProperty]
        | some x => simp [resolve, hqualifier, Program.coerce_resolveQualified]
      | state h => rfl
      | function h => rfl
    | select subject rules span =>
      have hrules (headHint : Option Pattern) := resolveRules_some_eq headHint fun r hr =>
        ih r.result (List.mem_cons_of_mem _ (result_mem_rules hr))
      simp [resolve, Reported.ext_iff, hrules, Expr.coerce]
    | call callee args span =>
      cases callee with
      | unresolved name => simp [resolve, Reported.ext_iff, Program.coerce_resolveCall]
      | function f => rfl
    | cond rules otherwise span =>
      have hrules := resolveRules_some_eq (some .bool) fun r hr =>
        ih r.result (List.mem_append_left _ (result_mem_rules hr))
      cases otherwise with
      | none => simp [resolve, resolveOption, Reported.ext_iff, hrules, Expr.coerce, coerceOption]
      | some x =>
        have hx := ih x (List.mem_append_right _ (by simp))
        simp [resolve, resolveOption, Reported.ext_iff, hrules, hx, Expr.coerce, coerceOption]
    | _ => rfl

/-- Reading a resolved expression under a hint is the same as resolving it again under that hint,
which reports nothing. Unless the core of the hint is an enum, it is also the same as resolving the
expression under the hint in the first place, which reports what resolving it without a hint
does. -/
theorem coerce_eq_resolve (p : Program) (s : ScopeId) (e : Expr) (q : Pattern) :
    (e.resolve p s none).value.resolve p s (some q) =
        ⟨(e.resolve p s none).value.coerce q, []⟩ ∧
      ((∀ h, q.core ≠ .enum h) → e.resolve p s (some q) =
        ⟨(e.resolve p s none).value.coerce q, (e.resolve p s none).reports⟩) := by
  have hfixed := fixed_resolve p s none e
  refine ⟨Reported.ext (hfixed.value_resolve_some q) ?_, fun hcore => resolve_some_eq ?_ e⟩
  · exact hfixed.isResolved.reports_resolve p s (some q)
  · unfold Pattern.enum?
    split
    · exact absurd ‹_› (hcore _)
    · rfl

/-- A function on numbers. -/
def halving : Program :=
  (Program.fresh.declareFunction Program.globalScope "half" .number [("x", .number)]).2

/-- A choice between a call of the function and a sum with something unknown. -/
def halfOrSum : Expr :=
  let one := Expr.literal (.int 1) .dummy
  .cond [⟨.binary .less one one .dummy, .call (.unresolved ⟨"half", .dummy⟩) [one] .dummy, .dummy⟩]
    (some (.binary .add one (.unresolved ⟨"missing", .dummy⟩ .dummy) .dummy)) .dummy

/-- Under `number?` a choice is read alike early or late, with one report either way. -/
theorem coerce_eq_resolve_halfOrSum :
    (∀ h, (Pattern.optional .number).core ≠ .enum h) ∧
      halfOrSum.resolve halving Program.globalScope (some (.optional .number)) =
        ⟨(halfOrSum.resolve halving Program.globalScope none).value.coerce (.optional .number),
          (halfOrSum.resolve halving Program.globalScope none).reports⟩ ∧
      (halfOrSum.resolve halving Program.globalScope none).reports.length = 1 ∧
      (halfOrSum.resolve halving Program.globalScope none).value.pattern halving = .invalid ∧
      ((halfOrSum.resolve halving Program.globalScope none).value.coerce
        (.optional .number)).pattern halving = .number := by
  have hcore : ∀ h, (Pattern.optional .number).core ≠ .enum h := fun h => by simp [Pattern.core]
  exact ⟨hcore, (coerce_eq_resolve _ _ _ _).2 hcore, by decide +kernel, by decide +kernel,
    by decide +kernel⟩

end Expr

end EntityLang
