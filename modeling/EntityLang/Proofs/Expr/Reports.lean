import EntityLang.Proofs.Expr.Parts

/-!
# Reports on expressions

Resolving an expression reports nothing but names: every report stands at the place of a part that
is a name, and its kind is one of the kinds for names. An expression without names gives no reports.
-/

namespace EntityLang

/-- A kind of problem that a name can have, alone or with its arguments. -/
def DiagnosticKind.IsNaming : DiagnosticKind → Prop
  | .unresolvedIdentity | .notAPattern | .notAValue | .notCallable | .ambiguousIdentity
  | .unknownProperty | .noMatchingOverload => True
  | .redeclaration | .incorrectType | .invalidCondition | .unreachableRule
  | .inconsistentRules => False

namespace Program

variable {p : Program} {s : ScopeId} {identity : String} {span : Span} {d : Diagnostic}

/-- What is poisoned is reported once, at its place. -/
theorem of_mem_poison {problem : Problem} (hd : d ∈ (poison problem span).reports)
    (hproblem : problem.kind.IsNaming) : d.span = span ∧ d.kind.IsNaming := by
  obtain rfl := List.mem_singleton.mp hd
  exact ⟨rfl, hproblem⟩

/-- A name is reported at its own place, as a problem with a name. -/
theorem mem_reports_resolveName {hint : Option Pattern}
    (hd : d ∈ (p.resolveName s hint identity span).reports) :
    d.span = span ∧ d.kind.IsNaming := by
  unfold resolveName at hd
  split at hd
  · simp at hd
  · split at hd
    · simp at hd
    · split at hd
      · exact of_mem_poison hd trivial
      · split at hd
        · simp at hd
        · exact of_mem_poison hd trivial
        · exact of_mem_poison hd trivial

/-- A qualified value is reported at its own place, as a problem with a name. -/
theorem mem_reports_resolveQualified {enumName : String} {e : EnumId}
    (hd : d ∈ (p.resolveQualified enumName e identity span).reports) :
    d.span = span ∧ d.kind.IsNaming := by
  unfold resolveQualified at hd
  split at hd
  · simp at hd
  · exact of_mem_poison hd trivial

/-- A property is reported at its own place, as a problem with a name. -/
theorem mem_reports_resolveProperty {subject : Expr}
    (hd : d ∈ (p.resolveProperty s subject identity span).reports) :
    d.span = span ∧ d.kind.IsNaming := by
  unfold resolveProperty at hd
  split at hd
  · split at hd
    · exact of_mem_poison hd trivial
    · exact of_mem_poison hd trivial
  · split at hd
    · simp at hd
    · dsimp only at hd
      split at hd
      · simp at hd
      · exact of_mem_poison hd trivial

/-- A call is reported at its own place, as a problem with a name. -/
theorem mem_reports_resolveCall {args : List Expr}
    (hd : d ∈ (p.resolveCall s identity args span).reports) : d.span = span ∧ d.kind.IsNaming := by
  unfold resolveCall at hd
  split at hd
  · exact of_mem_poison hd trivial
  · split at hd
    · exact of_mem_poison hd trivial
    · split at hd
      · simp at hd
      · exact of_mem_poison hd trivial

end Program

namespace Expr

/-- A report on the name that a node is, at the place of the node. -/
def ReportedOn (e : Expr) (d : Diagnostic) : Prop :=
  e.mention?.isSome ∧ d.span = e.span ∧ d.kind.IsNaming

/-- A report on an expression is about the node or comes from one of its children. -/
theorem mem_reports_cases {p : Program} {s : ScopeId} {hint : Option Pattern} {e : Expr}
    {d : Diagnostic} (hd : d ∈ (e.resolve p s hint).reports) :
    e.ReportedOn d ∨ ∃ x ∈ e.children, ∃ hint, d ∈ (x.resolve p s hint).reports := by
  have hall {items : List Expr} (hd : d ∈ (resolveAll p s items).reports) :
      ∃ x ∈ items, ∃ hint, d ∈ (x.resolve p s hint).reports := by
    rw [resolveAll_reports, List.mem_flatMap] at hd
    obtain ⟨x, hx, hd⟩ := hd
    exact ⟨x, hx, none, hd⟩
  have hrules {rules : List (Rule Expr)} {headHint resultHint : Option Pattern}
      (hd : d ∈ (resolveRules p s headHint resultHint rules).reports) :
      ∃ x ∈ rules.flatMap fun r => [r.head, r.result], ∃ hint,
        d ∈ (x.resolve p s hint).reports := by
    rw [resolveRules_reports, List.mem_flatMap] at hd
    obtain ⟨r, hr, hd⟩ := hd
    rcases List.mem_append.mp hd with hd | hd
    · exact ⟨r.head, head_mem_rules hr, headHint, hd⟩
    · exact ⟨r.result, result_mem_rules hr, resultHint, hd⟩
  cases e with
  | unresolved name span => exact .inl ⟨rfl, Program.mem_reports_resolveName hd⟩
  | list items span | instances items span =>
    simp only [resolve, Reported.reports_bind, Reported.reports_pure, List.append_nil] at hd
    exact .inr (hall hd)
  | unary op operand span =>
    simp only [resolve, Reported.reports_bind, Reported.reports_pure, List.append_nil] at hd
    exact .inr ⟨operand, by simp [children], _, hd⟩
  | binary op lhs rhs span =>
    simp only [resolve, Reported.reports_bind, Reported.reports_pure, List.append_nil] at hd
    rcases List.mem_append.mp hd with hd | hd
    · exact .inr ⟨lhs, by simp [children], _, hd⟩
    · exact .inr ⟨rhs, by simp [children], _, hd⟩
  | property subject target span =>
    cases target with
    | unresolved name =>
      rw [resolve] at hd
      split at hd
      · exact .inl ⟨rfl, Program.mem_reports_resolveQualified hd⟩
      · rcases List.mem_append.mp hd with hd | hd
        · exact .inr ⟨subject, by simp [children], _, hd⟩
        · exact .inl ⟨rfl, Program.mem_reports_resolveProperty hd⟩
    | state h | function h =>
      simp only [resolve, Reported.reports_bind, Reported.reports_pure, List.append_nil] at hd
      exact .inr ⟨subject, by simp [children], _, hd⟩
  | select subject rules span =>
    simp only [resolve, Reported.reports_bind, Reported.reports_pure, List.append_nil] at hd
    rcases List.mem_append.mp hd with hd | hd
    · exact .inr ⟨subject, by simp [children], _, hd⟩
    · obtain ⟨x, hx, hd⟩ := hrules hd
      exact .inr ⟨x, List.mem_cons_of_mem _ hx, hd⟩
  | call callee args span =>
    cases callee with
    | unresolved name =>
      rcases List.mem_append.mp hd with hd | hd
      · exact .inr (hall hd)
      · exact .inl ⟨rfl, Program.mem_reports_resolveCall hd⟩
    | function f =>
      simp only [resolve, Reported.reports_bind, Reported.reports_pure, List.append_nil] at hd
      exact .inr (hall hd)
  | cond rules otherwise span =>
    simp only [resolve, Reported.reports_bind, Reported.reports_pure, List.append_nil] at hd
    rcases List.mem_append.mp hd with hd | hd
    · obtain ⟨x, hx, hd⟩ := hrules hd
      exact .inr ⟨x, List.mem_append_left _ hx, hd⟩
    · rw [resolveOption_reports, List.mem_flatMap] at hd
      obtain ⟨x, hx, hd⟩ := hd
      exact .inr ⟨x, List.mem_append_right _ hx, hint, hd⟩
  | index subject position span =>
    simp only [resolve, Reported.reports_bind, Reported.reports_pure, List.append_nil] at hd
    rcases List.mem_append.mp hd with hd | hd
    · exact .inr ⟨subject, by simp [children], _, hd⟩
    · exact .inr ⟨position, by simp [children], _, hd⟩
  | _ => simp [resolve] at hd

/-- A report on an expression is about a name at some depth of it. -/
theorem exists_reportedOn {p : Program} {s : ScopeId} {hint : Option Pattern} {e : Expr}
    {d : Diagnostic} (hd : d ∈ (e.resolve p s hint).reports) :
    ∃ x ∈ e.subexprs, x.ReportedOn d := by
  induction e using induction_children generalizing hint with
  | node e ih =>
    rw [subexprs_eq]
    rcases mem_reports_cases hd with hself | ⟨x, hx, hint, hd⟩
    · exact ⟨e, List.mem_cons_self, hself⟩
    · obtain ⟨y, hy, hreported⟩ := ih x hx hd
      exact ⟨y, List.mem_cons_of_mem _ (List.mem_flatMap.mpr ⟨x, hx, hy⟩), hreported⟩

/-- An expression without names has nothing to report. -/
theorem IsResolved.reports_resolve {e : Expr} (he : e.IsResolved) (p : Program) (s : ScopeId)
    (hint : Option Pattern) : (e.resolve p s hint).reports = [] := by
  rw [List.eq_nil_iff_forall_not_mem]
  intro d hd
  obtain ⟨x, hx, hmention, -⟩ := exists_reportedOn hd
  simp [he x hx] at hmention

end Expr

end EntityLang
