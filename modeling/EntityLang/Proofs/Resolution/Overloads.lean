import EntityLang.Proofs.Expr.Visits

/-!
# Which function a call stands for

A call by name stands for the first function of that name that accepts the arguments. Every function
starts from what resolving without a hint made of them, so neither a function that was tried before
nor a call around this one has a part in the arguments that the call is left with. Calls may be
nested in arguments, rules and operands at any depth; the statement is about the position of a call
in a whole expression.
-/

namespace EntityLang

namespace Expr

variable {p : Program} {s : ScopeId} {hint : Option Pattern} {name : Mention} {args : List Expr}
  {span : Span}

/-- The reports on a call by name itself are those of looking for a function. -/
theorem ownReports_call : (call (.unresolved name) args span).ownReports p s hint =
    (p.resolveCall s name.identity (args.map fun a => (a.resolve p s none).value)
      span).reports := by
  simp [ownReports, resolve, childReports, visits, resolveAll_value, resolveAll_reports,
    List.flatMap_map]

/-- A call by name that no poisoned node contains is settled by its own arguments alone. Enclosing
calls may have read the result under hints since. -/
theorem part?_call {e out : Expr} {π : Position} (hout : (e.resolve p s hint).value.Reread out)
    (hcall : e.part? π = some (.call (.unresolved name) args span))
    (hinside : ∀ ρ, ρ <+: π → ρ ≠ π → out.invalidAt ρ = false) :
    let settled := p.resolveCall s name.identity (args.map fun a => (a.resolve p s none).value) span
    out.part? π = some settled.value ∧ e.reportsAt p s hint π = settled.reports := by
  induction π generalizing e hint out with
  | nil =>
    obtain rfl := Option.some.inj hcall
    refine ⟨?_, ownReports_call⟩
    simp only [resolve, Reported.value_bind, resolveAll_value] at hout
    rw [part?_nil, hout.eq_of_coerce_eq (Program.coerce_resolveCall p s _ _ _)]
  | cons i π ih =>
    rw [part?_cons, Option.bind_eq_some_iff] at hcall
    obtain ⟨x, hx, hcall⟩ := hcall
    have hvalid : out.isInvalid = false := hinside [] List.nil_prefix (by simp)
    rw [hout.isInvalid_eq] at hvalid
    cases fate p s hint e with
    | poisoned d _ _ _ hvalue _ => simp [hvalue] at hvalid
    | replaced hnames _ _ _ _ =>
      -- Only bare names are passed over, and there are no calls in them.
      obtain ⟨name, span, rfl⟩ := hnames x (List.mem_of_getElem? hx)
      cases π <;> simp [children] at hcall
    | kept hvisits hchildren _ _ =>
      obtain ⟨h, hvisit⟩ : ∃ h, (e.visits p s hint)[i]? = some (h, x) := by
        rw [← hvisits, List.getElem?_map, Option.map_eq_some_iff] at hx
        obtain ⟨⟨h, x⟩, hvisit, rfl⟩ := hx
        exact ⟨h, hvisit⟩
      obtain ⟨y, hy, hxy⟩ := exists_getElem?_of_forall₂ hchildren hvisit
      obtain ⟨z, hz, hyz⟩ := exists_getElem?_of_forall₂ hout.children hy
      have hbelow (ρ : Position) (hρ : ρ <+: π) (hne : ρ ≠ π) : z.invalidAt ρ = false := by
        rw [← invalidAt_cons hz]
        exact hinside (i :: ρ) ((List.prefix_cons_inj i).mpr hρ) (by simpa using hne)
      obtain ⟨hpart, hreports⟩ := ih (hxy.trans hyz) hcall hbelow
      refine ⟨?_, ?_⟩
      · rw [part?_cons, hz, Option.bind_some, hpart]
      · rw [reportsAt_cons hvisit, hreports]

/-- A call by name that no poisoned node contains becomes a call of the first function of the name
that accepts the arguments. It is left with the arguments as resolving without a hint made them,
read under the patterns of that function's parameters, and these fit the parameters. If no function
of the name accepts the arguments, the call becomes invalid and gets one report at its place.

The reports on the whole expression are those at its positions, and the position of the call is one
of them. -/
theorem call_takes_first_fit (p : Program) (s : ScopeId) (hint : Option Pattern) (e : Expr)
    {π : Position} {name : Mention} {args : List Expr} {span : Span}
    (hcall : e.part? π = some (.call (.unresolved name) args span))
    (hinside : ∀ ρ, ρ <+: π → ρ ≠ π → (e.resolve p s hint).value.invalidAt ρ = false) :
    let resolved := args.map fun a => (a.resolve p s none).value
    let functions := p.functionsNamed s name.identity
    (e.resolve p s hint).reports = e.positions.flatMap (e.reportsAt p s hint) ∧
      e.positions.count π = 1 ∧
      ((∃ f taken, p.FirstFit functions resolved f ∧
          taken = List.zipWith (fun arg v => arg.coerce (p.var v).pattern) resolved
            (p.function f).parameters ∧
          acceptedBy p taken (p.function f).parameters ∧
          (e.resolve p s hint).value.part? π = some (.call (.function f) taken span) ∧
          e.reportsAt p s hint π = []) ∨
        ((∀ f ∈ functions, ¬p.Accepts f resolved) ∧
          (e.resolve p s hint).value.part? π = some (.invalid span) ∧
          ∃ d, e.reportsAt p s hint π = [d] ∧ d.span = span ∧
            p.Unmatched s name.identity d.kind)) := by
  intro resolved functions
  obtain ⟨hpart, hreports⟩ := part?_call (.refl _) hcall hinside
  refine ⟨reports_eq_flatMap p s hint e, count_positions (by simp [hcall]), ?_⟩
  obtain ⟨f, hfit, heq⟩ | ⟨hnone, d, hspan, hkind, heq⟩ :=
    p.resolveCall_cases s name.identity resolved span
  · rw [heq] at hpart hreports
    exact .inl ⟨f, _, hfit, Program.coerceArguments_eq_zipWith hfit.accepts, hfit.accepts, hpart,
      hreports⟩
  · rw [heq] at hpart hreports
    exact .inr ⟨hnone, hpart, d, hreports, hspan, hkind⟩

/-- A function that takes a string, one of the same name that takes two numbers, and a function from
integers to numbers. -/
def arithmetic : Program :=
  let p := (Program.fresh.declareFunction Program.globalScope "f" .number [("x", .string)]).2
  let p := (p.declareFunction Program.globalScope "f" .number [("x", .number), ("y", .number)]).2
  (p.declareFunction Program.globalScope "g" .number [("x", .int)]).2

/-- A call in the argument of a call, both with integers for arguments. -/
def nestedCalls : Expr :=
  let one := Expr.literal (.int 1) .dummy
  .call (.unresolved ⟨"f", .dummy⟩) [one, .call (.unresolved ⟨"g", .dummy⟩) [one] .dummy] .dummy

/-- The outer call passes over the function that takes a string and reads its first argument as a
number. The argument of the inner call stays an integer, although the call stands where a number is
expected. -/
theorem call_takes_first_fit_nestedCalls :
    let out := (nestedCalls.resolve arithmetic Program.globalScope none).value
    let one := Expr.literal (.int 1) .dummy
    nestedCalls.part? [1] = some (.call (.unresolved ⟨"g", .dummy⟩) [one] .dummy) ∧
      (∀ ρ, ρ <+: [1] → ρ ≠ [1] → out.invalidAt ρ = false) ∧
      (∃ f taken, arithmetic.FirstFit (arithmetic.functionsNamed Program.globalScope "g") [one] f ∧
        out.part? [1] = some (.call (.function f) taken .dummy)) ∧
      out.handle? = some (.function ⟨1⟩) ∧
      (out.part? [0]).map (pattern arithmetic) = some .number ∧
      (out.part? [1, 0]).map (pattern arithmetic) = some .int := by
  intro out one
  have hinside (ρ : Position) (hρ : ρ <+: [1]) (hne : ρ ≠ [1]) : out.invalidAt ρ = false := by
    rcases List.prefix_cons_iff.mp hρ with rfl | ⟨τ, rfl, hτ⟩
    · decide +kernel
    · rw [List.prefix_nil.mp hτ] at hne
      exact absurd rfl hne
  have hcall : nestedCalls.part? [1] = some (.call (.unresolved ⟨"g", .dummy⟩) [one] .dummy) := rfl
  refine ⟨hcall, hinside, ?_, by decide +kernel, by decide +kernel, by decide +kernel⟩
  obtain ⟨-, -, ⟨f, taken, hfit, -, -, hpart, -⟩ | ⟨-, hpart, -⟩⟩ :=
    call_takes_first_fit arithmetic Program.globalScope none nestedCalls hcall hinside
  · exact ⟨f, taken, hfit, hpart⟩
  · have hvalid : out.invalidAt [1] = false := by decide +kernel
    rw [invalidAt, hpart] at hvalid
    simp at hvalid

end Expr

end EntityLang
