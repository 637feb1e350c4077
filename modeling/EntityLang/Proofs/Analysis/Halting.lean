import EntityLang.Analysis
import EntityLang.Proofs.Checking.Halt
import EntityLang.Proofs.Resolution.Completeness
import EntityLang.Proofs.Resolution.Signature
import EntityLang.Proofs.Walk.Termination

/-!
# When the analysis of a program finishes

A program as a parser builds it can be analysed: resolving it ends. The check of what came out finds
no name in anything that a scope binds. Statements may also name a variable that its block rejected
because another one has the same name there. Resolving passes over such a variable, and the check
halts at its pattern if the pattern is a name.
-/

namespace EntityLang

/-- A statement in a reachable body declares a variable that its block rejected, and the pattern of
the variable is the name. -/
def Program.KeepsName (p : Program) (name : Mention) : Prop :=
  ∃ s, p.Reachable s ∧ ∃ h, .function h ∈ p.declared s ∧ ∃ b, (p.function h).body = some b ∧
    ∃ c v, .declare c v ∈ b.sites (p.function h).scope true ∧ .var v ∉ p.declared c ∧
      (p.var v).pattern.unresolved? = some name

/-- In what is filled without names, the expressions at all sites are resolved. -/
theorem Goal.Filled.isResolved {q : Program} {s t : ScopeId} {d : Decl} {expected : Expectation}
    {e : Expr} (hfilled : Goal.nameless.Filled q d) (he : .eval t expected e ∈ q.declSites s d) :
    e.IsResolved := by
  have hown : e ∈ q.ownExprs d := (q.mem_ownExprs_iff s d e).mpr ⟨t, expected, he⟩
  cases d with
  | state h => exact hfilled e (by simpa using hown)
  | function h =>
    obtain ⟨b, hb, he⟩ : ∃ b, (q.function h).body = some b ∧ e ∈ b.exprs := by simpa using hown
    exact (hfilled b hb).1 e he
  | _ => simp at hown

/-- Statements declare the same variables in programs of the same shape. -/
theorem Program.declare_mem_of_skeleton_eq {p q : Program} (h : q.skeleton = p.skeleton)
    {s c : ScopeId} {d : Decl} {v : VarId} (hv : .declare c v ∈ q.declSites s d) :
    .declare c v ∈ p.declSites s d := by
  obtain ⟨k, rfl, b, hb, hv⟩ := (q.declare_mem_declSites_iff s d c v).mp hv
  have hbody := body_of_skeleton_eq h.symm k
  rw [hb, Option.map_some, Option.map_eq_some_iff] at hbody
  obtain ⟨b', hb', hskeleton⟩ := hbody
  rw [functionScope_of_skeleton_eq h] at hv
  have hv' := Block.mem_sites_of_skeleton_eq hskeleton.symm rfl hv
  exact (p.declare_mem_declSites_iff s _ c v).mpr ⟨k, rfl, b', hb', hv'⟩

/-- A variable that a statement of a bound function declares is declared in a reachable scope. -/
theorem Program.ParserShaped.declaredIn_of_mem_declSites {p : Program} (hp : p.ParserShaped)
    {s c : ScopeId} (hs : p.Reachable s) {d : Decl} (hd : d ∈ p.declared s) {v : VarId}
    (hv : .declare c v ∈ p.declSites s d) :
    p.Reachable c ∧ p.DeclaredIn c (.var v) := by
  obtain ⟨h, rfl, b, hb, hv⟩ := (p.declare_mem_declSites_iff s d c v).mp hv
  have hc : c ∈ b.scopes := Block.scope_mem_scopes hv
  exact ⟨hs.enter hd (.block not_false hb hc), hp.placed hb hv⟩

namespace Program

variable {p r : Program} (hp : p.ParserShaped) (hr : p.Signs r)
include hp hr

/-- Once no name is left in what scopes bind, the names that are left are the patterns of rejected
variables. -/
theorem Signs.leftover_iff
    (hnameless : ∀ s, r.Reachable s → Goal.nameless.Settled r s ∧
      ∀ d ∈ r.declared s, Goal.nameless.Filled r d) (cause : Halt) :
    r.Leftover cause ↔ ∃ name, cause = .broken (.unresolved .pattern name) ∧ p.KeepsName name := by
  constructor
  · rintro ⟨s, hs, d, hd, hleft⟩
    obtain ⟨hsettled, hfilled⟩ := hnameless s hs
    have hpattern : (r.declPattern d).leftover? = none := by
      rw [Pattern.leftover?, show (r.declPattern d).unresolved? = none from hsettled.2 d hd]
      rfl
    obtain hleft | ⟨x, hx, hleft⟩ := hleft
    · exact absurd (hpattern.symm.trans hleft) (by simp)
    · cases x with
      | enter o t => simp [Site.leftover?] at hleft
      | eval t expected e =>
        have hresolved := (hfilled d hd).isResolved hx
        rw [Site.leftover?, (Expr.findSome?_leftover?_eq_none_iff e).mpr hresolved] at hleft
        exact absurd hleft (by simp)
      | declare c v =>
        obtain ⟨name, hname, rfl⟩ := Option.map_eq_some_iff.mp hleft
        rw [reachable_of_skeleton_eq hr.shape] at hs
        rw [declared_of_skeleton_eq hr.shape] at hd
        have hv := declare_mem_of_skeleton_eq hr.shape hx
        obtain ⟨hc, hdeclared⟩ := hp.declaredIn_of_mem_declSites hs hd hv
        have hrejected := (hr.unresolved?_eq_some_iff hp hc hdeclared name).mp hname
        obtain ⟨h, rfl, b, hb, hv⟩ := (p.declare_mem_declSites_iff s d c v).mp hv
        exact ⟨name, rfl, s, hs, h, hd, b, hb, c, v, hv, hrejected⟩
  · rintro ⟨name, rfl, s, hs, h, hd, b, hb, c, v, hv, hrejected⟩
    have hsite := (p.declare_mem_declSites_iff s _ c v).mpr ⟨h, rfl, b, hb, hv⟩
    obtain ⟨hc, hdeclared⟩ := hp.declaredIn_of_mem_declSites hs hd hsite
    have hname := (hr.unresolved?_eq_some_iff hp hc hdeclared name).mpr hrejected
    refine ⟨s, reachable_of_skeleton_eq hr.shape ▸ hs, .function h,
      (declared_of_skeleton_eq hr.shape s).symm ▸ hd, .inr ⟨.declare c v,
        declare_mem_of_skeleton_eq hr.shape.symm hsite, ?_⟩⟩
    rw [Site.leftover?, Pattern.leftover?, hname]
    rfl

/-- The check of a resolved program halts exactly at names that are left. -/
theorem Signs.check_halts :
    (∀ cause, r.check.cause? = some cause → r.Leftover cause) ∧
      (r.check.cause? = none → ∀ cause, ¬ r.Leftover cause) := by
  have hbound : r.boundIn = p.boundIn := by rw [← boundIn_skeleton, hr.shape, boundIn_skeleton]
  have hmembers : ∀ s identity b, r.boundIn identity s = some b → b.FunctionsOnly := by
    rw [hbound]
    exact hp.built.sound.members
  have hrank : ∀ s, r.Reachable s → ∀ d ∈ r.declared s, ∀ t, r.Enters (fun _ => False) d t →
      p.ahead t < p.ahead s := by
    intro s _ d hd t ht
    rw [declared_of_skeleton_eq hr.shape] at hd
    cases ht.of_skeleton_eq hr.shape.symm with
    | own ht => exact hp.ahead_lt_of_own hd ht
    | block _ hb hc => exact hp.ahead_lt_of_block hd hb hc
  have hcount : r.propertyCount = p.propertyCount := by
    rw [← propertyCount_skeleton, hr.shape, propertyCount_skeleton]
  have hdepth : p.ahead globalScope < r.propertyCount + 1 := by
    have hle := p.ahead_le_propertyCount globalScope
    omega
  refine ⟨fun cause h => ?_, not_leftover_of_check⟩
  apply (exists_of_checkScopeUpTo p.ahead hrank hdepth r.reachable_globalScope h).resolve_right
  rintro ⟨s, -, identity, b, hb, hmalformed⟩
  exact hmalformed.not_functionsOnly (hmembers s identity b hb)

end Program

/-- A program as a parser builds it is analysed to the end, unless a statement declares a variable
that its block rejected and whose pattern is a name: then the check halts at such a name. -/
theorem analyze_finishes_iff {p : Program} (hp : p.ParserShaped) :
    ∃ a, p.analyze = some a ∧ ((∃ ds, a.findings = .found ds) ↔ ∀ name, ¬ p.KeepsName name) ∧
      ∀ cause, a.findings = .halted cause →
        ∃ name, cause = .broken (.unresolved .pattern name) ∧ p.KeepsName name := by
  obtain ⟨o, ho, -⟩ := Walk.keeps_pass hp .full p rfl
  have hresolve : Walk.resolve p = some o := ho
  have hsigns := Walk.resolve_signs hp o hresolve
  obtain ⟨-, hnameless⟩ := Walk.resolve_completes (Goal.nameless_plan p) o hresolve
  have hleftover := hsigns.leftover_iff hp hnameless
  obtain ⟨hhalts, hfinishes⟩ := hsigns.check_halts hp
  have hcause : (Findings.found o.reports ++ o.program.check).cause? = o.program.check.cause? := by
    rw [Findings.cause?_append]
    rfl
  refine ⟨⟨o.program, .found o.reports ++ o.program.check⟩, ?_, ?_, ?_⟩
  · rw [Program.analyze, hresolve]
  · rw [← Findings.cause?_eq_none_iff, hcause]
    constructor
    · intro h name hname
      exact hfinishes h _ ((hleftover _).mpr ⟨name, rfl, hname⟩)
    · intro h
      rw [Option.eq_none_iff_forall_ne_some]
      intro cause hc
      obtain ⟨name, -, hname⟩ := (hleftover cause).mp (hhalts cause hc)
      exact h name hname
  · intro cause hc
    rw [← Findings.cause?_eq_some_iff, hcause] at hc
    exact (hleftover cause).mp (hhalts cause hc)

/-- A function whose body declares a variable twice in the same block. -/
def declaredTwice : Program :=
  let x : Variable := ⟨"x", .unresolved ⟨"int", .dummy⟩, .dummy⟩
  .build [.declareFunction Program.globalScope "f" (.unresolved ⟨"int", .dummy⟩) [],
    .scope (some ⟨1⟩), .var ⟨2⟩ x, .var ⟨2⟩ x,
    .body ⟨0⟩ ⟨false, ⟨2⟩, [.declare ⟨0⟩ none .dummy, .declare ⟨1⟩ none .dummy], .dummy⟩]

/-- A function whose body declares a variable twice keeps a type name, so its check does not finish.
-/
theorem analyze_finishes_iff_declaredTwice :
    declaredTwice.ParserShaped ∧ declaredTwice.KeepsName ⟨"int", .dummy⟩ ∧
      ∃ a, declaredTwice.analyze = some a ∧ ¬ ∃ ds, a.findings = .found ds := by
  have hshaped : declaredTwice.ParserShaped :=
    ⟨by decide +kernel, _, by decide +kernel, rfl⟩
  have hkeeps : declaredTwice.KeepsName ⟨"int", .dummy⟩ :=
    ⟨Program.globalScope, Program.reachable_globalScope _, ⟨0⟩, by decide +kernel, _, rfl,
      ⟨2⟩, ⟨1⟩, List.mem_cons_of_mem _ (List.mem_cons_of_mem _ List.mem_cons_self),
      by decide +kernel, rfl⟩
  obtain ⟨a, ha, hfinishes, -⟩ := analyze_finishes_iff hshaped
  exact ⟨hshaped, hkeeps, a, ha, fun h => hfinishes.mp h _ hkeeps⟩

end EntityLang
