import EntityLang.Proofs.Pattern.Resolved
import EntityLang.Proofs.Walk.Coverage

/-!
# Resolving leaves no name behind

When resolving a program ends, no name is left in anything that the global scope reaches: in no
pattern of what a reachable scope binds, and at no depth of an initial value or of a body. Nothing
is assumed of the program. Its scopes may be nested in any way, functions may be bound in their own
bodies, and names may stand for nothing.
-/

namespace EntityLang

/-- No name is left. -/
def Goal.nameless : Goal where
  pattern _ x := x.unresolved? = none
  value _ e := e.IsResolved
  body _ b := ∀ e ∈ b.exprs, e.IsResolved

/-- Whatever is resolved has no name left, at any moment and in any scope. -/
theorem Goal.nameless_plan (p : Program) : Goal.nameless.Plan p fun _ _ => True where
  pattern _ _ := Pattern.unresolved?_resolve _ _ _
  mono _ _ := trivial
  start _ _ := trivial
  own _ _ _ _ _ := trivial
  block _ _ _ _ _ _ _ := trivial
  value _ _ _ _ _ := Expr.resolve_isResolved _ _ _ _
  body := by
    intro q s h b b' C _ _ _ _ _ _ _ hbecomes e he
    obtain ⟨t, expected, he⟩ := (Block.mem_exprs_iff (p.function h).scope true b' e).mp he
    obtain ⟨_, e₀, r, _, _, _, heq⟩ := Walk.exists_resolve hbecomes he
    obtain ⟨-, -, rfl⟩ := Site.eval.inj heq
    exact Expr.resolve_isResolved _ _ _ _

/-- No name is left in what a scope binds. -/
structure Program.Nameless (p : Program) (s : ScopeId) : Prop where
  /-- The core of no pattern is a name. -/
  pattern : ∀ d ∈ p.declared s, (p.declPattern d).unresolved? = none
  /-- At no depth of an initial value there is a name. -/
  value : ∀ h, .state h ∈ p.declared s → ∀ e, (p.state h).initialValue = some e → e.IsResolved
  /-- At no depth of an expression in a body there is a name. -/
  body : ∀ h, .function h ∈ p.declared s → ∀ b, (p.function h).body = some b →
    ∀ e ∈ b.exprs, e.IsResolved

/-- After resolving, no name is left in anything reachable. -/
theorem resolve_leaves_no_name {p : Program} {o : Outcome Unit} (h : Walk.resolve p = some o)
    {s : ScopeId} (hs : o.program.Reachable s) : o.program.Nameless s := by
  obtain ⟨-, hcomplete⟩ := Walk.resolve_completes (Goal.nameless_plan p) o h
  obtain ⟨hsettled, hfilled⟩ := hcomplete s hs
  refine ⟨hsettled.2, ?_, ?_⟩
  · intro k hk e he
    exact hfilled (.state k) hk e he
  · intro k hk b hb
    exact (hfilled (.function k) hk b hb).1

/-- A function that is bound in the scope of its own body, where it calls itself. -/
def selfBound : Program :=
  let int := Pattern.unresolved ⟨"int", .dummy⟩
  let (f, withFunction) := Program.fresh.declareFunction Program.globalScope "f" int [("x", int)]
  let (c, withScope) := withFunction.addScope (some (withFunction.function f).scope)
  let (v, withVar) := withScope.addVar c ⟨"y", .unresolved ⟨"unknown", .dummy⟩, .dummy⟩
  let call := Expr.call (.unresolved ⟨"f", .dummy⟩) [.unresolved ⟨"x", .dummy⟩ .dummy] .dummy
  (withVar.bind c "f" (.decl (.function f))).setBody f
    ⟨true, c, [.declare v (some call) .dummy, .expr call], .dummy⟩

/-- The scope where a function is bound in its own body is reached, and no name is left in it. -/
theorem resolve_leaves_no_name_selfBound :
    ∃ o, Walk.resolve selfBound = some o ∧ o.program.Reachable ⟨2⟩ ∧
      .function ⟨0⟩ ∈ o.program.declared ⟨2⟩ ∧ o.program.Nameless ⟨2⟩ := by
  have hends : (Walk.resolve selfBound).isSome = true := by decide +kernel
  obtain ⟨o, ho⟩ := Option.isSome_iff_exists.mp hends
  have hshape := (Walk.resolve_completes (Goal.nameless_plan selfBound) o ho).1.shape
  have hglobal : .function ⟨0⟩ ∈ selfBound.declared Program.globalScope := by decide +kernel
  have hblock : selfBound.Enters (fun _ => False) (.function ⟨0⟩) ⟨2⟩ :=
    .block not_false rfl (by decide +kernel)
  have hreach : o.program.Reachable ⟨2⟩ := by
    rw [Program.reachable_of_skeleton_eq hshape]
    exact (Program.reachable_globalScope selfBound).enter hglobal hblock
  refine ⟨o, ho, hreach, ?_, resolve_leaves_no_name ho hreach⟩
  rw [Program.declared_of_skeleton_eq hshape]
  decide +kernel

end EntityLang
