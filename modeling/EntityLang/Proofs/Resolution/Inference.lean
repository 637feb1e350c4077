import EntityLang.Proofs.Pattern.Resolved
import EntityLang.Proofs.Walk.Coverage
import EntityLang.Proofs.Walk.Termination

/-!
# Inference after resolving

The pattern that is inferred for an expression comes from a literal, from an enum or from a
declaration that the expression refers to. Where scopes are nested as a parser nests them, resolving
refers to nothing but what reachable scopes bind, and leaves no name in the patterns of that. So
after resolving, no inferred pattern is a name. What a scope rejected may keep its name, but nothing
refers to it.
-/

namespace EntityLang

/-- A block lies where its scope is nested, and expressions are source text. -/
def Site.Nested (p : Program) : Site → Prop
  | .enter outer c => p.LiesIn c outer
  | .eval _ _ e => e.IsSource
  | .declare _ _ => True

instance (p : Program) (x : Site) : Decidable (x.Nested p) :=
  match x with
  | .enter outer c => inferInstanceAs (Decidable (p.LiesIn c outer))
  | .eval _ _ e => inferInstanceAs (Decidable e.IsSource)
  | .declare _ _ => .isTrue trivial

namespace Program

/-- The program is built by calls, with the scopes of properties and blocks nested where these
stand, and with source text for expressions. Nothing is asked of parameters and of the variables
that statements name, and scopes may be shared. -/
structure Nested (p : Program) : Prop where
  built : p.Built
  /-- The scope of a property lies in the scope that binds the property. -/
  own : ∀ s ∈ p.scopes.handles, ∀ d ∈ p.declared s, ∀ t ∈ p.ownScope? d, p.LiesIn t s
  /-- Initial values are source text. -/
  values : ∀ h ∈ p.states.handles, ∀ e ∈ (p.state h).initialValue, e.IsSource
  /-- The body of a function lies in the scope of the function. -/
  bodies : ∀ h ∈ p.functions.handles, ∀ b ∈ (p.function h).body,
    ∀ x ∈ b.sites (p.function h).scope true, x.Nested p

/-- The scope and all scopes around it are reachable. -/
def ReachableChain (p : Program) (s : ScopeId) : Prop := ∀ t ∈ s :: p.chain s, p.Reachable t

section Nested

variable {p : Program} (hp : p.Nested)
include hp

/-- The scope of a declaration lies in the scope that declares it. -/
theorem Nested.liesIn_own {s t : ScopeId} {d : Decl} (hd : d ∈ p.declared s)
    (ht : p.ownScope? d = some t) : p.LiesIn t s :=
  hp.own s ((Table.mem_handles _ _).mpr (index_lt_size_of_declaredIn (.inl hd))) d hd t ht

/-- A nested program is grounded. -/
theorem Nested.grounded : p.Grounded := hp.built.sound.grounded fun _ _ _ => hp.liesIn_own

/-- Initial values are source text. -/
theorem Nested.isSource {h : StateId} {e : Expr} (he : (p.state h).initialValue = some e) :
    e.IsSource := by
  apply hp.values h ((Table.mem_handles _ _).mpr ?_) e he
  apply Table.index_lt_size
  intro hblank
  have hnone : (default : StateProperty).initialValue = none := rfl
  rw [state, hblank, hnone] at he
  exact absurd he (by simp)

/-- Everything in a body is nested. -/
theorem Nested.site {h : FunctionId} {b : Block} (hb : (p.function h).body = some b) {x : Site}
    (hx : x ∈ b.sites (p.function h).scope true) : x.Nested p := by
  apply hp.bodies h ((Table.mem_handles _ _).mpr ?_) b hb x hx
  apply Table.index_lt_size
  intro hblank
  have hnone : (default : FunctionProperty).body = none := rfl
  rw [function, hblank, hnone] at hb
  exact absurd hb (by simp)

/-- A reachable scope lies in reachable scopes only if its parent does. -/
theorem Nested.reachableChain {s t : ScopeId} (hs : p.ReachableChain s) (hts : p.LiesIn t s)
    (ht : p.Reachable t) : p.ReachableChain t := by
  intro u hu
  rw [hp.built.sound.chain_of_parent hts, List.mem_cons, List.mem_cons] at hu
  obtain rfl | rfl | hu := hu
  · exact ht
  · exact ht
  · exact hs u (List.mem_cons_of_mem _ hu)

end Nested

end Program

/-- No pattern is a name, and expressions refer to declarations of a set only. -/
def Goal.referring (A : Decl → Prop) : Goal where
  pattern _ x := x.unresolved? = none
  value _ e := e.HandlesIn A
  body _ b := ∀ e ∈ b.exprs, e.HandlesIn A

/-- What is visible from a scope that lies in reachable scopes is bound in a reachable scope. -/
theorem visible_behind {p q : Program} (hq : q.skeleton = p.skeleton) {s : ScopeId}
    (hs : p.ReachableChain s) (d : Decl) (hd : q.Visible s d) :
    p.Behind (fun _ => False) Program.globalScope d := by
  rw [Program.visible_of_skeleton_eq hq] at hd
  obtain ⟨t, ht, hd⟩ := hd
  exact ⟨t, hs t (List.mem_cons_of_mem _ ht), hd⟩

/-- In a nested program, whatever is resolved refers to what reachable scopes bind. -/
theorem Goal.referring_plan {p : Program} (hp : p.Nested) :
    (Goal.referring (p.Behind (fun _ => False) Program.globalScope)).Plan p
      fun _ => p.ReachableChain where
  pattern _ _ := Pattern.unresolved?_resolve _ _ _
  mono _ hs := hs
  start _ _ t ht := by
    obtain rfl | ht := List.mem_cons.mp ht
    · exact p.reachable_globalScope
    · rw [hp.built.sound.eq_of_mem_chain_globalScope ht]
      exact p.reachable_globalScope
  own _ hs hd ht _ := by
    have hreach := (hs _ List.mem_cons_self).enter hd (.own ht)
    exact hp.reachableChain hs (hp.liesIn_own hd ht) hreach
  block _ hs hd hb hc houter _ := by
    have hmem := (Block.mem_scopes_iff _ _ _ _).mpr ⟨_, hc⟩
    have hreach := (hs _ List.mem_cons_self).enter hd (.block not_false hb hmem)
    exact hp.reachableChain houter (hp.site hb hc) hreach
  value := by
    intro q s h e hq _ _ hown he
    have hgood := (hq.value h e he).elim (fun he => (hp.isSource he).handlesIn _) id
    exact hgood.resolve (visible_behind hq.shape hown) _
  body := by
    intro q s h b b' C hmove hready hq _ _ hb _ hbecomes e he
    obtain ⟨t, expected, he⟩ := (Block.mem_exprs_iff (p.function h).scope true b' e).mp he
    obtain ⟨expected₀, e₀, r, he₀, hr, ht, heq⟩ := Walk.exists_resolve hbecomes he
    rw [hmove] at hr
    rw [hready] at ht
    obtain ⟨-, -, rfl⟩ := Site.eval.inj heq
    have hgood : e₀.HandlesIn (p.Behind (fun _ => False) Program.globalScope) := by
      obtain hsame | hgood := hq.body h b hb
      · have hsource : e₀.IsSource := hp.site hsame he₀
        exact hsource.handlesIn _
      · exact hgood e₀ ((Block.mem_exprs_iff _ true b e₀).mpr ⟨t, expected₀, he₀⟩)
    exact hgood.resolve (visible_behind (hq.trans hr).shape ht) _

/-- The pattern of an expression is not a name if no declaration that it refers to has a name for
its pattern. -/
theorem Expr.HandlesIn.unresolved?_pattern {p : Program} {e : Expr}
    (he : e.HandlesIn fun d => (p.declPattern d).unresolved? = none) :
    (e.pattern p).unresolved? = none := by
  have hcore {x y : Pattern} (hxy : x.core = y.core) (hx : x.unresolved? = none) :
      y.unresolved? = none := by
    rwa [Pattern.unresolved?, ← hxy]
  refine Expr.pattern_induction (C := fun x => x.unresolved? = none) hcore p rfl ?_ he ?_
  · intro value
    cases value <;> rfl
  · exact fun _ _ _ _ => rfl

/-- After resolving a nested program, the pattern that is inferred for any part of a reachable
initial value or body is not a name. -/
theorem inferred_patterns_resolved {p : Program} (hp : p.Nested) :
    ∃ o, Walk.resolve p = some o ∧ ∀ s, o.program.Reachable s → ∀ d ∈ o.program.declared s,
      ∀ e ∈ o.program.ownExprs d, ∀ x ∈ e.subexprs,
        (x.pattern o.program).unresolved? = none := by
  obtain ⟨o, ho, -⟩ := Walk.keeps_pass_of_grounded hp.grounded .full p rfl
  obtain ⟨hadvance, hcomplete⟩ := Walk.resolve_completes (Goal.referring_plan hp) o ho
  refine ⟨o, ho, fun s hs d hd e he x hx => ?_⟩
  have hbound (k : Decl) (hk : p.Behind (fun _ => False) Program.globalScope k) :
      (o.program.declPattern k).unresolved? = none := by
    obtain ⟨t, ht, hk⟩ := hk
    rw [← Program.declared_of_skeleton_eq hadvance.shape] at hk
    have ht : o.program.Reachable t := Program.reachable_of_skeleton_eq hadvance.shape ▸ ht
    exact (hcomplete t ht).1.2 k hk
  have hrefers : e.HandlesIn (p.Behind (fun _ => False) Program.globalScope) := by
    have hfilled := (hcomplete s hs).2 d hd
    cases d with
    | state h => exact hfilled e (by simpa using he)
    | function h =>
      obtain ⟨b, hb, he⟩ : ∃ b, (o.program.function h).body = some b ∧ e ∈ b.exprs := by
        simpa using he
      exact (hfilled b hb).1 e he
    | _ => simp at he
  apply Expr.HandlesIn.unresolved?_pattern
  exact fun y hy k hk => hbound k (hrefers y (Expr.mem_subexprs_trans hx hy) k hk)

/-- A function whose body declares a variable of an unknown type, then one of the same name and of a
known type, and uses the name. -/
def retyped : Program :=
  let name (identity : String) : Mention := ⟨identity, .dummy⟩
  let x : Expr := .unresolved (name "x") .dummy
  .build [.declareFunction Program.globalScope "f" (.unresolved (name "int")) [],
    .scope (some ⟨1⟩), .var ⟨2⟩ ⟨"x", .unresolved (name "nothing"), .dummy⟩,
    .var ⟨2⟩ ⟨"x", .unresolved (name "int"), .dummy⟩,
    .body ⟨0⟩ ⟨true, ⟨2⟩, [.declare ⟨1⟩ none .dummy,
      .expr (.cond [⟨.binary .equal x x .dummy, x, .dummy⟩] (some x) .dummy)], .dummy⟩]

/-- The rejected variable keeps its name, which no inferred pattern shows. -/
theorem inferred_patterns_resolved_retyped :
    retyped.Nested ∧ ∃ o, Walk.resolve retyped = some o ∧
      (o.program.var ⟨1⟩).pattern.unresolved? = some ⟨"int", .dummy⟩ ∧
      .function ⟨0⟩ ∈ o.program.declared Program.globalScope ∧
      (o.program.ownExprs (.function ⟨0⟩)).length = 1 ∧
      ∀ e ∈ o.program.ownExprs (.function ⟨0⟩), ∀ x ∈ e.subexprs,
        (x.pattern o.program).unresolved? = none := by
  have hnested : retyped.Nested :=
    ⟨⟨_, by decide +kernel, rfl⟩, by decide +kernel, by decide +kernel, by decide +kernel⟩
  obtain ⟨o, ho, hinferred⟩ := inferred_patterns_resolved hnested
  have hview : (Walk.resolve retyped).map (fun o =>
      ((o.program.var ⟨1⟩).pattern.unresolved?,
        decide (.function ⟨0⟩ ∈ o.program.declared Program.globalScope),
        (o.program.ownExprs (.function ⟨0⟩)).length)) = some (some ⟨"int", .dummy⟩, true, 1) := by
    decide +kernel
  rw [ho, Option.map_some, Option.some.injEq, Prod.mk.injEq, Prod.mk.injEq, decide_eq_true_eq]
    at hview
  obtain ⟨hkept, hglobal, hlength⟩ := hview
  exact ⟨hnested, o, ho, hkept, hglobal, hlength,
    hinferred _ (Program.reachable_globalScope _) _ hglobal⟩

end EntityLang
