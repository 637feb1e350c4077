import EntityLang.Proofs.Resolution.Signature
import EntityLang.Proofs.Walk.Termination

/-!
# Resolving as if all at once

A walk resolves expressions one after the other, while patterns are still being resolved around it.
If the parameters of functions are declared in the scopes of the functions, the order does not
matter: every expression becomes what it would become if it were resolved in its scope against the
program that comes out in the end.
-/

namespace EntityLang

/-- Every initial value and every expression of a body is what the original one becomes when it is
resolved against `r`. -/
def Goal.reference (p r : Program) : Goal where
  pattern := exactPattern p
  value h v := ∃ e, (p.state h).initialValue = some e ∧
    Site.eval (p.state h).scope .result v =
      (Site.eval (p.state h).scope .result e).resolve r (some (r.state h).pattern)
  body h b' := ∃ b, (p.function h).body = some b ∧
    b'.sites (p.function h).scope true =
      (b.sites (p.function h).scope true).map (Site.resolve r (some (r.function h).pattern))

namespace Goal

variable {p q r : Program} (hp : p.ParserShaped) (hr : p.Signs r)
  (hq : (reference p r).Advance p q)

section Meanwhile

include hp hr hq

/-- Meanwhile an initial value refers to what is known in its scope, and is resolved to the same as
the original one. -/
theorem reference_value {h : StateId} {e : Expr} (he : (q.state h).initialValue = some e) :
    (Site.eval (p.state h).scope .result e).Within p ∧
      ∃ e₀, (p.state h).initialValue = some e₀ ∧
        (Site.eval (p.state h).scope .result e).resolve r (some (r.state h).pattern) =
          (Site.eval (p.state h).scope .result e₀).resolve r (some (r.state h).pattern) := by
  have hsource {e₀ : Expr} (he₀ : (p.state h).initialValue = some e₀) :
      (Site.eval (p.state h).scope .result e₀).Within p :=
    ⟨trivial, (hp.isSource he₀).handlesIn _⟩
  obtain hsame | ⟨e₀, he₀, heq⟩ := hq.value h e he
  · exact ⟨hsource hsame, e, hsame, rfl⟩
  · rw [heq]
    refine ⟨(hsource he₀).resolve (Program.visible_of_skeleton_eq hr.shape) _, e₀, he₀, ?_⟩
    exact Site.resolve_resolve r _ _

/-- Meanwhile the sites of a body refer to what is known in their scopes, and are resolved to the
same as the original ones. -/
theorem reference_body {h : FunctionId} {b : Block} (hb : (q.function h).body = some b) :
    (∀ x ∈ b.sites (p.function h).scope true, x.Within p) ∧
      ∃ b₀, (p.function h).body = some b₀ ∧
        (b.sites (p.function h).scope true).map (Site.resolve r (some (r.function h).pattern)) =
          (b₀.sites (p.function h).scope true).map
            (Site.resolve r (some (r.function h).pattern)) := by
  obtain hsame | ⟨b₀, hb₀, heq⟩ := hq.body h b hb
  · exact ⟨fun x hx => (hp.placed hsame hx).within, b, hsame, rfl⟩
  · rw [heq]
    refine ⟨fun x hx => ?_, b₀, hb₀, ?_⟩
    · obtain ⟨x₀, hx₀, rfl⟩ := List.mem_map.mp hx
      exact (hp.placed hb₀ hx₀).within.resolve (Program.visible_of_skeleton_eq hr.shape) _
    · rw [List.map_map]
      exact List.map_congr_left fun x _ => Site.resolve_resolve r _ x

end Meanwhile

include hp hr

/-- Resolving in ready scopes makes everything what it would become in the end. -/
theorem reference_plan (hparameters : p.OwnsParameters) :
    (reference p r).Plan p ((reference p r).ChainReady p) := by
  refine plan_of_signs rfl hr hp ?_ ?_
  · intro q h e hq hown he
    obtain ⟨hwithin, e₀, he₀, hsame⟩ := reference_value hp hr hq he
    have hresolve := hown.resolve_eq hp.built.sound rfl hq hr hwithin (.inr hparameters)
      (some (r.state h).pattern)
    exact ⟨e₀, he₀, hresolve.trans hsame⟩
  · intro q h b b' C hmove hready hq hb hbecomes
    obtain ⟨hwithin, b₀, hb₀, hsame⟩ := reference_body hp hr hq hb
    have hmap := Walk.eq_map_of_becomes (f := Site.resolve r (some (r.function h).pattern))
      hbecomes fun x hx y hxy => by
        cases x with
        | eval t expected e =>
          obtain ⟨q', hqq', ht, rfl⟩ := hxy
          rw [hmove] at hqq'
          rw [hready] at ht
          exact ht.resolve_eq hp.built.sound rfl (hq.trans hqq') hr (hwithin _ hx)
            (.inr hparameters) _
        | _ => exact hxy
    exact ⟨b₀, hb₀, hmap.trans hsame⟩

end Goal

/-- What the scope binds is in `r` what it becomes when it is resolved against `r`. -/
structure Program.ResolvesTo (p r : Program) (s : ScopeId) : Prop where
  /-- The name in a declared pattern is replaced by the type that it means in the scope. -/
  pattern : ∀ d ∈ p.declared s, r.declPattern d = (p.declPattern d).named p s
  /-- An initial value is resolved in the scope of the state, for the pattern of the state. -/
  value : ∀ h, .state h ∈ p.declared s →
    (r.state h).initialValue = (p.state h).initialValue.map fun e =>
      (e.resolve r (p.state h).scope (some (r.state h).pattern)).value
  /-- An expression in a body is resolved in the scope of its block, for what is expected there. -/
  body : ∀ h, .function h ∈ p.declared s →
    (r.function h).body.map (Block.sites (p.function h).scope true) =
      (p.function h).body.map fun b =>
        (b.sites (p.function h).scope true).map (Site.resolve r (some (r.function h).pattern))

/-- Resolving keeps the shape of a program as a parser builds it, and makes everything reachable
what it becomes when it is resolved against the outcome. -/
theorem resolve_eq_reference {p : Program} (hp : p.ParserShaped) (hparameters : p.OwnsParameters) :
    ∃ o, Walk.resolve p = some o ∧ o.program.skeleton = p.skeleton ∧
      ∀ s, p.Reachable s → p.ResolvesTo o.program s := by
  obtain ⟨o, ho, -⟩ := Walk.keeps_pass hp .full p rfl
  have hresolve : Walk.resolve p = some o := ho
  have hsigns := Walk.resolve_signs hp o hresolve
  obtain ⟨-, hcomplete⟩ :=
    Walk.resolve_completes (Goal.reference_plan hp hsigns hparameters) o hresolve
  rw [Program.reachable_of_skeleton_eq hsigns.shape] at hcomplete
  have hfilled {s : ScopeId} (hs : p.Reachable s) {d : Decl} (hd : d ∈ p.declared s) :
      (Goal.reference p o.program).Filled o.program d :=
    (hcomplete s hs).2 d (Program.declared_of_skeleton_eq hsigns.shape s ▸ hd)
  refine ⟨o, hresolve, hsigns.shape, fun s hs => ⟨hsigns.bound s hs, ?_, ?_⟩⟩
  · intro h hd
    have hsome := Program.isSome_initialValue_of_skeleton_eq hsigns.shape h
    cases hv : (o.program.state h).initialValue with
    | none =>
      rw [hv] at hsome
      have hnone : (p.state h).initialValue = none := by
        rwa [Option.isSome_none, eq_comm, Option.isSome_eq_false_iff, Option.isNone_iff_eq_none]
          at hsome
      rw [hnone, Option.map_none]
    | some v =>
      obtain ⟨e, he, heq⟩ := hfilled hs hd v hv
      obtain ⟨-, -, rfl⟩ := Site.eval.inj heq
      rw [he, Option.map_some]
      rfl
  · intro h hd
    have hskeleton := Program.body_of_skeleton_eq hsigns.shape h
    cases hb' : (o.program.function h).body with
    | none =>
      rw [hb', Option.map_none, eq_comm, Option.map_eq_none_iff] at hskeleton
      rw [hskeleton, Option.map_none, Option.map_none]
    | some b' =>
      obtain ⟨b, hb, heq⟩ := (hfilled hs hd b' hb').1
      rw [hb, Option.map_some, Option.map_some, heq]

/-- A state of an enum that is declared after it, and a function that declares a variable of the
enum and calls itself. -/
def forwardReferences : Program :=
  let name (identity : String) : Mention := ⟨identity, .dummy⟩
  .build [.declareState Program.globalScope "best" (.unresolved (name "Color")) []
      (some (.unresolved (name "red") .dummy)),
    .enum Program.globalScope "Color" [("red", .dummy), ("green", .dummy)] .dummy,
    .declareFunction Program.globalScope "f" (.unresolved (name "int"))
      [("x", .unresolved (name "int"))],
    .scope (some ⟨2⟩), .var ⟨3⟩ ⟨"y", .unresolved (name "Color"), .dummy⟩,
    .body ⟨0⟩ ⟨true, ⟨3⟩, [.declare ⟨1⟩ (some (.unresolved (name "green") .dummy)) .dummy,
      .expr (.call (.unresolved (name "f")) [.unresolved (name "x") .dummy] .dummy)], .dummy⟩]

/-- A state whose enum is declared after it gets the enum as its pattern. -/
theorem resolve_eq_reference_forwardReferences :
    forwardReferences.ParserShaped ∧ forwardReferences.OwnsParameters ∧
      ∃ o, Walk.resolve forwardReferences = some o ∧
        forwardReferences.ResolvesTo o.program Program.globalScope ∧
        o.program.declPattern (.state ⟨0⟩) = .enum ⟨0⟩ := by
  have hshaped : forwardReferences.ParserShaped :=
    ⟨by decide +kernel, _, by decide +kernel, rfl⟩
  have hparameters : forwardReferences.OwnsParameters := by decide +kernel
  obtain ⟨o, ho, -, hresolves⟩ := resolve_eq_reference hshaped hparameters
  have hglobal := hresolves _ (Program.reachable_globalScope _)
  refine ⟨hshaped, hparameters, o, ho, hglobal, ?_⟩
  rw [hglobal.pattern (.state ⟨0⟩) (by decide +kernel)]
  decide +kernel

/-- A function with a parameter that is declared in the body of another one, and a state that is
declared twice; both initial values call the function. -/
def strayParameter : Program :=
  let int := Pattern.unresolved ⟨"int", .dummy⟩
  let call := Expr.call (.unresolved ⟨"f", .dummy⟩) [.literal (.int 1) .dummy] .dummy
  .build [.declareFunction Program.globalScope "z" int [], .scope (some ⟨1⟩),
    .var ⟨2⟩ ⟨"v", int, .dummy⟩, .body ⟨0⟩ ⟨false, ⟨2⟩, [.declare ⟨0⟩ none .dummy], .dummy⟩,
    .scope (some Program.globalScope),
    .function Program.globalScope ⟨"f", int, ⟨3⟩, [⟨0⟩], none, .dummy⟩,
    .declareState Program.globalScope "a" int [] (some call),
    .declareState Program.globalScope "a" int [] (some call)]

/-- The call is resolved before the parameter has its type, so it fails, and the initial value of
the rejected state is never resolved; against the outcome both would be calls of the function. -/
theorem resolve_ne_reference_strayParameter :
    strayParameter.ParserShaped ∧ ∃ o, Walk.resolve strayParameter = some o ∧
      ∀ h ∈ strayParameter.states.handles, (o.program.state h).initialValue ≠
        (strayParameter.state h).initialValue.map fun e =>
          (e.resolve o.program (strayParameter.state h).scope
            (some (o.program.state h).pattern)).value := by
  have hshaped : strayParameter.ParserShaped :=
    ⟨by decide +kernel, _, by decide +kernel, rfl⟩
  have hends : (Walk.resolve strayParameter).isSome = true := by decide +kernel
  obtain ⟨o, ho⟩ := Option.isSome_iff_exists.mp hends
  -- What the initial values refer to, and what they would refer to.
  have hactual : ∀ h ∈ strayParameter.states.handles, (Walk.resolve strayParameter).map
      (fun o => (o.program.state h).initialValue.bind Expr.handle?) = some none := by
    decide +kernel
  have hreference : ∀ h ∈ strayParameter.states.handles, (Walk.resolve strayParameter).map
      (fun o => ((strayParameter.state h).initialValue.map fun e =>
        (e.resolve o.program (strayParameter.state h).scope
          (some (o.program.state h).pattern)).value).bind Expr.handle?) =
        some (some (.function ⟨1⟩)) := by
    decide +kernel
  refine ⟨hshaped, o, ho, fun h hh heq => ?_⟩
  have hnone := hactual h hh
  have hsome := hreference h hh
  rw [ho, Option.map_some, heq] at hnone
  rw [ho, Option.map_some, hnone] at hsome
  exact absurd hsome (by simp)

end EntityLang
