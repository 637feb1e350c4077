import EntityLang.Proofs.Block.Resolved
import EntityLang.Proofs.Pattern.Resolved
import EntityLang.Proofs.Walk.Coverage

/-!
# What resolving makes of signatures

In a program as a parser builds it every declaration is bound in one scope at most, so there is one
right pattern for each: the declared one with its name replaced by what it means in that scope,
whatever the order of declarations. Resolving gives every reachable declaration that pattern, and
leaves rejected declarations alone.

Once all scopes on the chain of a scope are signed, the scope looks as it will look in the end, so
expressions may be resolved in it.
-/

namespace EntityLang

open Relation (ReflTransGen)

namespace Goal

/-- The declaration is bound, and the pattern is its declared one with the name replaced in the
scope that binds it. -/
def exactPattern (p : Program) (d : Decl) (x : Pattern) : Prop :=
  (∃ s, d ∈ p.declared s) ∧ ∀ s, d ∈ p.declared s → x = (p.declPattern d).named p s

variable {G : Goal} {p q : Program}

/-- Resolving the pattern of a declaration gives the exact pattern, now or again. -/
theorem exactPattern_resolve (hp : p.Sound) (hG : G.pattern = exactPattern p)
    (hq : G.Advance p q) {s : ScopeId} {d : Decl} (hd : d ∈ p.declared s) :
    exactPattern p d ((q.declPattern d).resolve q s).value := by
  refine ⟨⟨s, hd⟩, fun t ht => ?_⟩
  obtain rfl : s = t := hp.once s t d (.inl hd) (.inl ht)
  obtain hsame | hgood := hq.pattern d
  · rw [hsame, ← Pattern.resolve_value,
      Pattern.resolve_congr (Program.sameLookup_of_skeleton_eq hq.shape s).fetch]
  · rw [hG] at hgood
    have hnamed := hgood.2 s hd
    have hresolved : (q.declPattern d).unresolved? = none := by
      rw [hnamed, Pattern.unresolved?_named]
    rw [Pattern.resolve_of_unresolved?_eq_none hresolved]
    exact hnamed

/-- A declaration that is bound nowhere keeps its pattern. -/
theorem Advance.pattern_of_not_bound (hG : G.pattern = exactPattern p) (hq : G.Advance p q)
    {d : Decl} (hd : ∀ s, d ∉ p.declared s) : q.declPattern d = p.declPattern d := by
  obtain hsame | hgood := hq.pattern d
  · exact hsame
  · rw [hG] at hgood
    obtain ⟨s, hs⟩ := hgood.1
    exact absurd hs (hd s)

/-- All scopes that names are looked up in from `s` are reachable and signed. -/
def ChainReady (G : Goal) (p q : Program) (s : ScopeId) : Prop :=
  ∀ t ∈ s :: p.chain s, p.Reachable t ∧ G.Signed q t

/-- A scope is ready if its parent is and it is reachable and signed itself. -/
theorem ChainReady.of_parent (hp : p.Sound) {s t : ScopeId} (hs : G.ChainReady p q s)
    (hparent : (p.scope t).parent = some s) (ht : p.Reachable t) (hsigned : G.Signed q t) :
    G.ChainReady p q t := by
  intro u hu
  rw [hp.chain_of_parent hparent, List.mem_cons, List.mem_cons] at hu
  obtain rfl | rfl | hu := hu
  · exact ⟨ht, hsigned⟩
  · exact ⟨ht, hsigned⟩
  · exact hs u (List.mem_cons_of_mem _ hu)

/-- In a program as a parser builds it, a goal with the exact patterns has a plan if values and
bodies that are resolved in ready scopes are good. -/
theorem plan_of_chainReady (hp : p.ParserShaped) (hG : G.pattern = exactPattern p)
    (hvalue : ∀ {q s h e}, G.Advance p q → G.ChainReady p q s → .state h ∈ p.declared s →
      G.ChainReady p q (p.state h).scope → (q.state h).initialValue = some e →
      G.value h (e.resolve q (p.state h).scope (some (q.state h).pattern)).value)
    (hbody : ∀ {q s h b b'} {C : Walk.Course}, C.Move = G.Advance → C.Ready = G.ChainReady p →
      G.Advance p q → G.ChainReady p q s → .function h ∈ p.declared s →
      (q.function h).body = some b → b'.skeleton = b.skeleton →
      List.Forall₂ (Site.Becomes C q (some (q.function h).pattern))
        (b.sites (p.function h).scope true) (b'.sites (p.function h).scope true) → G.body h b') :
    G.Plan p (G.ChainReady p) where
  pattern hq hd := hG ▸ exactPattern_resolve hp.built.sound hG hq hd
  mono hqr hs t ht := ⟨(hs t ht).1, (hs t ht).2.mono hqr⟩
  start _ hsigned t ht := by
    obtain rfl : t = Program.globalScope := by
      obtain rfl | ht := List.mem_cons.mp ht
      · rfl
      · exact hp.built.sound.eq_of_mem_chain_globalScope ht
    exact ⟨p.reachable_globalScope, hsigned⟩
  own _ hs hd ht hsigned := by
    have hreach := (hs _ List.mem_cons_self).1.enter hd (.own ht)
    exact hs.of_parent hp.built.sound (hp.parent_own hd ht) hreach hsigned
  block _ hs hd hb hc houter hsigned := by
    have hmem := (Block.mem_scopes_iff _ _ _ _).mpr ⟨_, hc⟩
    have hreach := (hs _ List.mem_cons_self).1.enter hd (.block not_false hb hmem)
    exact houter.of_parent hp.built.sound (hp.placed hb hc) hreach hsigned
  value := hvalue
  body := hbody

end Goal

/-- The signatures of `r` are those of `p` with all names replaced that can be reached. -/
structure Program.Signs (p r : Program) : Prop where
  shape : r.skeleton = p.skeleton
  /-- What is bound in a reachable scope has its exact pattern. -/
  bound : ∀ s, p.Reachable s → ∀ d ∈ p.declared s, r.declPattern d = (p.declPattern d).named p s
  /-- What is bound nowhere keeps its pattern. -/
  unbound : ∀ d, (∀ s, d ∉ p.declared s) → r.declPattern d = p.declPattern d
  /-- What a reachable scope rejected is forgotten. -/
  rejected : ∀ s, p.Reachable s → (r.scope s).rejected = []

/-- Resolving replaces the names in all signatures that can be reached. -/
theorem Walk.resolve_signs {p : Program} (hp : p.ParserShaped) :
    resolve.Ensures p fun o => p.Signs o.program := by
  have hplan : Goal.Plan ⟨Goal.exactPattern p, fun _ _ => True, fun _ _ => True⟩ p _ :=
    Goal.plan_of_chainReady hp rfl (fun _ _ _ _ _ => trivial)
      (fun _ _ _ _ _ _ _ _ => trivial)
  refine (resolve_completes hplan).imp fun o ho => ?_
  obtain ⟨hadvance, hcomplete⟩ := ho
  rw [Program.reachable_of_skeleton_eq hadvance.shape] at hcomplete
  refine ⟨hadvance.shape, fun s hs d hd => ?_, fun d hd => ?_, fun s hs => ?_⟩
  · have hdeclared := Program.declared_of_skeleton_eq hadvance.shape s
    exact ((hcomplete s hs).1.2 d (hdeclared.symm ▸ hd)).2 s hd
  · exact hadvance.pattern_of_not_bound rfl hd
  · exact (hcomplete s hs).1.1

/-- After resolving, the pattern of a variable that a reachable scope declares is a name exactly
when the scope rejected the variable and the pattern was that name. -/
theorem Program.Signs.unresolved?_eq_some_iff {p r : Program} (hp : p.ParserShaped)
    (hr : p.Signs r) {c : ScopeId} (hc : p.Reachable c) {v : VarId}
    (hv : p.DeclaredIn c (.var v)) (name : Mention) :
    (r.var v).pattern.unresolved? = some name ↔
      .var v ∉ p.declared c ∧ (p.var v).pattern.unresolved? = some name := by
  by_cases hbound : .var v ∈ p.declared c
  · have hnamed : (r.var v).pattern = (p.var v).pattern.named p c := hr.bound c hc _ hbound
    simp [hnamed, Pattern.unresolved?_named, hbound]
  · have hsame : (r.var v).pattern = (p.var v).pattern :=
      hr.unbound (.var v) (hp.built.sound.not_bound hv hbound)
    simp [hsame, hbound]

namespace Goal

variable {G : Goal} {p q r : Program} (hp : p.Sound) (hG : G.pattern = exactPattern p)
  (hq : G.Advance p q) (hr : p.Signs r) {s : ScopeId} (hs : G.ChainReady p q s)
include hp hG hq hr hs

/-- What is declared in a scope on the chain of a ready scope, or in the scope of a property there,
has its final pattern. -/
theorem ChainReady.pattern_eq {t u : ScopeId} (ht : t ∈ s :: p.chain s)
    (hu : ReflTransGen p.Owns t u) {d : Decl} (hd : p.DeclaredIn u d) :
    q.declPattern d = r.declPattern d := by
  obtain ⟨hreach, hsigned⟩ := hs t ht
  by_cases hbound : d ∈ p.declared u
  · have hsettled := hsigned u (Program.owns_of_skeleton_eq hq.shape ▸ hu)
    have hexact := hsettled.2 d ((Program.declared_of_skeleton_eq hq.shape u).symm ▸ hbound)
    rw [hG] at hexact
    rw [hexact.2 u hbound, hr.bound u (hreach.owns hu) d hbound]
  · have hnowhere := hp.not_bound hd hbound
    rw [hq.pattern_of_not_bound hG hnowhere, hr.unbound d hnowhere]

/-- A ready scope looks as it will look in the end. -/
theorem ChainReady.sameView : q.SameView r s where
  lookup := Program.sameLookup_of_skeleton_eq (hq.shape.trans hr.shape.symm) s
  pattern d hd := by
    obtain ⟨t, ht, hd⟩ := hd
    rw [Program.chain_of_skeleton_eq hq.shape] at ht
    rw [Program.declared_of_skeleton_eq hq.shape] at hd
    exact hs.pattern_eq hp hG hq hr (List.mem_cons_of_mem _ ht) ReflTransGen.refl (.inl hd)

/-- The parameters of what is visible from a ready scope have their final patterns. -/
theorem ChainReady.sameParameters (hparameters : p.OwnsParameters) : q.SameParameters r s := by
  intro f hf v hv
  obtain ⟨t, ht, hf⟩ := hf
  rw [Program.chain_of_skeleton_eq hq.shape] at ht
  rw [Program.declared_of_skeleton_eq hq.shape] at hf
  rw [(Program.sameLookup_of_skeleton_eq hq.shape s).parameters] at hv
  have howns : p.Owns t (p.function f).scope := ⟨_, hf, rfl⟩
  exact hs.pattern_eq hp hG hq hr (List.mem_cons_of_mem _ ht) (.single howns)
    (hparameters.declaredIn hv)

/-- In a ready scope a site is resolved as it would be in the end. -/
theorem ChainReady.resolve_eq {expected : Expectation} {e : Expr}
    (hx : (Site.eval s expected e).Within p)
    (hcalls : (Site.eval s expected e).IsResolved ∨ p.OwnsParameters) (outer : Option Pattern) :
    (Site.eval s expected e).resolve q outer = (Site.eval s expected e).resolve r outer :=
  hx.resolve_congr (hs.sameView hp hG hq hr) (Program.visible_of_skeleton_eq hq.shape)
    (fun _ hv => hs.pattern_eq hp hG hq hr List.mem_cons_self ReflTransGen.refl hv)
    (hcalls.imp id (hs.sameParameters hp hG hq hr)) outer

omit hp hq hs

/-- When an initial value or a body is resolved, the declared pattern that is its hint is final. -/
theorem plan_of_signs (hp : p.ParserShaped)
    (hvalue : ∀ {q h e}, G.Advance p q → G.ChainReady p q (p.state h).scope →
      (q.state h).initialValue = some e →
      G.value h (e.resolve q (p.state h).scope (some (r.state h).pattern)).value)
    (hbody : ∀ {q h b b'} {C : Walk.Course}, C.Move = G.Advance → C.Ready = G.ChainReady p →
      G.Advance p q → (q.function h).body = some b →
      List.Forall₂ (Site.Becomes C q (some (r.function h).pattern))
        (b.sites (p.function h).scope true) (b'.sites (p.function h).scope true) → G.body h b') :
    G.Plan p (G.ChainReady p) := by
  have hfinal {q : Program} {s : ScopeId} {d : Decl} (hq : G.Advance p q)
      (hs : G.ChainReady p q s) (hd : d ∈ p.declared s) : q.declPattern d = r.declPattern d :=
    hs.pattern_eq hp.built.sound hG hq hr List.mem_cons_self ReflTransGen.refl (.inl hd)
  refine plan_of_chainReady hp hG ?_ ?_
  · intro q s h e hq hs hd hown he
    have hpattern : (q.state h).pattern = (r.state h).pattern := hfinal hq hs hd
    rw [hpattern]
    exact hvalue hq hown he
  · intro q s h b b' C hmove hready hq hs hd hb _ hbecomes
    have hpattern : (q.function h).pattern = (r.function h).pattern := hfinal hq hs hd
    rw [hpattern] at hbecomes
    exact hbody hmove hready hq hb hbecomes

end Goal

end EntityLang
