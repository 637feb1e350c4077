import EntityLang.Proofs.Program.Acyclic
import EntityLang.Proofs.Walk.Steps

/-!
# Walks that end

No walk changes the shape of a program. A walk ends if there is no way to go on forever from the
scope where it starts, because then something decreases along the scopes that it enters, and the
depth that a program gives to its walks is enough.

Without a circle among the scopes of properties there is no such way, whatever the bodies are like.
A program as a parser builds it has no such circle.
-/

namespace EntityLang

namespace Walk

/-- Staying within a set of programs as a way of reasoning about walks. -/
def keeping (I : Program → Prop) : Logic where
  Holds := Keeps I
  holds_pure := keeps_pure
  holds_reporting _ hQ := keeps_reporting fun q _ => hQ q
  holds_bind := keeps_bind

section Shape

variable {p : Program}

/-- The signature walk of a scope ends if the scopes of properties inside each other do and the
depth is enough for them. -/
theorem keeps_signaturesUpTo (hnodes : ∀ s, ∀ d ∈ p.declared s, p.HasNode d) {depth : Nat}
    {s : ScopeId} (hend : p.OwningEnds s) (hdepth : p.countBehind (fun _ => True) s < depth) :
    Keeps (fun q => q.skeleton = p.skeleton) (signaturesUpTo depth s) fun _ => True := by
  induction depth generalizing s with
  | zero => omega
  | succ depth ih =>
    have hvisit (d : Decl) (hd : d ∈ p.declared s) : Keeps (fun q => q.skeleton = p.skeleton)
        (declSignature (signaturesUpTo depth) s d) fun _ => True := by
      have hwrite (x : Pattern) : Keeps (fun q => q.skeleton = p.skeleton)
          (update fun q => q.setDeclPattern d x) fun _ => True :=
        keeps_update fun q hq => (Program.skeleton_setDeclPattern q d x).trans hq
      have hproperty {t : ScopeId} (ht : p.ownScope? d = some t) :
          Keeps (fun q => q.skeleton = p.skeleton) (signaturesUpTo depth t) fun _ => True := by
        have hown : p.OwningEnds t := hend.inv ⟨d, hd, ht⟩
        have hfewer := Program.countBehind_own_lt hd (hnodes s d hd) ht
          (Program.not_transGen_of_acc hown)
        exact ih hown (by omega)
      cases d with
      | var h => exact keeps_reporting_bind hwrite
      | state h =>
        refine keeps_reporting_bind fun x => keeps_bind (hwrite x) fun _ _ => ?_
        exact keeps_read_bind (fun q hq => Program.stateScope_of_skeleton_eq hq h) (hproperty rfl)
      | function h =>
        refine keeps_reporting_bind fun x => keeps_bind (hwrite x) fun _ _ => ?_
        exact keeps_read_bind (fun q hq => Program.functionScope_of_skeleton_eq hq h)
          (hproperty rfl)
      | _ => exact keeps_pure trivial
    rw [signaturesUpTo]
    refine keeps_bind (keeps_reporting_bind fun _ => keeps_update fun q hq => ?_) fun _ _ => ?_
    · exact (Program.skeleton_clearRejected q s).trans hq
    · exact keeps_read_bind (fun q hq => Program.declared_of_skeleton_eq hq s)
        (keeps_forEach hvisit)

/-- Resolving the signatures of a scope ends if the scopes of properties inside each other do. -/
theorem keeps_signatures (hnodes : ∀ s, ∀ d ∈ p.declared s, p.HasNode d) {s : ScopeId}
    (hend : p.OwningEnds s) :
    Keeps (fun q => q.skeleton = p.skeleton) (signatures s) fun _ => True := by
  intro q hq
  have hcount : q.propertyCount = p.propertyCount := by
    rw [← Program.propertyCount_skeleton, hq, Program.propertyCount_skeleton]
  apply keeps_signaturesUpTo hnodes hend ?_ q hq
  rw [Program.signatureDepth, hcount]
  exact Nat.lt_succ_of_le (p.countBehind_le _ s)

/-- Resolving the initial value of a state ends. -/
theorem keeps_initialValue (p : Program) (h : StateId) :
    Keeps (fun q => q.skeleton = p.skeleton) (initialValue h) fun _ => True := by
  refine keeps_bind (Q := fun v => v.isSome = (p.state h).initialValue.isSome)
    (keeps_reporting fun q hq => ?_) fun v hv => keeps_update fun q hq => ?_
  · rw [Expr.resolveOption_value, Option.isSome_map,
      Program.isSome_initialValue_of_skeleton_eq hq]
  · refine (Program.skeleton_setInitialValue q h v ?_).trans hq
    rw [hv, Program.isSome_initialValue_of_skeleton_eq hq]

/-- Resolving the body of a function ends if entering the scopes of the body ends. -/
theorem keeps_functionBody {h : FunctionId} {enter : ScopeId → Walk Unit}
    (henter : ∀ b, (p.function h).body = some b → ∀ c ∈ b.scopes,
      Keeps (fun q => q.skeleton = p.skeleton) (enter c) fun _ => True) :
    Keeps (fun q => q.skeleton = p.skeleton) (functionBody enter h) fun _ => True := by
  refine keeps_bind (Q := fun node => node.body.map Block.skeleton =
    (p.function h).body.map Block.skeleton) (keeps_read fun q hq => ?_) fun node hnode => ?_
  · exact Program.body_of_skeleton_eq hq h
  · cases hbody : node.body with
    | none => exact keeps_pure trivial
    | some body =>
      rw [hbody, Option.map_some, eq_comm, Option.map_eq_some_iff] at hnode
      obtain ⟨b, hb, hskeleton⟩ := hnode
      have hblock : Keeps (fun q => q.skeleton = p.skeleton)
          (body.resolve enter (some node.pattern)) fun b' => b'.skeleton = body.skeleton := by
        apply (keeping _).holds_block (p.function h).scope
        intro o c hc
        apply henter b hb c
        rw [← Block.scopes_skeleton, hskeleton, Block.scopes_skeleton]
        exact (Block.mem_scopes_iff _ false body c).mpr ⟨o, hc⟩
      refine keeps_bind hblock fun b' hb' => keeps_update fun q hq => ?_
      refine (Program.skeleton_setBody q h b' ?_).trans hq
      rw [Program.body_of_skeleton_eq hq h, hb, Option.map_some, hskeleton, hb']

/-- The body walk of a scope ends if there is no way to go down forever and the depth is enough. -/
theorem keeps_bodiesUpTo (hnodes : ∀ s, ∀ d ∈ p.declared s, p.HasNode d) {depth : Nat}
    {busy : List FunctionId} {s : ScopeId} (hend : p.DescentEnds (busy, s))
    (hdepth : p.descentRank (busy, s) < depth) :
    Keeps (fun q => q.skeleton = p.skeleton) (bodiesUpTo depth busy s) fun _ => True := by
  induction depth generalizing busy s with
  | zero => omega
  | succ depth ih =>
    have hstep {busy' : List FunctionId} {t : ScopeId} (h : p.Descends (busy, s) (busy', t)) :
        p.OwningEnds t ∧ Keeps (fun q => q.skeleton = p.skeleton) (bodiesUpTo depth busy' t)
          fun _ => True := by
      have hdown : p.DescentEnds (busy', t) := hend.inv h
      have hlower :=
        Program.descentRank_lt h (hnodes s) (Program.not_transGen_of_acc hdown.owning)
      exact ⟨hdown.owning, ih hdown (by omega)⟩
    have hvisit (d : Decl) (hd : d ∈ p.declared s) : Keeps (fun q => q.skeleton = p.skeleton)
        (declBody (bodiesUpTo depth) busy d) fun _ => True := by
      have hproperty {t : ScopeId} (ht : p.ownScope? d = some t) :
          Keeps (fun q => q.skeleton = p.skeleton) (bodiesUpTo depth busy t) fun _ => True :=
        (hstep (.own hd ht)).2
      cases d with
      | state h =>
        refine keeps_read_bind (fun q hq => Program.stateScope_of_skeleton_eq hq h) ?_
        exact keeps_bind (hproperty rfl) fun _ _ => keeps_initialValue p h
      | function h =>
        refine keeps_read_bind (fun q hq => Program.functionScope_of_skeleton_eq hq h) ?_
        refine keeps_bind (hproperty rfl) fun _ _ => ?_
        by_cases hbusy : h ∈ busy
        · rw [if_pos hbusy]
          exact keeps_pure trivial
        · rw [if_neg hbusy]
          refine keeps_functionBody fun b hb c hc => ?_
          obtain ⟨hown, hbodies⟩ := hstep (.block hd hbusy hb hc)
          exact keeps_bind (keeps_signatures hnodes hown) fun _ _ => hbodies
      | _ => exact keeps_pure trivial
    rw [bodiesUpTo]
    exact keeps_read_bind (fun q hq => Program.declared_of_skeleton_eq hq s)
      (keeps_forEach hvisit)

/-- Resolving the bodies of a scope ends if there is no way to go down forever. -/
theorem keeps_bodies (hnodes : ∀ s, ∀ d ∈ p.declared s, p.HasNode d) {s : ScopeId}
    (hend : p.DescentEnds ([], s)) :
    Keeps (fun q => q.skeleton = p.skeleton) (bodies s) fun _ => True := by
  intro q hq
  have hdepth : q.bodyDepth = p.bodyDepth := by
    have hskeleton (r : Program) : r.skeleton.bodyDepth = r.bodyDepth := by
      simp [Program.bodyDepth, Program.skeleton, Program.propertyCount]
    rw [← hskeleton, hq, hskeleton]
  apply keeps_bodiesUpTo hnodes hend ?_ q hq
  rw [hdepth]
  exact p.descentRank_lt_bodyDepth ([], s)

end Shape

/-- From the global scope there is no way for the pass to go on forever. -/
def Finite (p : Program) : Pass → Prop
  | .signatures => p.OwningEnds Program.globalScope
  | .bodies | .full => p.DescentEnds ([], Program.globalScope)

/-- A pass without a way to go on forever ends. -/
theorem keeps_pass_of_finite {p : Program} (hnodes : ∀ s, ∀ d ∈ p.declared s, p.HasNode d)
    {pass : Pass} (hend : Finite p pass) :
    Keeps (fun q => q.skeleton = p.skeleton) pass.walk fun _ => True := by
  have hsignatures (h : p.OwningEnds Program.globalScope) :
      Keeps (fun q => q.skeleton = p.skeleton) signaturePass fun _ => True :=
    keeps_bind (keeps_signatures hnodes h) fun _ _ => keeps_update fun _ hq => hq
  have hbodies (h : p.DescentEnds ([], Program.globalScope)) :
      Keeps (fun q => q.skeleton = p.skeleton) bodyPass fun _ => True :=
    keeps_bind (keeps_bodies hnodes h) fun _ _ => keeps_update fun _ hq => hq
  cases pass with
  | signatures => exact hsignatures hend
  | bodies => exact hbodies hend
  | full =>
    exact keeps_bind (hsignatures (Program.DescentEnds.owning hend)) fun _ _ => hbodies hend

/-- Every pass over a program without a circle among the scopes of properties ends. -/
theorem keeps_pass_of_grounded {p : Program} (hp : p.Grounded) (pass : Pass) :
    Keeps (fun q => q.skeleton = p.skeleton) pass.walk fun _ => True := by
  have hdescent (s : ScopeId) : p.DescentEnds ([], s) := hp.wellFounded_descends.apply ([], s)
  apply keeps_pass_of_finite hp.hasNode
  cases pass with
  | signatures => exact (hdescent _).owning
  | bodies => exact hdescent _
  | full => exact hdescent _

/-- Every pass over a program as a parser builds it ends. -/
theorem keeps_pass {p : Program} (hp : p.ParserShaped) (pass : Pass) :
    Keeps (fun q => q.skeleton = p.skeleton) pass.walk fun _ => True :=
  keeps_pass_of_grounded hp.grounded pass

end Walk

open Relation (TransGen)

/-- If handles have nodes and there is no circle among parents and none among the scopes of
properties, then chains of parents end, the body walk cannot go down forever, and every pass ends,
whatever the scopes of bodies bind. -/
theorem passes_end {p : Program} (hp : p.Ranged) (hparents : ∀ s, ¬ TransGen p.LiesIn s s)
    (hown : ∀ s, ¬ TransGen p.Owns s s) :
    (∀ s : ScopeId, s.index < p.scopes.size → p.ChainEnds s) ∧
      (WellFounded fun y x => p.Descends x y) ∧ ∀ pass : Pass, ∃ o, pass.walk p = some o := by
  have hgrounded : p.Grounded := ⟨fun _ _ => hp.hasNode, hown⟩
  refine ⟨fun s hs => hp.chainEnds hparents hs, hgrounded.wellFounded_descends, fun pass => ?_⟩
  obtain ⟨o, ho, -⟩ := Walk.keeps_pass_of_grounded hgrounded pass p rfl
  exact ⟨o, ho⟩

/-- Two functions that are both bound in the scopes of both bodies, where they call each other. -/
def crossBound : Program :=
  let int := Pattern.unresolved ⟨"int", .dummy⟩
  let (f, withF) := Program.fresh.declareFunction Program.globalScope "f" int []
  let (g, withG) := withF.declareFunction Program.globalScope "g" int []
  let (c, withC) := withG.addScope (some (withG.function f).scope)
  let (d, withD) := withC.addScope (some (withC.function g).scope)
  let bindBoth (p : Program) (s : ScopeId) : Program :=
    (p.bind s "f" (.decl (.function f))).bind s "g" (.decl (.function g))
  let call (name : String) : Expr := .call (.unresolved ⟨name, .dummy⟩) [] .dummy
  ((bindBoth (bindBoth withD c) d).setBody f (.ofResult c (call "g"))).setBody g
    (.ofResult d (call "f"))

/-- All passes end on functions that are bound in each other's bodies, and in their own. -/
theorem passes_end_crossBound :
    (∀ s : ScopeId, s = ⟨3⟩ ∨ s = ⟨4⟩ →
      .function ⟨0⟩ ∈ crossBound.declared s ∧ .function ⟨1⟩ ∈ crossBound.declared s) ∧
    (crossBound.function ⟨0⟩).body.map Block.scope = some ⟨3⟩ ∧
    (crossBound.function ⟨1⟩).body.map Block.scope = some ⟨4⟩ ∧
    crossBound.Ranged ∧ ∀ pass : Pass, ∃ o, pass.walk crossBound = some o := by
  have hranged : crossBound.Ranged := by decide +kernel
  have hparents : ∀ s, ¬ TransGen crossBound.LiesIn s s := by
    have hlower : ∀ s ∈ crossBound.scopes.handles, ∀ t ∈ (crossBound.scope s).parent,
        10 - s.index < 10 - t.index := by decide +kernel
    refine Program.not_transGen_self (fun s => 10 - s.index) fun s t hst => ?_
    exact hlower s ((Table.mem_handles _ _).mpr (Program.index_lt_size_of_parent hst)) t hst
  have hown : ∀ s, ¬ TransGen crossBound.Owns s s := by
    -- The scopes of the functions bind nothing.
    have hempty : ∀ s ∈ crossBound.scopes.handles, ∀ d ∈ crossBound.declared s,
        ∀ t ∈ crossBound.ownScope? d, 10 - (crossBound.declared s).length <
          10 - (crossBound.declared t).length := by decide +kernel
    refine Program.not_transGen_self (fun s => 10 - (crossBound.declared s).length)
      fun s t hst => ?_
    obtain ⟨d, hd, ht⟩ := hst
    have hs := Program.index_lt_size_of_declaredIn (.inl hd)
    exact hempty s ((Table.mem_handles _ _).mpr hs) d hd t ht
  refine ⟨?_, by decide +kernel, by decide +kernel, hranged,
    (passes_end hranged hparents hown).2.2⟩
  rintro s (rfl | rfl) <;> decide +kernel

end EntityLang
