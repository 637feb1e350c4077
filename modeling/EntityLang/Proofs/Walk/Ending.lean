import EntityLang.Proofs.Walk.Block
import EntityLang.Proofs.Walk.Termination

/-!
# When walks end

A walk that ends has been down every way that leads on from the scope where it starts, so none of
them goes on forever. Since the depth that a program gives to its walks is enough for every program
without such a way, a pass ends exactly when it would end without any bound on the depth.
-/

namespace EntityLang.Walk

section Ended

variable {p : Program}

/-- The signature walk of a declaration that ends has been into the scope of the declaration. -/
theorem ensures_owningEnds_declSignature {visit : ScopeId → Walk Unit}
    (hsteps : ∀ t, (visit t).Stepwise fun _ => True)
    (hvisit : ∀ t q, q.skeleton = p.skeleton → (visit t).Ensures q fun _ => p.OwningEnds t)
    (s : ScopeId) (d : Decl) {q : Program} (hq : q.skeleton = p.skeleton) :
    (declSignature visit s d).Ensures q fun o =>
      o.program.skeleton = q.skeleton ∧ ∀ t, p.ownScope? d = some t → p.OwningEnds t := by
  have hown (x : Pattern) : (q.setDeclPattern d x).skeleton = p.skeleton :=
    (q.skeleton_setDeclPattern d x).trans hq
  have hvisited : (declSignature visit s d).Ensures q fun _ =>
      ∀ t, p.ownScope? d = some t → p.OwningEnds t := by
    -- What is read after the pattern is written is the scope that the shape fixes.
    have hread {t : ScopeId} {x : Pattern} (ht : (q.setDeclPattern d x).ownScope? d = some t) :
        (visit t).Ensures (q.setDeclPattern d x) fun _ =>
          ∀ t, p.ownScope? d = some t → p.OwningEnds t := by
      refine (hvisit t _ (hown x)).imp fun o ho u hu => ?_
      rw [← Program.ownScope?_of_skeleton_eq (hown x), ht] at hu
      exact Option.some.inj hu ▸ ho
    cases d with
    | state h =>
      refine ensures_bind (ensures_reporting (ensures_bind (ensures_update (ensures_bind ?_))))
      exact ensures_read (hread rfl)
    | function h =>
      refine ensures_bind (ensures_reporting (ensures_bind (ensures_update (ensures_bind ?_))))
      exact ensures_read (hread rfl)
    | _ => exact fun _ _ t ht => absurd ht (by simp [Program.ownScope?])
  intro o ho
  exact ⟨(stepwise_declSignature hsteps s d q o ho).1.skeleton_eq, hvisited o ho⟩

/-- A signature walk that ends has been into all scopes of properties. -/
theorem ensures_owningEnds (depth : Nat) (s : ScopeId) {q : Program}
    (hq : q.skeleton = p.skeleton) :
    (signaturesUpTo depth s).Ensures q fun _ => p.OwningEnds s := by
  induction depth generalizing s q with
  | zero => exact ensures_endless
  | succ depth ih =>
    have hclear : (q.clearRejected s).skeleton = p.skeleton :=
      (q.skeleton_clearRejected s).trans hq
    have hvisit : ∀ d ∈ (q.clearRejected s).declared s, ∀ r,
        r.skeleton = (q.clearRejected s).skeleton →
        (declSignature (signaturesUpTo depth) s d).Ensures r fun o =>
          o.program.skeleton = r.skeleton ∧ ∀ t, p.ownScope? d = some t → p.OwningEnds t :=
      fun d _ r hr => ensures_owningEnds_declSignature (stepwise_signaturesUpTo depth)
        (fun t _ => ih t) s d (hr.trans hclear)
    have hall := ensures_forEach (R := fun q r => r.skeleton = q.skeleton)
      (fun d _ => ∀ t, p.ownScope? d = some t → p.OwningEnds t) (fun _ => rfl)
      (fun hqr hrt => hrt.trans hqr) (fun _ h => h) hvisit
    rw [signaturesUpTo]
    refine ensures_bind (ensures_bind (ensures_reporting (ensures_update (ensures_bind ?_))))
    refine ensures_read (hall.imp fun o ho => Acc.intro s fun t hst => ?_)
    obtain ⟨d, hd, ht⟩ := hst
    rw [← Program.declared_of_skeleton_eq hclear] at hd
    exact ho.2 d hd t ht

/-- How programs move while a body is walked, if entering a scope establishes `Entered`. -/
def shapeCourse (Entered : ScopeId → Prop) : Course where
  Move q r := r.skeleton = q.skeleton
  Ready _ _ := True
  Entered _ c := Entered c
  refl _ := rfl
  trans hqr hrt := hrt.trans hqr
  ready _ h := h
  entered _ h := h

/-- The walk of a body that ends has been into all blocks. -/
theorem ensures_entered_functionBody {enter : ScopeId → Walk Unit} {Entered : ScopeId → Prop}
    (hsteps : ∀ c, (enter c).Stepwise fun _ => True)
    (henter : ∀ c q, q.skeleton = p.skeleton → (enter c).Ensures q fun _ => Entered c)
    (h : FunctionId) {q : Program} (hq : q.skeleton = p.skeleton) :
    (functionBody enter h).Ensures q fun _ =>
      ∀ b, (p.function h).body = some b → ∀ c ∈ b.scopes, Entered c := by
  have hbody := Program.body_of_skeleton_eq hq h
  refine ensures_bind (ensures_read ?_)
  cases hnode : (q.function h).body with
  | none =>
    refine ensures_pure fun b hb => ?_
    rw [hnode, hb] at hbody
    exact absurd hbody (by simp)
  | some b' =>
    have hcan : CanEnter (shapeCourse Entered) enter q (b'.sites (q.function h).scope true) := by
      intro outer c _ r hr _ o ho
      exact ⟨(hsteps c r o ho).1.skeleton_eq, trivial, henter c r (hr.trans hq) o ho⟩
    have hvisits : (b'.resolve enter (some (q.function h).pattern)).Ensures q fun o =>
        o.value.skeleton = b'.skeleton ∧
          Visited (shapeCourse Entered) (some (q.function h).pattern) q o.program
            (b'.sites (q.function h).scope true) (o.value.sites (q.function h).scope true) :=
      block_visits _ true b' trivial hcan
    refine ensures_bind (hvisits.imp fun o ho => ensures_update fun b hb c hc => ?_)
    rw [hnode, hb, Option.map_some, Option.map_some, Option.some.injEq] at hbody
    rw [← Block.scopes_skeleton, ← hbody, Block.scopes_skeleton] at hc
    obtain ⟨outer, hsite⟩ := (Block.mem_scopes_iff (q.function h).scope true b' c).mp hc
    exact ho.2.entered outer c hsite

/-- There is no way to go down forever through the declaration. -/
def DeclEnds (p : Program) (busy : List FunctionId) (d : Decl) : Prop :=
  (∀ t, p.ownScope? d = some t → p.DescentEnds (busy, t)) ∧
    ∀ h, d = .function h → h ∉ busy → ∀ b, (p.function h).body = some b → ∀ c ∈ b.scopes,
      p.DescentEnds (h :: busy, c)

/-- The body walk of a declaration that ends has been down all ways from it. -/
theorem ensures_descentEnds_declBody {visit : List FunctionId → ScopeId → Walk Unit}
    (hsteps : ∀ busy t, (visit busy t).Stepwise fun _ => True)
    (hvisit : ∀ busy t q, q.skeleton = p.skeleton →
      (visit busy t).Ensures q fun _ => p.DescentEnds (busy, t))
    (busy : List FunctionId) (d : Decl) {q : Program} (hq : q.skeleton = p.skeleton) :
    (declBody visit busy d).Ensures q fun o =>
      o.program.skeleton = q.skeleton ∧ DeclEnds p busy d := by
  have hread {t : ScopeId} (ht : q.ownScope? d = some t) : (visit busy t).Ensures q fun o =>
      o.program.skeleton = p.skeleton ∧
        ∀ t, p.ownScope? d = some t → p.DescentEnds (busy, t) := by
    intro o ho
    refine ⟨(hsteps busy t q o ho).1.skeleton_eq.trans hq, fun u hu => ?_⟩
    rw [← Program.ownScope?_of_skeleton_eq hq, ht] at hu
    exact Option.some.inj hu ▸ hvisit busy t q hq o ho
  have hdown : (declBody visit busy d).Ensures q fun _ => DeclEnds p busy d := by
    cases d with
    | state h =>
      refine ensures_bind (ensures_read (ensures_bind ((hread rfl).imp fun first hfirst => ?_)))
      exact fun _ _ => ⟨hfirst.2, fun h hd => absurd hd (by simp)⟩
    | function h =>
      refine ensures_bind (ensures_read (ensures_bind ((hread rfl).imp fun first hfirst => ?_)))
      by_cases hbusy : h ∈ busy
      · exact fun _ _ => ⟨hfirst.2, fun k hk hidle => absurd (by cases hk; exact hbusy) hidle⟩
      · rw [if_neg hbusy]
        have henter (c : ScopeId) (r : Program) (hr : r.skeleton = p.skeleton) :
            (signatures c >>= fun _ => visit (h :: busy) c).Ensures r fun _ =>
              p.DescentEnds (h :: busy, c) :=
          ensures_bind fun second hsecond => hvisit (h :: busy) c _
            ((stepwise_signatures c r second hsecond).1.skeleton_eq.trans hr)
        have hbody := ensures_entered_functionBody
          (fun c => stepwise_bind (stepwise_signatures c) fun _ _ => hsteps (h :: busy) c)
          henter h hfirst.1
        refine hbody.imp fun _ hentered => ⟨hfirst.2, ?_⟩
        rintro _ ⟨⟩ -
        exact hentered
    | _ =>
      exact fun _ _ => ⟨fun t ht => absurd ht (by simp [Program.ownScope?]),
        fun h hd => absurd hd (by simp)⟩
  intro o ho
  exact ⟨(stepwise_declBody hsteps busy d q o ho).1.skeleton_eq, hdown o ho⟩

/-- A body walk that ends has been down all ways. -/
theorem ensures_descentEnds (depth : Nat) (busy : List FunctionId) (s : ScopeId) {q : Program}
    (hq : q.skeleton = p.skeleton) :
    (bodiesUpTo depth busy s).Ensures q fun _ => p.DescentEnds (busy, s) := by
  induction depth generalizing busy s q with
  | zero => exact ensures_endless
  | succ depth ih =>
    have hvisit : ∀ d ∈ q.declared s, ∀ r, r.skeleton = q.skeleton →
        (declBody (bodiesUpTo depth) busy d).Ensures r fun o =>
          o.program.skeleton = r.skeleton ∧ DeclEnds p busy d :=
      fun d _ r hr => ensures_descentEnds_declBody (stepwise_bodiesUpTo depth)
        (fun busy t _ => ih busy t) busy d (hr.trans hq)
    have hall := ensures_forEach (R := fun q r => r.skeleton = q.skeleton)
      (fun d _ => DeclEnds p busy d) (fun _ => rfl) (fun hqr hrt => hrt.trans hqr)
      (fun _ h => h) hvisit
    rw [bodiesUpTo]
    refine ensures_bind (ensures_read (hall.imp fun o ho => Acc.intro (busy, s) fun y hy => ?_))
    have hdecl {d : Decl} (hd : d ∈ p.declared s) : DeclEnds p busy d :=
      ho.2 d ((Program.declared_of_skeleton_eq hq s).symm ▸ hd)
    cases hy with
    | own hd ht => exact (hdecl hd).1 _ ht
    | block hd hidle hb hc => exact (hdecl hd).2 _ rfl hidle _ hb _ hc

end Ended

/-- A pass that ends has no way to go on forever. -/
theorem finite_of_pass {p : Program} {pass : Pass} {o : Outcome Unit} (ho : pass.walk p = some o) :
    Finite p pass := by
  have hbodies {q : Program} (hq : q.skeleton = p.skeleton) {o : Outcome Unit}
      (ho : bodyPass q = some o) : p.DescentEnds ([], Program.globalScope) := by
    obtain ⟨first, -, hfirst, -⟩ := (bind_eq_some_iff _ _ _ _).mp ho
    exact ensures_descentEnds q.bodyDepth [] Program.globalScope hq first hfirst
  cases pass with
  | signatures =>
    obtain ⟨first, -, hfirst, -⟩ := (bind_eq_some_iff _ _ _ _).mp ho
    exact ensures_owningEnds p.signatureDepth Program.globalScope rfl first hfirst
  | bodies => exact hbodies rfl ho
  | full =>
    obtain ⟨first, second, hfirst, hsecond, -⟩ := (bind_eq_some_iff _ _ _ _).mp ho
    exact hbodies (stepwise_pass .signatures p first hfirst).1.skeleton_eq hsecond

/-- A pass ends exactly when there is no way for it to go on forever. -/
theorem exists_pass_iff {p : Program} (hnodes : ∀ s, ∀ d ∈ p.declared s, p.HasNode d)
    (pass : Pass) : (∃ o, pass.walk p = some o) ↔ Finite p pass := by
  constructor
  · rintro ⟨o, ho⟩
    exact finite_of_pass ho
  · intro hend
    obtain ⟨o, ho, -⟩ := keeps_pass_of_finite hnodes hend p rfl
    exact ⟨o, ho⟩

end EntityLang.Walk
