import EntityLang.Proofs.Walk.Block
import EntityLang.Proofs.Walk.Goal
import EntityLang.Resolution.Pass

/-!
# Resolving covers everything reachable

A plan for a goal says that whatever the walks write is good, provided that it is computed at a
moment when its scope is ready. Resolving a program then makes everything good that the global scope
reaches.

The bodies inside the body of a function are walked while that function is busy. Once its own body
is written, nothing reachable from its blocks is missing: what was passed over lies behind one of
these blocks.
-/

namespace EntityLang

open Relation (ReflTransGen)

/-- What the walks compute from `p` on is good. -/
structure Goal.Plan (G : Goal) (p : Program) (Ready : Program → ScopeId → Prop) : Prop where
  /-- A resolved pattern is good. -/
  pattern : ∀ {q s d}, G.Advance p q → d ∈ p.declared s →
    G.pattern d ((q.declPattern d).resolve q s).value
  /-- A scope stays ready. -/
  mono : ∀ {q r s}, G.Advance q r → Ready q s → Ready r s
  /-- The global scope is ready once it is signed. -/
  start : ∀ {q}, G.Advance p q → G.Signed q Program.globalScope → Ready q Program.globalScope
  /-- The scope of a property is ready if the scope that binds the property is. -/
  own : ∀ {q s d t}, G.Advance p q → Ready q s → d ∈ p.declared s → p.ownScope? d = some t →
    G.Signed q t → Ready q t
  /-- The scope of a block is ready if the scope around it is. -/
  block : ∀ {q s h b outer c}, G.Advance p q → Ready q s → .function h ∈ p.declared s →
    (p.function h).body = some b → .enter outer c ∈ b.sites (p.function h).scope true →
    Ready q outer → G.Signed q c → Ready q c
  /-- An initial value that is resolved in a ready scope is good. -/
  value : ∀ {q s h e}, G.Advance p q → Ready q s → .state h ∈ p.declared s →
    Ready q (p.state h).scope → (q.state h).initialValue = some e →
    G.value h (e.resolve q (p.state h).scope (some (q.state h).pattern)).value
  /-- A body whose expressions were resolved in ready scopes is good. -/
  body : ∀ {q s h b b'} {C : Walk.Course}, C.Move = G.Advance → C.Ready = Ready →
    G.Advance p q → Ready q s → .function h ∈ p.declared s → (q.function h).body = some b →
    b'.skeleton = b.skeleton →
    List.Forall₂ (Site.Becomes C q (some (q.function h).pattern))
      (b.sites (p.function h).scope true) (b'.sites (p.function h).scope true) → G.body h b'

namespace Walk

variable {G : Goal} {p : Program} {Ready : Program → ScopeId → Prop}

/-- The signature walk of a declaration signs it, if the walk of a scope signs the scope. -/
theorem declSignature_signs (hplan : G.Plan p Ready) {visit : ScopeId → Walk Unit}
    (hvisit : ∀ t q, G.Advance p q →
      (visit t).Ensures q fun o => G.Advance q o.program ∧ G.Signed o.program t)
    {s : ScopeId} {d : Decl} {q : Program} (hq : G.Advance p q) (hd : d ∈ p.declared s) :
    (declSignature visit s d).Ensures q fun o =>
      G.Advance q o.program ∧ G.SignedDecl o.program d := by
  have hgood := hplan.pattern hq hd
  have hblank : q.declPattern d = .invalid → ((q.declPattern d).resolve q s).value = .invalid := by
    intro hinvalid
    rw [hinvalid]
    rfl
  have hstep := Goal.advance_setDeclPattern q hgood hblank
  have hself := Program.declPattern_setDeclPattern_self q d _ hblank
  have hown := Program.ownScope?_of_skeleton_eq hstep.shape d
  -- A property has a scope to visit after its pattern is written, anything else has none.
  have hproperty {t : ScopeId} (ht : q.ownScope? d = some t) : (visit t).Ensures
      (q.setDeclPattern d ((q.declPattern d).resolve q s).value) fun o =>
        G.Advance q o.program ∧ G.SignedDecl o.program d := by
    refine (hvisit t _ (hq.trans hstep)).imp fun o ho => ?_
    refine ⟨hstep.trans ho.1, ho.1.good (hself.symm ▸ hgood), fun t' ht' => ?_⟩
    rw [Program.ownScope?_of_skeleton_eq (hstep.trans ho.1).shape, ht] at ht'
    exact Option.some.inj ht' ▸ ho.2
  have hother (hnone : q.ownScope? d = none) : G.SignedDecl
      (q.setDeclPattern d ((q.declPattern d).resolve q s).value) d := by
    refine ⟨hself.symm ▸ hgood, fun t ht => ?_⟩
    rw [hown, hnone] at ht
    exact absurd ht (by simp)
  cases d with
  | var h => exact ensures_bind (ensures_reporting (ensures_update ⟨hstep, hother rfl⟩))
  | state h =>
    refine ensures_bind (ensures_reporting (ensures_bind (ensures_update (ensures_bind ?_))))
    exact ensures_read (hproperty hown.symm)
  | function h =>
    refine ensures_bind (ensures_reporting (ensures_bind (ensures_update (ensures_bind ?_))))
    exact ensures_read (hproperty hown.symm)
  | _ => exact ensures_pure ⟨hstep, hother rfl⟩

/-- The signature walk of a scope signs the scope. -/
theorem signaturesUpTo_signs (hplan : G.Plan p Ready) (depth : Nat) (s : ScopeId) (q : Program)
    (hq : G.Advance p q) :
    (signaturesUpTo depth s).Ensures q fun o =>
      G.Advance q o.program ∧ G.Signed o.program s := by
  induction depth generalizing s q with
  | zero => exact ensures_endless
  | succ depth ih =>
    have hclear : G.Advance q (q.clearRejected s) := G.advance_clearRejected q s
    have hvisit : ∀ d ∈ (q.clearRejected s).declared s, ∀ r, G.Advance (q.clearRejected s) r →
        (declSignature (signaturesUpTo depth) s d).Ensures r fun o =>
          G.Advance r o.program ∧ G.SignedDecl o.program d := by
      intro d hd r hr
      rw [Program.declared_of_skeleton_eq (hq.trans hclear).shape] at hd
      exact declSignature_signs hplan ih ((hq.trans hclear).trans hr) hd
    have hdecls := ensures_forEach (fun d r => G.SignedDecl r d) (Goal.Advance.refl G)
      Goal.Advance.trans (fun hqr h => h.mono hqr) hvisit
    rw [signaturesUpTo]
    refine ensures_bind (ensures_bind (ensures_reporting (ensures_update (ensures_bind ?_))))
    refine ensures_read (hdecls.imp fun o ho => ?_)
    obtain ⟨hmove, hsigned⟩ := ho
    refine ⟨hclear.trans hmove, Goal.signed_of_signedDecl ?_ ?_⟩
    · obtain hsame | hnil := hmove.rejected s
      · exact hsame.trans (Program.rejected_clearRejected_self q s)
      · exact hnil
    · rwa [← Program.declared_of_skeleton_eq hmove.shape] at hsigned

/-- Resolving the signatures of a scope signs the scope. -/
theorem signatures_signs (hplan : G.Plan p Ready) (s : ScopeId) {q : Program}
    (hq : G.Advance p q) :
    (signatures s).Ensures q fun o => G.Advance q o.program ∧ G.Signed o.program s :=
  signaturesUpTo_signs hplan q.signatureDepth s q hq

/-- Resolving the initial value of a state fills the state. -/
theorem initialValue_fills (hplan : G.Plan p Ready) {s : ScopeId} {h : StateId} {q : Program}
    (hq : G.Advance p q) (hs : Ready q s) (hd : .state h ∈ p.declared s)
    (hown : Ready q (p.state h).scope) :
    (initialValue h).Ensures q fun o => G.Advance q o.program ∧ G.Filled o.program (.state h) := by
  refine ensures_bind (ensures_reporting (ensures_update ?_))
  rw [Expr.resolveOption_value, Program.stateScope_of_skeleton_eq hq.shape]
  have hsome : ((q.state h).initialValue.map fun e =>
      (e.resolve q (p.state h).scope (some (q.state h).pattern)).value).isSome =
        (q.state h).initialValue.isSome := Option.isSome_map
  have hgood (e' : Expr) (he' : ((q.state h).initialValue.map fun e =>
      (e.resolve q (p.state h).scope (some (q.state h).pattern)).value) = some e') :
        G.value h e' := by
    obtain ⟨e, he, rfl⟩ := Option.map_eq_some_iff.mp he'
    exact hplan.value hq hs hd hown he
  refine ⟨Goal.advance_setInitialValue q hsome hgood, fun e' he' => hgood e' ?_⟩
  rwa [Program.initialValue_setInitialValue_self q h _ hsome] at he'

/-- What entering a scope has to achieve while the functions in `busy` are being walked. -/
def bodyCourse (hplan : G.Plan p Ready) (busy : FunctionId → Prop) : Course where
  Move := G.Advance
  Ready := Ready
  Entered q c := G.Signed q c ∧ G.Covered q busy c
  refl := Goal.Advance.refl G
  trans := Goal.Advance.trans
  ready := hplan.mono
  entered hqr h := ⟨h.1.mono hqr, h.2.mono hqr⟩

section Body

variable (hplan : G.Plan p Ready) {busy : FunctionId → Prop} {visit : ScopeId → Walk Unit}
  (hvisit : ∀ c q, G.Advance p q → Ready q c → G.Signed q c →
    (visit c).Ensures q fun o => G.Advance q o.program ∧ G.Covered o.program busy c)
  {s : ScopeId} {h : FunctionId} {q : Program} (hq : G.Advance p q) (hs : Ready q s)
  (hd : .function h ∈ p.declared s)
include hplan hvisit hq hs hd

/-- A block of a body is entered by signing its scope and then covering it. -/
theorem canEnter_body {b : Block} (hb : (q.function h).body = some b) :
    CanEnter (bodyCourse hplan busy) (fun inner => do signatures inner; visit inner) q
      (b.sites (p.function h).scope true) := by
  intro outer c hc r hr houter
  have hpr : G.Advance p r := hq.trans hr
  apply ensures_bind
  refine (signatures_signs hplan c hpr).imp fun first hfirst => ?_
  obtain ⟨hmove, hsigned⟩ := hfirst
  obtain ⟨b₀, hb₀, hskeleton⟩ : ∃ b₀, (p.function h).body = some b₀ ∧ b₀.skeleton = b.skeleton := by
    have hbody := Program.body_of_skeleton_eq hq.shape h
    rw [hb, Option.map_some, eq_comm, Option.map_eq_some_iff] at hbody
    exact hbody
  have hready : Ready first.program c :=
    hplan.block (hpr.trans hmove) (hplan.mono (hr.trans hmove) hs) hd hb₀
      (Block.mem_sites_of_skeleton_eq hskeleton.symm rfl hc) (hplan.mono hmove houter) hsigned
  refine (hvisit c _ (hpr.trans hmove) hready hsigned).imp fun second hsecond => ?_
  exact ⟨hmove.trans hsecond.1, hplan.mono hsecond.1 hready, hsigned.mono hsecond.1, hsecond.2⟩

/-- Resolving the body of a function fills the function and covers all blocks of its body. -/
theorem functionBody_fills (hown : Ready q (p.function h).scope) :
    (functionBody (fun inner => do signatures inner; visit inner) h).Ensures q fun o =>
      G.Advance q o.program ∧ G.Filled o.program (.function h) ∧
        ∀ b, (o.program.function h).body = some b →
          ∀ c ∈ b.scopes, G.Covered o.program busy c := by
  apply ensures_bind
  apply ensures_read
  cases hb : (q.function h).body with
  | none =>
    refine ensures_pure ⟨Goal.Advance.refl G q, fun b hb' => ?_, fun b hb' => ?_⟩
    · exact absurd (hb.symm.trans hb') (by simp)
    · exact absurd (hb.symm.trans hb') (by simp)
  | some b =>
    have hvisits : (b.resolve (fun inner => do signatures inner; visit inner)
        (some (q.function h).pattern)).Ensures q fun o => o.value.skeleton = b.skeleton ∧
          Visited (bodyCourse hplan busy) (some (q.function h).pattern) q o.program
            (b.sites (p.function h).scope true) (o.value.sites (p.function h).scope true) :=
      block_visits _ true b hown (canEnter_body hplan hvisit hq hs hd hb)
    refine ensures_bind (hvisits.imp fun o ho => ensures_update ?_)
    obtain ⟨hskeleton, hvisited⟩ := ho
    have hgood : G.body h o.value := hplan.body rfl rfl hq hs hd hb hskeleton hvisited.becomes
    have hbody : (o.program.function h).body.map Block.skeleton = some o.value.skeleton := by
      rw [Program.body_of_skeleton_eq hvisited.move.shape, hb, Option.map_some, hskeleton]
    have hstep : G.Advance o.program (o.program.setBody h o.value) :=
      Goal.advance_setBody o.program hbody hgood
    have hself : ((o.program.setBody h o.value).function h).body = some o.value := by
      apply Program.body_setBody_self
      intro hnone
      simp [hnone] at hbody
    have hentered : ∀ c ∈ o.value.scopes, G.Signed o.program c ∧ G.Covered o.program busy c := by
      intro c hc
      obtain ⟨outer, hc⟩ := (Block.mem_scopes_iff (p.function h).scope true o.value c).mp hc
      exact hvisited.entered outer c (Block.mem_sites_of_skeleton_eq hskeleton rfl hc)
    refine ⟨hvisited.move.trans hstep, fun b' hb' => ?_, fun b' hb' => ?_⟩
    · obtain rfl := Option.some.inj (hself.symm.trans hb')
      exact ⟨hgood, fun c hc => (hentered c hc).1.mono hstep⟩
    · obtain rfl := Option.some.inj (hself.symm.trans hb')
      exact fun c hc => (hentered c hc).2.mono hstep

end Body

/-- All that is behind a declaration is filled, busy functions apart. -/
def CoveredDecl (G : Goal) (busy : FunctionId → Prop) (q : Program) (d : Decl) : Prop :=
  (∀ t, q.Enters busy d t → G.Covered q busy t) ∧ (¬ Goal.IsBusy busy d → G.Filled q d)

/-- What is behind a declaration stays filled. -/
theorem CoveredDecl.mono {busy : FunctionId → Prop} {d : Decl} {q r : Program}
    (hqr : G.Advance q r) (h : CoveredDecl G busy q d) : CoveredDecl G busy r d :=
  ⟨fun t ht => (h.1 t (ht.of_skeleton_eq hqr.shape.symm)).mono hqr, fun hd => (h.2 hd).mono hqr⟩

/-- A scope is covered if all that is behind its declarations is filled. -/
theorem covered_of_coveredDecl {busy : FunctionId → Prop} {q : Program} {s : ScopeId}
    (h : ∀ d ∈ q.declared s, CoveredDecl G busy q d) : G.Covered q busy s := by
  intro u hu d hd hbusy
  obtain rfl | ⟨t, ⟨e, he, ht⟩, htu⟩ := hu.cases_head
  · exact (h d hd).2 hbusy
  · exact (h e he).1 t ht u htu d hd hbusy

/-- When the body of `h` is filled and its blocks are covered with `h` among the busy functions,
they are covered without `h` among them. -/
theorem covered_of_covered_cons {busy : List FunctionId} {h : FunctionId} {q : Program} {b : Block}
    (hb : (q.function h).body = some b) (hfilled : G.Filled q (.function h))
    (hcovered : ∀ c ∈ b.scopes, G.Covered q (· ∈ h :: busy) c) {c : ScopeId} (hc : c ∈ b.scopes) :
    G.Covered q (· ∈ busy) c := by
  have hbusy : (fun k => k = h ∨ k ∈ busy) = (· ∈ h :: busy) := by
    funext k
    exact propext List.mem_cons.symm
  intro u hu d hd hnot
  -- Whatever the walk passed over because of `h` lies behind one of these blocks.
  have hreach : ∃ c ∈ b.scopes, q.Reaches (· ∈ h :: busy) c u := by
    obtain hcut | ⟨b', hb', c', hc', hcut⟩ := hu.cut h
    · exact ⟨c, hc, hbusy ▸ hcut⟩
    · obtain rfl := Option.some.inj (hb.symm.trans hb')
      exact ⟨c', hc', hbusy ▸ hcut⟩
  obtain ⟨c', hc', hreach⟩ := hreach
  by_cases hdh : d = .function h
  · exact hdh ▸ hfilled
  · apply hcovered c' hc' u hreach d hd
    cases d with
    | function k =>
      intro hk
      obtain rfl | hk := List.mem_cons.mp hk
      · exact hdh rfl
      · exact hnot hk
    | _ => exact not_false

/-- The body walk of a declaration covers it, if `visit` covers the scopes that it is used for. -/
theorem declBody_covers (hplan : G.Plan p Ready) {visit : List FunctionId → ScopeId → Walk Unit}
    (hvisit : ∀ busy c q, G.Advance p q → Ready q c → G.Signed q c → (visit busy c).Ensures q
      fun o => G.Advance q o.program ∧ G.Covered o.program (· ∈ busy) c)
    (busy : List FunctionId) {s : ScopeId} {d : Decl} {q : Program} (hq : G.Advance p q)
    (hs : Ready q s) (hsigned : G.Signed q s) (hd : d ∈ p.declared s) :
    (declBody visit busy d).Ensures q fun o =>
      G.Advance q o.program ∧ CoveredDecl G (· ∈ busy) o.program d := by
  -- The scope of a property is covered first.
  have hproperty {t : ScopeId} (ht : q.ownScope? d = some t) : Ready q t ∧ (visit busy t).Ensures q
      fun o => G.Advance q o.program ∧ G.Covered o.program (· ∈ busy) t := by
    have htsigned := hsigned.own ((Program.declared_of_skeleton_eq hq.shape s).symm ▸ hd) ht
    have htready := hplan.own hq hs hd ((Program.ownScope?_of_skeleton_eq hq.shape d).symm.trans ht)
      htsigned
    exact ⟨htready, hvisit busy t q hq htready htsigned⟩
  cases d with
  | state h =>
    obtain ⟨hready, hcover⟩ := hproperty rfl
    refine ensures_bind (ensures_read (ensures_bind (hcover.imp fun first hfirst => ?_)))
    obtain ⟨hmove, hcovered⟩ := hfirst
    rw [Program.stateScope_of_skeleton_eq hq.shape] at hready
    refine (initialValue_fills hplan (hq.trans hmove) (hplan.mono hmove hs) hd
      (hplan.mono hmove hready)).imp fun second hsecond => ?_
    refine ⟨hmove.trans hsecond.1, fun t ht => ?_, fun _ => hsecond.2⟩
    cases ht with
    | own ht =>
      rw [Program.ownScope?_of_skeleton_eq (hmove.trans hsecond.1).shape] at ht
      exact Option.some.inj ht ▸ hcovered.mono hsecond.1
  | function h =>
    obtain ⟨hready, hcover⟩ := hproperty rfl
    refine ensures_bind (ensures_read (ensures_bind (hcover.imp fun first hfirst => ?_)))
    obtain ⟨hmove, hcovered⟩ := hfirst
    by_cases hbusy : h ∈ busy
    · rw [if_pos hbusy]
      refine ensures_pure ⟨hmove, fun t ht => ?_, fun hnot => absurd hbusy hnot⟩
      cases ht with
      | own ht =>
        rw [Program.ownScope?_of_skeleton_eq hmove.shape] at ht
        exact Option.some.inj ht ▸ hcovered
      | block hnot => exact absurd hbusy hnot
    · rw [if_neg hbusy]
      rw [Program.functionScope_of_skeleton_eq hq.shape] at hready
      refine (functionBody_fills hplan (hvisit (h :: busy)) (hq.trans hmove)
        (hplan.mono hmove hs) hd (hplan.mono hmove hready)).imp fun second hsecond => ?_
      obtain ⟨hmove', hfilled, hblocks⟩ := hsecond
      refine ⟨hmove.trans hmove', fun t ht => ?_, fun _ => hfilled⟩
      cases ht with
      | own ht =>
        rw [Program.ownScope?_of_skeleton_eq (hmove.trans hmove').shape] at ht
        exact Option.some.inj ht ▸ hcovered.mono hmove'
      | block _ hb hc => exact covered_of_covered_cons hb hfilled (hblocks _ hb) hc
  | _ =>
    refine ensures_pure ⟨Goal.Advance.refl G q, fun t ht => ?_, fun _ => trivial⟩
    cases ht with
    | own ht => exact absurd ht (by simp [Program.ownScope?])

/-- The body walk of a scope covers the scope. -/
theorem bodiesUpTo_covers (hplan : G.Plan p Ready) (depth : Nat) (busy : List FunctionId)
    (s : ScopeId) (q : Program) (hq : G.Advance p q) (hs : Ready q s) (hsigned : G.Signed q s) :
    (bodiesUpTo depth busy s).Ensures q fun o =>
      G.Advance q o.program ∧ G.Covered o.program (· ∈ busy) s := by
  induction depth generalizing busy s q with
  | zero => exact ensures_endless
  | succ depth ih =>
    have hvisit : ∀ d ∈ q.declared s, ∀ r, G.Advance q r →
        (declBody (bodiesUpTo depth) busy d).Ensures r fun o =>
          G.Advance r o.program ∧ CoveredDecl G (· ∈ busy) o.program d := by
      intro d hd r hr
      rw [Program.declared_of_skeleton_eq hq.shape] at hd
      exact declBody_covers hplan ih busy (hq.trans hr) (hplan.mono hr hs) (hsigned.mono hr) hd
    have hdecls := ensures_forEach (fun d r => CoveredDecl G (· ∈ busy) r d)
      (Goal.Advance.refl G) Goal.Advance.trans CoveredDecl.mono hvisit
    rw [bodiesUpTo]
    refine ensures_bind (ensures_read (hdecls.imp fun o ho => ⟨ho.1, ?_⟩))
    have hcovered := ho.2
    rw [← Program.declared_of_skeleton_eq ho.1.shape] at hcovered
    exact covered_of_coveredDecl hcovered

/-- After resolving, every reachable scope is settled and all that it binds is filled. -/
theorem resolve_completes (hplan : G.Plan p Ready) :
    resolve.Ensures p fun o => G.Advance p o.program ∧ ∀ s, o.program.Reachable s →
      G.Settled o.program s ∧ ∀ d ∈ o.program.declared s, G.Filled o.program d := by
  have hp := Goal.Advance.refl G p
  refine ensures_bind (ensures_bind ((signatures_signs hplan _ hp).imp fun first hfirst => ?_))
  obtain ⟨hmove, hsigned⟩ := hfirst
  apply ensures_update
  have hphase := G.advance_phase first.program first.program.phase.afterSignatures
  have hready := hplan.start (hmove.trans hphase) (hsigned.mono hphase)
  refine ensures_bind ((bodiesUpTo_covers hplan _ [] _ _ (hmove.trans hphase) hready
    (hsigned.mono hphase)).imp fun second hsecond => ensures_update ?_)
  obtain ⟨hmove', hcovered⟩ := hsecond
  have hphase' := G.advance_phase second.program .resolved
  refine ⟨((hmove.trans hphase).trans hmove').trans hphase', fun s hs => ?_⟩
  have hnone : (fun k : FunctionId => k ∈ ([] : List FunctionId)) = fun _ => False := by
    funext k
    exact eq_false List.not_mem_nil
  exact Goal.reachable_complete (((hsigned.mono hphase).mono hmove').mono hphase')
    (hnone ▸ hcovered.mono hphase') hs

end Walk

end EntityLang
