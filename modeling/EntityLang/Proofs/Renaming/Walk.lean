import EntityLang.Proofs.Renaming.Resolve
import EntityLang.Resolution.Pass

/-!
# Renaming and walks

A walk over a program under new handles ends exactly when it ends over the program itself. It makes
the same reports and leaves the same program behind, under new handles. There is one rule for each
way to build a walk, and one lemma for each change that a walk makes.
-/

namespace EntityLang

/-- Related values and programs, and the same reports. -/
structure Outcome.Renames {α β : Type} (ρ : Renaming) (n : Nat) (R : α → β → Prop)
    (o : Outcome α) (o' : Outcome β) : Prop where
  value : R o.value o'.value
  program : o.program.Renames ρ n o'.program
  reports : o'.reports = o.reports

namespace Walk

variable {α α' β β' : Type} {ρ : Renaming} {n : Nat} {R : α → α' → Prop} {S : β → β' → Prop}

/-- From programs that are related, both walks end with related outcomes, or neither ends. -/
def Renames (ρ : Renaming) (n : Nat) (R : α → α' → Prop) (x : Walk α) (y : Walk α') : Prop :=
  ∀ p q, p.Renames ρ n q → Option.Rel (Outcome.Renames ρ n R) (x p) (y q)

/-- Walks without a result that are related. -/
abbrev RenamesUnit (ρ : Renaming) (n : Nat) (x y : Walk Unit) : Prop :=
  Renames ρ n (fun _ _ => True) x y

/-! ### Rules -/

/-- Walks that only return related values are related. -/
theorem renames_pure {a : α} {a' : α'} (h : R a a') :
    Renames ρ n R (pure a : Walk α) (pure a' : Walk α') :=
  fun _ _ hp => .some ⟨h, hp, rfl⟩

/-- Walks in turn are related one by one. -/
theorem Renames.bind {x : Walk α} {y : Walk α'} (h : Renames ρ n R x y) {f : α → Walk β}
    {g : α' → Walk β'} (hfg : ∀ a a', R a a' → Renames ρ n S (f a) (g a')) :
    Renames ρ n S (x >>= f) (y >>= g) := by
  intro p q hp
  change Option.Rel _ (Walk.bind x f p) (Walk.bind y g q)
  have hfirst := h p q hp
  rw [Walk.bind, Walk.bind]
  generalize x p = first at hfirst ⊢
  generalize y q = first' at hfirst ⊢
  cases hfirst with
  | none => exact .none
  | @some first first' hfirst =>
    have hsecond := hfg _ _ hfirst.value _ _ hfirst.program
    simp only
    generalize f first.value first.program = second at hsecond ⊢
    generalize g first'.value first'.program = second' at hsecond ⊢
    cases hsecond with
    | none => exact .none
    | some hsecond =>
      refine .some ⟨hsecond.value, hsecond.program, ?_⟩
      rw [hfirst.reports, hsecond.reports]

/-- Walks that do not end are related. -/
theorem renames_endless : Renames ρ n R (endless : Walk α) (endless : Walk α') :=
  fun _ _ _ => .none

/-- Walks that read related values from related programs are related. -/
theorem renames_read {f : Program → α} {g : Program → α'}
    (h : ∀ p q, p.Renames ρ n q → R (f p) (g q)) : Renames ρ n R (read f) (read g) :=
  fun p q hp => .some ⟨h p q hp, hp, rfl⟩

/-- What is read of related programs is passed on. -/
theorem renames_read_bind {f : Program → α} {f' : Program → α'} {g : α → α'}
    (h : ∀ p q, p.Renames ρ n q → f' q = g (f p)) {x : α → Walk β} {y : α' → Walk β'}
    (hxy : ∀ a, Renames ρ n S (x a) (y (g a))) : Renames ρ n S (read f >>= x) (read f' >>= y) := by
  have hread : Renames ρ n (fun a a' => a' = g a) (read f) (read f') := renames_read h
  refine hread.bind ?_
  rintro a _ rfl
  exact hxy a

/-- Walks whose changes keep programs related are related. -/
theorem renames_update {f g : Program → Program}
    (h : ∀ p q, p.Renames ρ n q → (f p).Renames ρ n (g q)) :
    RenamesUnit ρ n (update f) (update g) :=
  fun p q hp => .some ⟨trivial, h p q hp, rfl⟩

/-- Walks that report alike in related programs are related. -/
theorem renames_reporting {f : Program → Reported α} {g : Program → Reported α'}
    (h : ∀ p q, p.Renames ρ n q → Reported.Related R (f p) (g q)) :
    Renames ρ n R (reporting f) (reporting g) :=
  fun p q hp => .some ⟨(h p q hp).1, hp, (h p q hp).2⟩

/-- Walks over a list are related if the visits of its members are. -/
theorem renames_forEach {visit : α → Walk Unit} {visit' : α' → Walk Unit} {f : α → α'}
    (h : ∀ a, RenamesUnit ρ n (visit a) (visit' (f a))) (as : List α) :
    RenamesUnit ρ n (forEach visit as) (forEach visit' (as.map f)) := by
  induction as with
  | nil => exact renames_pure trivial
  | cons a rest ih => exact (h a).bind fun _ _ _ => ih

end Walk

/-! ### Changes of a program -/

namespace Program.Renames

variable {ρ : Renaming} {n : Nat} {p q : Program} (h : p.Renames ρ n q)
include h

/-- Writing the pattern of a variable keeps programs related. -/
theorem setVarPattern (k : VarId) (a : Pattern) :
    (p.setVarPattern k a).Renames ρ n (q.setVarPattern (ρ.handle k) (a.rename ρ)) :=
  { h with vars := h.vars.modify k (by rintro v _ rfl; rfl) }

/-- Writing the pattern of a state keeps programs related. -/
theorem setStatePattern (k : StateId) (a : Pattern) :
    (p.setStatePattern k a).Renames ρ n (q.setStatePattern (ρ.handle k) (a.rename ρ)) :=
  { h with states := h.states.modify k fun _ _ hs => { hs with pattern := rfl } }

/-- Writing the pattern of a function keeps programs related. -/
theorem setFunctionPattern (k : FunctionId) (a : Pattern) :
    (p.setFunctionPattern k a).Renames ρ n (q.setFunctionPattern (ρ.handle k) (a.rename ρ)) :=
  { h with functions := h.functions.modify k fun _ _ hf => { hf with pattern := rfl } }

/-- Writing related initial values keeps programs related. -/
theorem setInitialValue (k : StateId) {value value' : Option Expr}
    (hvalue : Expr.RenamesOption ρ n value value') :
    (p.setInitialValue k value).Renames ρ n (q.setInitialValue (ρ.handle k) value') :=
  { h with states := h.states.modify k fun _ _ hs => { hs with initialValue := hvalue } }

/-- Writing related bodies keeps programs related. -/
theorem setBody (k : FunctionId) {b b' : Block} (hb : b.Renames ρ n b') :
    (p.setBody k b).Renames ρ n (q.setBody (ρ.handle k) b') :=
  { h with functions := h.functions.modify k fun _ _ hf => { hf with body := .some hb } }

/-- Forgetting rejected declarations keeps programs related. -/
theorem clearRejected (s : ScopeId) :
    (p.clearRejected s).Renames ρ n (q.clearRejected (ρ.handle s)) :=
  { h with scopes := h.scopes.modify s fun _ _ hs => { hs with rejected := rfl } }

/-- Recording the same phase keeps programs related. -/
theorem setPhase (phase : Phase) :
    ({ p with phase } : Program).Renames ρ n { q with phase } :=
  { h with phase := rfl }

/-! ### Signatures -/

/-- The name of a type is resolved to the renamed pattern, with the same reports. -/
theorem resolveTypeName_related (s : ScopeId) (name : Mention) :
    Reported.Related (fun a b => b = a.rename ρ) (p.resolveTypeName s name)
      (q.resolveTypeName (ρ.handle s) name) := by
  rw [resolveTypeName, resolveTypeName, h.fetch_eq]
  cases p.fetch s name.identity with
  | none => exact Reported.related_failure rfl _ _
  | some b =>
    cases b with
    | decl d => cases d <;> exact ⟨rfl, rfl⟩
    | overloaded own members => exact Reported.related_failure rfl _ _

/-- A pattern is resolved to the renamed pattern, with the same reports. -/
theorem resolvePattern_related (s : ScopeId) (a : Pattern) :
    Reported.Related (fun a b => b = a.rename ρ) (a.resolve p s)
      ((a.rename ρ).resolve q (ρ.handle s)) := by
  induction a with
  | unresolved name => exact h.resolveTypeName_related s name
  | optional inner ih =>
    refine ih.bind ?_
    rintro a _ rfl
    exact Reported.related_pure rfl
  | _ => exact Reported.related_pure rfl

/-- The reports of rejected declarations are the same. -/
theorem rejectedReports_eq (s : ScopeId) :
    q.rejectedReports (ρ.handle s) = p.rejectedReports s := by
  rw [rejectedReports, rejectedReports, (h.scope_renames s).rejected, List.map_map]
  congr 1
  funext b
  rw [Function.comp_apply, h.identity_eq, h.bindingSpan_eq]

end Program.Renames

namespace Walk

variable {ρ : Renaming} {n : Nat}

/-- The walks that report rejected declarations are related. -/
theorem reportRejected_renames (s : ScopeId) :
    RenamesUnit ρ n (reportRejected s) (reportRejected (ρ.handle s)) := by
  have hreport : RenamesUnit ρ n (reporting fun p => ⟨(), p.rejectedReports s⟩)
      (reporting fun p => ⟨(), p.rejectedReports (ρ.handle s)⟩) :=
    renames_reporting fun _ _ hp => ⟨trivial, hp.rejectedReports_eq s⟩
  exact hreport.bind fun _ _ _ => renames_update fun _ _ hp => hp.clearRejected s

/-- The declared pattern of a node is resolved alike. -/
theorem declaredPattern_renames (s : ScopeId) {declared declared' : Program → Pattern}
    (h : ∀ p q, p.Renames ρ n q → declared' q = (declared p).rename ρ) :
    Renames ρ n (fun a b => b = a.rename ρ) (reporting fun p => (declared p).resolve p s)
      (reporting fun p => (declared' p).resolve p (ρ.handle s)) := by
  refine renames_reporting fun p q hp => ?_
  rw [h p q hp]
  exact hp.resolvePattern_related s _

/-- The walks of a signature are related, if the visits of scopes are. -/
theorem declSignature_renames {visit visit' : ScopeId → Walk Unit}
    (hvisit : ∀ s, RenamesUnit ρ n (visit s) (visit' (ρ.handle s))) (s : ScopeId) (d : Decl) :
    RenamesUnit ρ n (declSignature visit s d) (declSignature visit' (ρ.handle s) (d.rename ρ)) := by
  cases d with
  | var k =>
    refine (declaredPattern_renames s fun _ _ hp => hp.varPattern_eq k).bind ?_
    rintro a _ rfl
    exact renames_update fun _ _ hp => hp.setVarPattern k a
  | state k =>
    refine (declaredPattern_renames s fun _ _ hp => (hp.state_renames k).pattern).bind ?_
    rintro a _ rfl
    exact (renames_update fun _ _ hp => hp.setStatePattern k a).bind fun _ _ _ =>
      renames_read_bind (fun _ _ hp => (hp.state_renames k).scope) hvisit
  | function k =>
    refine (declaredPattern_renames s fun _ _ hp => (hp.function_renames k).pattern).bind ?_
    rintro a _ rfl
    exact (renames_update fun _ _ hp => hp.setFunctionPattern k a).bind fun _ _ _ =>
      renames_read_bind (fun _ _ hp => (hp.function_renames k).scope) hvisit
  | _ => exact renames_pure trivial

/-- What a scope declares is walked alike. -/
theorem forEachDeclared_renames {visit visit' : Decl → Walk Unit} (s : ScopeId)
    (h : ∀ d, RenamesUnit ρ n (visit d) (visit' (d.rename ρ))) :
    RenamesUnit ρ n (do forEach visit (← read fun p => p.declared s))
      (do forEach visit' (← read fun p => p.declared (ρ.handle s))) :=
  renames_read_bind (fun _ _ hp => hp.declared_eq s) (renames_forEach h)

/-- The walks of signatures are related, to any depth. -/
theorem signaturesUpTo_renames (depth : Nat) (s : ScopeId) :
    RenamesUnit ρ n (signaturesUpTo depth s) (signaturesUpTo depth (ρ.handle s)) := by
  induction depth generalizing s with
  | zero => exact renames_endless
  | succ depth ih =>
    exact (reportRejected_renames s).bind fun _ _ _ =>
      forEachDeclared_renames s fun d => declSignature_renames ih s d

/-- The walks of the signatures from a scope on are related. -/
theorem signatures_renames (s : ScopeId) :
    RenamesUnit ρ n (signatures s) (signatures (ρ.handle s)) := by
  intro p q hp
  rw [signatures, signatures, Program.signatureDepth, Program.signatureDepth, hp.propertyCount_eq]
  exact signaturesUpTo_renames _ s p q hp

end Walk

/-! ### Bodies -/

section Blocks

variable {ρ : Renaming} {n : Nat} {enter enter' : ScopeId → Walk Unit}

/-- Expressions are resolved alike, also if what is read of the program decides on the hint. -/
theorem Expr.Renames.reporting {e e' : Expr} (h : e.Renames ρ n e') (s : ScopeId)
    {hint hint' : Program → Option Pattern}
    (hhint : ∀ p q, p.Renames ρ n q → hint' q = (hint p).map (Pattern.rename ρ)) :
    Walk.Renames ρ n (Expr.Renames ρ n) (Walk.reporting fun p => e.resolve p s (hint p))
      (Walk.reporting fun p => e'.resolve p (ρ.handle s) (hint' p)) := by
  refine Walk.renames_reporting fun p q hp => ?_
  rw [hhint p q hp]
  exact h.resolve hp s (hint p)

mutual

/-- A block is resolved alike, if entering a scope is. -/
theorem Block.Renames.resolve (henter : ∀ s, Walk.RenamesUnit ρ n (enter s) (enter' (ρ.handle s)))
    (hint : Option Pattern) : {b b' : Block} → b.Renames ρ n b' →
    Walk.Renames ρ n (Block.Renames ρ n) (b.resolve enter hint)
      (b'.resolve enter' (hint.map (Pattern.rename ρ)))
  | ⟨singleton, scope, _, span⟩, _, .mk h => by
    rw [Block.resolve, Block.resolve]
    refine (henter scope).bind fun _ _ _ => ?_
    have hlast : (if singleton then hint.map (Pattern.rename ρ) else none) =
        (if singleton then hint else none).map (Pattern.rename ρ) := by
      cases singleton <;> rfl
    rw [hlast]
    exact (h.resolve henter scope _).bind fun _ _ h => Walk.renames_pure (.mk h)

/-- The walks of related statements are related, if the entries of scopes are. -/
theorem Statement.Renames.resolve
    (henter : ∀ s, Walk.RenamesUnit ρ n (enter s) (enter' (ρ.handle s)))
    (s : ScopeId) (hint : Option Pattern) : {x x' : Statement} →
    x.Renames ρ n x' → Walk.Renames ρ n (Statement.Renames ρ n) (x.resolve enter s hint)
      (x'.resolve enter' (ρ.handle s) (hint.map (Pattern.rename ρ)))
  | _, _, .expr h => by
    rw [Statement.resolve, Statement.resolve]
    exact (h.reporting s fun _ _ _ => rfl).bind fun _ _ h => Walk.renames_pure (.expr h)
  | _, _, .block h => by
    rw [Statement.resolve, Statement.resolve]
    exact (h.resolve henter none).bind fun _ _ h => Walk.renames_pure (.block h)
  | _, _, .cond hb ho => by
    rw [Statement.resolve, Statement.resolve]
    exact (hb.resolve henter s).bind fun _ _ hb => (ho.resolve henter).bind fun _ _ ho =>
      Walk.renames_pure (.cond hb ho)
  | _, _, .forEach hr hb => by
    rw [Statement.resolve, Statement.resolve]
    exact (hr.reporting s fun _ _ _ => rfl).bind fun _ _ hr => (hb.resolve henter none).bind fun _ _ hb =>
      Walk.renames_pure (.forEach hr hb)
  | _, _, .assign hs hv => by
    rw [Statement.resolve, Statement.resolve]
    refine (hs.reporting s fun _ _ _ => rfl).bind fun subject subject' hs => ?_
    have hhint (p q : Program) (hp : p.Renames ρ n q) :
        some (subject'.pattern q) = (some (subject.pattern p)).map (Pattern.rename ρ) :=
      congrArg some (hs.pattern_eq hp)
    exact (hv.reporting s hhint).bind fun _ _ hv => Walk.renames_pure (.assign hs hv)
  | .declare target _ _, _, .declare h => by
    rw [Statement.resolve, Statement.resolve]
    have hvalue := @Walk.renames_reporting _ _ ρ n (Expr.RenamesOption ρ n)
      (fun p => Expr.resolveOption p s (some (p.var target).pattern) _)
      (fun q => Expr.resolveOption q (ρ.handle s) (some (q.var (ρ.handle target)).pattern) _)
      (fun p q hp => by
        rw [hp.varPattern_eq]
        exact h.resolve hp s (some _))
    exact hvalue.bind fun _ _ h => Walk.renames_pure (.declare h)

/-- The walks of related lists of statements are related, if the entries of scopes are. -/
theorem Statement.RenamesAll.resolve
    (henter : ∀ s, Walk.RenamesUnit ρ n (enter s) (enter' (ρ.handle s)))
    (s : ScopeId) (hint : Option Pattern) : {xs xs' : List Statement} → Statement.RenamesAll ρ n xs xs' →
    Walk.Renames ρ n (Statement.RenamesAll ρ n) (Statement.resolveAll enter s hint xs)
      (Statement.resolveAll enter' (ρ.handle s) (hint.map (Pattern.rename ρ)) xs')
  | _, _, .nil => Walk.renames_pure .nil
  | _ :: rest, _, .cons h hrest => by
    have hlast : (if rest.isEmpty then hint.map (Pattern.rename ρ) else none) =
        (if rest.isEmpty then hint else none).map (Pattern.rename ρ) := by
      cases rest.isEmpty <;> rfl
    rw [Statement.resolveAll, Statement.resolveAll, hrest.isEmpty_eq, hlast]
    exact (h.resolve henter s _).bind fun _ _ h => (hrest.resolve henter s hint).bind fun _ _ hrest =>
      Walk.renames_pure (.cons h hrest)

/-- The walks of related branches are related, if the entries of scopes are. -/
theorem Statement.RenamesBranches.resolve
    (henter : ∀ s, Walk.RenamesUnit ρ n (enter s) (enter' (ρ.handle s)))
    (s : ScopeId) : {bs bs' : List (Branch Block)} →
    Statement.RenamesBranches ρ n bs bs' →
    Walk.Renames ρ n (Statement.RenamesBranches ρ n) (Statement.resolveBranches enter s bs)
      (Statement.resolveBranches enter' (ρ.handle s) bs')
  | _, _, .nil => Walk.renames_pure .nil
  | _, _, .cons hc hb hrest => by
    have hbool (p q : Program) (_ : p.Renames ρ n q) :
        some .bool = (some Pattern.bool).map (Pattern.rename ρ) := by
      rw [Option.map_some, Pattern.rename_bool]
    rw [Statement.resolveBranches, Statement.resolveBranches]
    exact (hc.reporting s hbool).bind fun _ _ hc => (hb.resolve henter none).bind fun _ _ hb =>
      (hrest.resolve henter s).bind fun _ _ hrest => Walk.renames_pure (.cons hc hb hrest)

/-- The walks of related last blocks are related, if the entries of scopes are. -/
theorem Statement.RenamesOtherwise.resolve
    (henter : ∀ s, Walk.RenamesUnit ρ n (enter s) (enter' (ρ.handle s))) :
    {o o' : Option Block} → Statement.RenamesOtherwise ρ n o o' →
    Walk.Renames ρ n (Statement.RenamesOtherwise ρ n) (Statement.resolveOtherwise enter o)
      (Statement.resolveOtherwise enter' o')
  | _, _, .none => Walk.renames_pure .none
  | _, _, .some h => by
    rw [Statement.resolveOtherwise, Statement.resolveOtherwise]
    exact (h.resolve henter none).bind fun _ _ h => Walk.renames_pure (.some h)

end

end Blocks

namespace Walk

variable {ρ : Renaming} {n : Nat}

/-- The walks of an initial value are related. -/
theorem initialValue_renames (k : StateId) :
    RenamesUnit ρ n (initialValue k) (initialValue (ρ.handle k)) := by
  have hvalue : Renames ρ n (Expr.RenamesOption ρ n)
      (reporting fun p =>
        Expr.resolveOption p (p.state k).scope (some (p.state k).pattern) (p.state k).initialValue)
      (reporting fun q => Expr.resolveOption q (q.state (ρ.handle k)).scope
        (some (q.state (ρ.handle k)).pattern) (q.state (ρ.handle k)).initialValue) := by
    refine renames_reporting fun p q hp => ?_
    have hk := hp.state_renames k
    rw [hk.scope, hk.pattern]
    exact hk.initialValue.resolve hp _ (some _)
  exact hvalue.bind fun _ _ hvalue => renames_update fun _ _ hp => hp.setInitialValue k hvalue

/-- The walks of the body of a function are related, if the entries of scopes are. -/
theorem functionBody_renames {enter enter' : ScopeId → Walk Unit}
    (henter : ∀ s, RenamesUnit ρ n (enter s) (enter' (ρ.handle s))) (k : FunctionId) :
    RenamesUnit ρ n (functionBody enter k) (functionBody enter' (ρ.handle k)) := by
  have hnode : Renames ρ n (FunctionProperty.Renames ρ n) (read fun p => p.function k)
      (read fun q => q.function (ρ.handle k)) :=
    renames_read fun _ _ hp => hp.function_renames k
  refine hnode.bind fun node node' hnode => ?_
  have hbody := hnode.body
  rw [hnode.pattern]
  generalize node.body = body at hbody ⊢
  generalize node'.body = body' at hbody ⊢
  cases hbody with
  | none => exact renames_pure trivial
  | some hb =>
    exact (hb.resolve henter (some _)).bind fun _ _ hb =>
      renames_update fun _ _ hp => hp.setBody k hb

/-- The walks of what a declaration holds are related, if the visits of scopes are. -/
theorem declBody_renames {visit visit' : List FunctionId → ScopeId → Walk Unit}
    (hvisit : ∀ busy s, RenamesUnit ρ n (visit busy s) (visit' (busy.map ρ.handle) (ρ.handle s)))
    (busy : List FunctionId) (d : Decl) :
    RenamesUnit ρ n (declBody visit busy d)
      (declBody visit' (busy.map ρ.handle) (d.rename ρ)) := by
  cases d with
  | state k =>
    refine renames_read_bind (fun _ _ hp => (hp.state_renames k).scope) fun s => ?_
    exact (hvisit busy s).bind fun _ _ _ => initialValue_renames k
  | function k =>
    have hbusy : ρ.handle k ∈ busy.map ρ.handle ↔ k ∈ busy := by simp
    refine renames_read_bind (fun _ _ hp => (hp.function_renames k).scope) fun s => ?_
    refine (hvisit busy s).bind fun _ _ _ => ?_
    by_cases hk : k ∈ busy
    · rw [if_pos hk, if_pos (hbusy.mpr hk)]
      exact renames_pure trivial
    · rw [if_neg hk, if_neg fun h => hk (hbusy.mp h)]
      exact functionBody_renames
        (fun inner => (signatures_renames inner).bind fun _ _ _ => hvisit (k :: busy) inner) k
  | _ => exact renames_pure trivial

/-- The walks of bodies are related, to any depth. -/
theorem bodiesUpTo_renames (depth : Nat) (busy : List FunctionId) (s : ScopeId) :
    RenamesUnit ρ n (bodiesUpTo depth busy s)
      (bodiesUpTo depth (busy.map ρ.handle) (ρ.handle s)) := by
  induction depth generalizing busy s with
  | zero => exact renames_endless
  | succ depth ih => exact forEachDeclared_renames s fun d => declBody_renames ih busy d

/-- The walks of the bodies from a scope on are related. -/
theorem bodies_renames (s : ScopeId) : RenamesUnit ρ n (bodies s) (bodies (ρ.handle s)) := by
  intro p q hp
  rw [bodies, bodies, Program.bodyDepth, Program.bodyDepth, hp.propertyCount_eq,
    hp.functions.size_eq]
  exact bodiesUpTo_renames _ [] s p q hp

/-! ### Passes -/

/-- The passes over the signatures are related. -/
theorem signaturePass_renames : RenamesUnit ρ n signaturePass signaturePass := by
  have hsignatures : RenamesUnit ρ n (signatures Program.globalScope)
      (signatures Program.globalScope) := by
    have hglobal := @signatures_renames ρ n Program.globalScope
    rwa [ρ.handle_globalScope] at hglobal
  refine hsignatures.bind fun _ _ _ => renames_update fun p q hp => ?_
  rw [hp.phase]
  exact hp.setPhase _

/-- The passes over the bodies are related. -/
theorem bodyPass_renames : RenamesUnit ρ n bodyPass bodyPass := by
  have hbodies : RenamesUnit ρ n (bodies Program.globalScope) (bodies Program.globalScope) := by
    have hglobal := @bodies_renames ρ n Program.globalScope
    rwa [ρ.handle_globalScope] at hglobal
  exact hbodies.bind fun _ _ _ => renames_update fun _ _ hp => hp.setPhase _

/-- The full passes are related. -/
theorem resolve_renames : RenamesUnit ρ n resolve resolve :=
  signaturePass_renames.bind fun _ _ _ => bodyPass_renames

end Walk

end EntityLang
