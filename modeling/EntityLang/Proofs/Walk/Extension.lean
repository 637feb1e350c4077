import EntityLang.Proofs.Program.Extension
import EntityLang.Proofs.Walk.Ending

/-!
# Walks inside larger programs

A walk over an intact program and the same walk over a program that extends it go along together:
they read the same, report the same, and the program that the one leaves is intact and extended by
the program that the other leaves. So no walk ever reads or writes a node that is not there. There
is one rule for each way to build a walk, and one lemma for each change that a walk makes.

The larger program gives more depth to its walks. That makes no difference, since each of the two
walks ends exactly when there is no way to go on forever, and these ways are the same.
-/

namespace EntityLang

/-- The first program is intact and has `n kind` nodes of each kind, and the second one extends
it. -/
structure Program.Inside (n : NodeKind → Nat) (p q : Program) : Prop where
  intact : p.Intact
  count : p.count = n
  extension : p.Extends q

/-- The same value, which satisfies `V`, the same reports, and one program inside the other. -/
structure Outcome.Mirrors {α : Type} (n : NodeKind → Nat) (V : α → Prop) (o o' : Outcome α) :
    Prop where
  value : o'.value = o.value
  valid : V o.value
  program : o.program.Inside n o'.program
  reports : o'.reports = o.reports

namespace Walk

variable {α β : Type} {n : NodeKind → Nat} {V : α → Prop} {W : β → Prop}

/-- Where the first walk ends, the second walk over a larger program ends too, with the same
value and reports. -/
def Mirrors (n : NodeKind → Nat) (V : α → Prop) (x y : Walk α) : Prop :=
  ∀ p q, p.Inside n q → x.Ensures p fun o => ∃ o', y q = some o' ∧ o.Mirrors n V o'

/-- Walks without a result that go along together. -/
abbrev MirrorsUnit (n : NodeKind → Nat) (x y : Walk Unit) : Prop := Mirrors n (fun _ => True) x y

/-- Ways to enter scopes that go along together in every scope that is there. -/
def MirrorsEntry (n : NodeKind → Nat) (enter enter' : ScopeId → Walk Unit) : Prop :=
  ∀ c : ScopeId, c.index < n .scope → MirrorsUnit n (enter c) (enter' c)

/-! ### Rules -/

/-- Walks that only return the same value go along together. -/
theorem mirrors_pure {a : α} (h : V a) : Mirrors n V (pure a : Walk α) (pure a) :=
  fun _ _ hp => ensures_pure ⟨_, rfl, rfl, h, hp, rfl⟩

/-- A walk that does not end goes along with any. -/
theorem mirrors_endless {y : Walk α} : Mirrors n V endless y := fun _ _ _ => ensures_endless

/-- Walks in turn go along together if they do one by one. -/
theorem Mirrors.bind {x y : Walk α} (h : Mirrors n V x y) {f g : α → Walk β}
    (hfg : ∀ a, V a → Mirrors n W (f a) (g a)) : Mirrors n W (x >>= f) (y >>= g) := by
  intro p q hp
  apply ensures_bind
  refine (h p q hp).imp fun first hfirst => ?_
  obtain ⟨first', hy, hfirst⟩ := hfirst
  refine (hfg first.value hfirst.valid _ _ hfirst.program).imp fun second hsecond => ?_
  obtain ⟨second', hg, hsecond⟩ := hsecond
  refine ⟨_, (bind_eq_some_iff y g q _).mpr ⟨first', second', hy, ?_, rfl⟩, hsecond.value,
    hsecond.valid, hsecond.program, ?_⟩
  · rwa [hfirst.value]
  · rw [hfirst.reports, hsecond.reports]

/-- Walks that read the same from the larger program go along together. -/
theorem mirrors_read {f : Program → α} (h : ∀ p q, p.Inside n q → f q = f p ∧ V (f p)) :
    Mirrors n V (read f) (read f) :=
  fun p q hp => ensures_read ⟨_, rfl, (h p q hp).1, (h p q hp).2, hp, rfl⟩

/-- Walks whose changes keep the one program inside the other go along together. -/
theorem mirrors_update {f : Program → Program} (h : ∀ p q, p.Inside n q → (f p).Inside n (f q)) :
    MirrorsUnit n (update f) (update f) :=
  fun p q hp => ensures_update ⟨_, rfl, rfl, trivial, h p q hp, rfl⟩

/-- Walks that report the same in the larger program go along together. -/
theorem mirrors_reporting {f : Program → Reported α}
    (h : ∀ p q, p.Inside n q → f q = f p ∧ V (f p).value) :
    Mirrors n V (reporting f) (reporting f) :=
  fun p q hp => ensures_reporting ⟨_, rfl, congrArg Reported.value (h p q hp).1, (h p q hp).2, hp,
    congrArg Reported.reports (h p q hp).1⟩

/-- Visits in turn go along together if the visit of each member does. -/
theorem mirrors_forEach {visit visit' : α → Walk Unit} {as : List α}
    (h : ∀ a ∈ as, MirrorsUnit n (visit a) (visit' a)) :
    MirrorsUnit n (forEach visit as) (forEach visit' as) := by
  induction as with
  | nil => exact mirrors_pure trivial
  | cons a rest ih =>
    rw [List.forall_mem_cons] at h
    exact h.1.bind fun _ _ => ih h.2

end Walk

namespace Program.Inside

variable {n : NodeKind → Nat} {p q : Program} (h : p.Inside n q)
include h

/-! ### What is read -/

/-- What is bound in a scope is the same, and has nodes. -/
theorem declared {s : ScopeId} (hs : s.index < n .scope) :
    q.declared s = p.declared s ∧ ∀ d ∈ p.declared s, Within n [d.ref] := by
  obtain ⟨hp, rfl, hq⟩ := h
  refine ⟨congrArg (fun x => x.bindings.values.flatMap Binding.overloads) (hq.scopes s hs).2,
    fun d hd => ?_⟩
  simpa [← hasNode_iff_count] using hp.ranged.hasNode hd

/-- The scope of a property is the same, and has a node. -/
theorem ownScope {d : Decl} (hd : Within n [d.ref]) {t : ScopeId} (ht : p.ownScope? d = some t) :
    q.ownScope? d = some t ∧ t.index < n .scope := by
  obtain ⟨hp, rfl, hq⟩ := h
  have hnode := (p.hasNode_iff_count d).mpr (within_cons.mp hd).1
  cases d with
  | state k =>
    have hrefs := hp.state hnode
    simp only [StateProperty.refs, within_append, within_cons] at hrefs
    obtain rfl := Option.some.inj ht
    exact ⟨congrArg (some ∘ StateProperty.scope) (hq.states k hnode).2, hrefs.1.2.1⟩
  | function k =>
    have hrefs := hp.function hnode
    simp only [FunctionProperty.refs, within_append, within_cons] at hrefs
    obtain rfl := Option.some.inj ht
    exact ⟨congrArg (some ∘ FunctionProperty.scope) (hq.functions k hnode).2, hrefs.1.2.1⟩
  | _ => simp [ownScope?] at ht

/-- A state that is there is the same in the larger program, with its handles in range. -/
theorem state {k : StateId} (hk : k.index < n .state) :
    q.state k = p.state k ∧ Within n (p.state k).refs := by
  obtain ⟨hp, rfl, hq⟩ := h
  exact ⟨(hq.states k hk).2, hp.state hk⟩

/-- A function that is there is the same in the larger program, with its handles in range. -/
theorem function {k : FunctionId} (hk : k.index < n .function) :
    q.function k = p.function k ∧ Within n (p.function k).refs := by
  obtain ⟨hp, rfl, hq⟩ := h
  exact ⟨(hq.functions k hk).2, hp.function hk⟩

/-- A declaration that is there has the same pattern in the larger program. -/
theorem declPattern {d : Decl} (hd : Within n [d.ref]) :
    q.declPattern d = p.declPattern d ∧ Within n (p.declPattern d).refs := by
  obtain ⟨hp, rfl, hq⟩ := h
  have hnode := (p.hasNode_iff_count d).mpr (within_cons.mp hd).1
  exact ⟨hq.grows.declPattern hnode, hp.declPattern hnode⟩

/-- An expression with its handles in range has the same pattern in the larger program. -/
theorem pattern {e : Expr} (he : Within n e.refs) :
    e.pattern q = e.pattern p ∧ Within n (e.pattern p).refs := by
  obtain ⟨hp, rfl, hq⟩ := h
  exact ⟨hq.pattern_eq he, hp.pattern he⟩

/-- The handle of `bool` is in range. -/
theorem bool : Within n Pattern.bool.refs := by
  obtain ⟨hp, rfl, -⟩ := h
  exact within_cons.mpr ⟨Nat.lt_of_lt_of_le (by decide) hp.intrinsics, within_nil⟩

variable {s : ScopeId} (hs : s.index < n .scope)
include hs

/-- A pattern is resolved in the larger program as before, and its handles are in range. -/
theorem resolvePattern {x : Pattern} (hx : Within n x.refs) :
    x.resolve q s = x.resolve p s ∧ Within n (x.resolve p s).value.refs := by
  obtain ⟨hp, rfl, hq⟩ := h
  exact ⟨hq.resolvePattern_eq hp hs x, hp.resolvePattern hs hx⟩

/-- An expression is resolved in the larger program as before, and its handles are in range. -/
theorem resolve {e : Expr} (he : Within n e.refs) {hint : Option Pattern}
    (hhint : ∀ x ∈ hint, Within n x.refs) :
    e.resolve q s hint = e.resolve p s hint ∧ Within n (e.resolve p s hint).value.refs := by
  obtain ⟨hp, rfl, hq⟩ := h
  exact ⟨hq.resolve_eq hp hs he hhint, hp.resolve hs he hhint⟩

/-- An expression that may be absent is resolved in the larger program as before. -/
theorem resolveOption {value : Option Expr} (hvalue : Within n (value.toList.flatMap Expr.refs))
    {hint : Option Pattern} (hhint : ∀ x ∈ hint, Within n x.refs) :
    Expr.resolveOption q s hint value = Expr.resolveOption p s hint value ∧
      Within n ((Expr.resolveOption p s hint value).value.toList.flatMap Expr.refs) := by
  cases value with
  | none => exact ⟨rfl, within_nil⟩
  | some e =>
    obtain ⟨heq, hwithin⟩ := h.resolve hs (by simpa using hvalue) hhint
    rw [Expr.resolveOption, Expr.resolveOption, heq]
    exact ⟨rfl, by simpa using hwithin⟩

/-! ### What is written -/

omit hs

/-- Forgetting rejected declarations keeps the one program inside the other. -/
theorem clearRejected (s : ScopeId) : (p.clearRejected s).Inside n (q.clearRejected s) := by
  obtain ⟨hp, rfl, hq⟩ := h
  exact ⟨hp.clearRejected s, p.count_modifyScope s _, { hq with scopes := hq.scopes.modify s _ }⟩

/-- Writing the pattern of a declaration keeps the one program inside the other. -/
theorem setDeclPattern {d : Decl} (hd : Within n [d.ref]) {x : Pattern} (hx : Within n x.refs) :
    (p.setDeclPattern d x).Inside n (q.setDeclPattern d x) := by
  obtain ⟨hp, rfl, hq⟩ := h
  have hnode := (within_cons.mp hd).1
  cases d with
  | var k =>
    exact ⟨hp.setVarPattern k hx, p.count_modifyVar k _, { hq with vars := hq.vars.modify k _ }⟩
  | state k =>
    exact ⟨hp.setStatePattern hnode hx, p.count_modifyState k _,
      { hq with states := hq.states.modify k _ }⟩
  | function k =>
    exact ⟨hp.setFunctionPattern hnode hx, p.count_modifyFunction k _,
      { hq with functions := hq.functions.modify k _ }⟩
  | _ => exact ⟨hp, rfl, hq⟩

/-- Writing an initial value keeps the one program inside the other. -/
theorem setInitialValue {k : StateId} (hk : k.index < n .state) {v : Option Expr}
    (hv : Within n (v.toList.flatMap Expr.refs)) :
    (p.setInitialValue k v).Inside n (q.setInitialValue k v) := by
  obtain ⟨hp, rfl, hq⟩ := h
  exact ⟨hp.setInitialValue hk hv, p.count_modifyState k _,
    { hq with states := hq.states.modify k _ }⟩

/-- Writing a body keeps the one program inside the other. -/
theorem setBody {k : FunctionId} (hk : k.index < n .function) {b : Block} (hb : Within n b.refs) :
    (p.setBody k b).Inside n (q.setBody k b) := by
  obtain ⟨hp, rfl, hq⟩ := h
  exact ⟨hp.setBody hk hb, p.count_modifyFunction k _,
    { hq with functions := hq.functions.modify k _ }⟩

/-- Recording the phase keeps the one program inside the other. -/
theorem setPhase (phase : Phase) : ({ p with phase } : Program).Inside n { q with phase } :=
  ⟨h.intact.of_ranged rfl rfl rfl (Nat.le_refl _) h.intact.ranged, h.count,
    { h.extension with phase := rfl }⟩

end Program.Inside

namespace Walk

variable {n : NodeKind → Nat}

/-! ### Signatures -/

/-- The walks that report rejected declarations go along together. -/
theorem mirrors_reportRejected {s : ScopeId} (hs : s.index < n .scope) :
    MirrorsUnit n (reportRejected s) (reportRejected s) := by
  have hreport : MirrorsUnit n (reporting fun p => ⟨(), p.rejectedReports s⟩)
      (reporting fun p => ⟨(), p.rejectedReports s⟩) := by
    refine mirrors_reporting fun p q hp => ⟨?_, trivial⟩
    obtain ⟨hp, rfl, hq⟩ := hp
    rw [hq.rejectedReports_eq hp hs]
  exact hreport.bind fun _ _ => mirrors_update fun _ _ hp => hp.clearRejected s

/-- The pattern of a declaration is resolved and written alike. -/
theorem mirrors_pattern_bind {s : ScopeId} (hs : s.index < n .scope) {d : Decl}
    (hd : Within n [d.ref]) {next next' : Walk Unit} (hnext : MirrorsUnit n next next') :
    MirrorsUnit n
      (reporting (fun p => (p.declPattern d).resolve p s) >>= fun x =>
        update (fun p => p.setDeclPattern d x) >>= fun _ => next)
      (reporting (fun p => (p.declPattern d).resolve p s) >>= fun x =>
        update (fun p => p.setDeclPattern d x) >>= fun _ => next') := by
  have hpattern : Mirrors n (fun x : Pattern => Within n x.refs)
      (reporting fun p => (p.declPattern d).resolve p s)
      (reporting fun p => (p.declPattern d).resolve p s) := by
    refine mirrors_reporting fun p q hp => ?_
    obtain ⟨heq, hwithin⟩ := hp.declPattern hd
    rw [heq]
    exact hp.resolvePattern hs hwithin
  refine hpattern.bind fun x hx => ?_
  exact (mirrors_update fun _ _ hp => hp.setDeclPattern hd hx).bind fun _ _ => hnext

/-- The scope of a property is read alike. -/
theorem mirrors_ownScope_bind {α : Type} {V : α → Prop} {d : Decl} (hd : Within n [d.ref])
    {own : Program → ScopeId} (hown : ∀ p, p.ownScope? d = some (own p))
    {x y : ScopeId → Walk α} (hxy : ∀ t : ScopeId, t.index < n .scope → Mirrors n V (x t) (y t)) :
    Mirrors n V (read own >>= x) (read own >>= y) := by
  have hread : Mirrors n (fun t : ScopeId => t.index < n .scope) (read own) (read own) := by
    refine mirrors_read fun p q hp => ?_
    obtain ⟨heq, ht⟩ := hp.ownScope hd (hown p)
    exact ⟨Option.some.inj ((hown q).symm.trans heq), ht⟩
  exact hread.bind hxy

/-- The walks of a signature go along together, if the visits of scopes do. -/
theorem mirrors_declSignature {visit visit' : ScopeId → Walk Unit}
    (hvisit : MirrorsEntry n visit visit') {s : ScopeId} (hs : s.index < n .scope) {d : Decl} (hd : Within n [d.ref]) :
    MirrorsUnit n (declSignature visit s d) (declSignature visit' s d) := by
  cases d with
  | var k => exact mirrors_pattern_bind hs hd (mirrors_pure trivial)
  | state k =>
    exact mirrors_pattern_bind hs hd (mirrors_ownScope_bind hd (fun _ => rfl) hvisit)
  | function k =>
    exact mirrors_pattern_bind hs hd (mirrors_ownScope_bind hd (fun _ => rfl) hvisit)
  | _ => exact mirrors_pure trivial

/-- What a scope declares is walked alike. -/
theorem mirrors_forEachDeclared {visit visit' : Decl → Walk Unit} {s : ScopeId}
    (hs : s.index < n .scope)
    (h : ∀ d, Within n [d.ref] → MirrorsUnit n (visit d) (visit' d)) :
    MirrorsUnit n (do forEach visit (← read fun p => p.declared s))
      (do forEach visit' (← read fun p => p.declared s)) := by
  have hread : Mirrors n (fun ds => ∀ d ∈ ds, Within n [d.ref]) (read fun p => p.declared s)
      (read fun p => p.declared s) := mirrors_read fun _ _ hp => hp.declared hs
  exact hread.bind fun ds hds => mirrors_forEach fun d hd => h d (hds d hd)

/-- More depth makes no difference to a walk that ends. -/
theorem mirrors_signaturesUpTo {depth depth' : Nat} (hdepth : depth ≤ depth') {s : ScopeId}
    (hs : s.index < n .scope) :
    MirrorsUnit n (signaturesUpTo depth s) (signaturesUpTo depth' s) := by
  induction depth generalizing depth' s with
  | zero => exact mirrors_endless
  | succ depth ih =>
    obtain ⟨depth', rfl⟩ := Nat.exists_eq_succ_of_ne_zero (n := depth') (by omega)
    exact (mirrors_reportRejected hs).bind fun _ _ =>
      mirrors_forEachDeclared hs fun d hd =>
        mirrors_declSignature (fun t ht => ih (Nat.le_of_succ_le_succ hdepth) ht) hs hd

/-- The walks of the signatures from a scope on go along together. -/
theorem mirrors_signatures {s : ScopeId} (hs : s.index < n .scope) :
    MirrorsUnit n (signatures s) (signatures s) := by
  intro p q hp
  refine mirrors_signaturesUpTo ?_ hs p q hp
  exact Nat.succ_le_succ
    (Nat.add_le_add hp.extension.states.size_le hp.extension.functions.size_le)

end Walk

/-! ### Bodies -/

section Blocks

variable {n : NodeKind → Nat} {enter enter' : ScopeId → Walk Unit}

/-- An expression is resolved alike, also if what is read of the program decides on the hint. -/
theorem Walk.mirrors_resolve {s : ScopeId} (hs : s.index < n .scope) {e : Expr}
    (he : Within n e.refs) {hint : Program → Option Pattern}
    (hhint : ∀ p q, p.Inside n q → hint q = hint p ∧ ∀ x ∈ hint p, Within n x.refs) :
    Walk.Mirrors n (fun e' : Expr => Within n e'.refs)
      (Walk.reporting fun p => e.resolve p s (hint p))
      (Walk.reporting fun p => e.resolve p s (hint p)) := by
  refine Walk.mirrors_reporting fun p q hp => ?_
  obtain ⟨heq, hwithin⟩ := hhint p q hp
  rw [heq]
  exact hp.resolve hs he hwithin

mutual

/-- A block is resolved alike, if entering its scopes is. -/
theorem Block.mirrors_resolve (henter : Walk.MirrorsEntry n enter enter') {hint : Option Pattern}
    (hhint : ∀ x ∈ hint, Within n x.refs) : (b : Block) → Within n b.refs →
    Walk.Mirrors n (fun b' : Block => Within n b'.refs) (b.resolve enter hint)
      (b.resolve enter' hint)
  | ⟨singleton, scope, statements, span⟩, hb => by
    obtain ⟨hscope, hstatements⟩ := within_cons.mp hb
    have hresult : ∀ x ∈ (if singleton then hint else none), Within n x.refs := by
      cases singleton
      · simp
      · exact hhint
    rw [Block.resolve, Block.resolve]
    refine (henter scope hscope).bind fun _ _ => ?_
    refine (Statement.mirrors_resolveAll henter hscope hresult statements hstatements).bind fun _ h => ?_
    exact Walk.mirrors_pure (within_cons.mpr ⟨hscope, h⟩)

/-- The walks of a statement go along together, if the entries of scopes do. -/
theorem Statement.mirrors_resolve (henter : Walk.MirrorsEntry n enter enter') {s : ScopeId}
    (hs : s.index < n .scope) {hint : Option Pattern} (hhint : ∀ x ∈ hint, Within n x.refs) :
    (statement : Statement) → Within n statement.refs →
    Walk.Mirrors n (fun x : Statement => Within n x.refs) (statement.resolve enter s hint)
      (statement.resolve enter' s hint)
  | .expr value, hvalue => by
    rw [Statement.resolve, Statement.resolve]
    refine (Walk.mirrors_resolve hs hvalue fun _ _ _ => ⟨rfl, hhint⟩).bind fun _ h => ?_
    exact Walk.mirrors_pure h
  | .block body, hbody => by
    rw [Statement.resolve, Statement.resolve]
    exact (Block.mirrors_resolve henter (by simp) body hbody).bind fun _ h => Walk.mirrors_pure h
  | .cond branches otherwise span, hcond => by
    obtain ⟨hbranches, hotherwise⟩ := within_append.mp hcond
    rw [Statement.resolve, Statement.resolve]
    refine (Statement.mirrors_resolveBranches henter hs branches hbranches).bind fun _ h => ?_
    refine (Statement.mirrors_resolveOtherwise henter otherwise hotherwise).bind fun _ h' => ?_
    exact Walk.mirrors_pure (within_append.mpr ⟨h, h'⟩)
  | .forEach item range body span, hloop => by
    obtain ⟨hhead, hbody⟩ := within_append.mp hloop
    obtain ⟨hitem, hrange⟩ := within_cons.mp hhead
    rw [Statement.resolve, Statement.resolve]
    refine (Walk.mirrors_resolve hs hrange fun _ _ _ => ⟨rfl, by simp⟩).bind fun _ h => ?_
    refine (Block.mirrors_resolve henter (by simp) body hbody).bind fun _ h' => ?_
    exact Walk.mirrors_pure (within_append.mpr ⟨within_cons.mpr ⟨hitem, h⟩, h'⟩)
  | .assign subject value span, hassign => by
    obtain ⟨hsubject, hvalue⟩ := within_append.mp hassign
    rw [Statement.resolve, Statement.resolve]
    refine (Walk.mirrors_resolve hs hsubject fun _ _ _ => ⟨rfl, by simp⟩).bind fun e h => ?_
    have hlike (p q : Program) (hp : p.Inside n q) : some (e.pattern q) = some (e.pattern p) ∧
        ∀ x ∈ some (e.pattern p), Within n x.refs := by
      obtain ⟨heq, hwithin⟩ := hp.pattern h
      exact ⟨congrArg some heq, by simpa using hwithin⟩
    refine (Walk.mirrors_resolve hs hvalue hlike).bind fun _ h' => ?_
    exact Walk.mirrors_pure (within_append.mpr ⟨h, h'⟩)
  | .declare target value span, hdeclare => by
    obtain ⟨htarget, hvalue⟩ := within_cons.mp hdeclare
    have hdecl : Within n [(Decl.var target).ref] := within_cons.mpr ⟨htarget, within_nil⟩
    have hresolve : Walk.Mirrors n (fun v : Option Expr => Within n (v.toList.flatMap Expr.refs))
        (Walk.reporting fun p => Expr.resolveOption p s (some (p.var target).pattern) value)
        (Walk.reporting fun p => Expr.resolveOption p s (some (p.var target).pattern) value) := by
      refine Walk.mirrors_reporting fun p q hp => ?_
      have hvar : (q.var target).pattern = (p.var target).pattern := (hp.declPattern hdecl).1
      have hwithin : Within n (p.var target).pattern.refs := (hp.declPattern hdecl).2
      rw [hvar]
      exact hp.resolveOption hs hvalue (by simpa using hwithin)
    rw [Statement.resolve, Statement.resolve]
    exact hresolve.bind fun _ h => Walk.mirrors_pure (within_cons.mpr ⟨htarget, h⟩)

/-- The walks of a list of statements go along together, if the entries of scopes do. -/
theorem Statement.mirrors_resolveAll (henter : Walk.MirrorsEntry n enter enter') {s : ScopeId}
    (hs : s.index < n .scope) {hint : Option Pattern} (hhint : ∀ x ∈ hint, Within n x.refs) :
    (statements : List Statement) → Within n (Statement.refsAll statements) →
    Walk.Mirrors n (fun xs => Within n (Statement.refsAll xs))
      (Statement.resolveAll enter s hint statements) (Statement.resolveAll enter' s hint statements)
  | [], _ => Walk.mirrors_pure within_nil
  | statement :: rest, hall => by
    obtain ⟨hstatement, hrest⟩ := within_append.mp hall
    have hlast : ∀ x ∈ (if rest.isEmpty then hint else none), Within n x.refs := by
      cases rest.isEmpty
      · simp
      · exact hhint
    rw [Statement.resolveAll, Statement.resolveAll]
    refine (Statement.mirrors_resolve henter hs hlast statement hstatement).bind fun _ h => ?_
    refine (Statement.mirrors_resolveAll henter hs hhint rest hrest).bind fun _ h' => ?_
    exact Walk.mirrors_pure (within_append.mpr ⟨h, h'⟩)

/-- The walks of branches go along together, if the entries of scopes do. -/
theorem Statement.mirrors_resolveBranches (henter : Walk.MirrorsEntry n enter enter') {s : ScopeId}
    (hs : s.index < n .scope) : (branches : List (Branch Block)) → Within n (Statement.refsBranches branches) →
    Walk.Mirrors n (fun bs => Within n (Statement.refsBranches bs))
      (Statement.resolveBranches enter s branches) (Statement.resolveBranches enter' s branches)
  | [], _ => Walk.mirrors_pure within_nil
  | ⟨condition, body, span⟩ :: rest, hall => by
    obtain ⟨hfirst, hrest⟩ := within_append.mp hall
    obtain ⟨hcondition, hbody⟩ := within_append.mp hfirst
    have htruth (p q : Program) (hp : p.Inside n q) :
        some Pattern.bool = some Pattern.bool ∧ ∀ x ∈ some Pattern.bool, Within n x.refs :=
      ⟨rfl, by simpa using hp.bool⟩
    rw [Statement.resolveBranches, Statement.resolveBranches]
    refine (Walk.mirrors_resolve hs hcondition htruth).bind fun _ hc => ?_
    refine (Block.mirrors_resolve henter (by simp) body hbody).bind fun _ hb => ?_
    refine (Statement.mirrors_resolveBranches henter hs rest hrest).bind fun _ hr => ?_
    exact Walk.mirrors_pure (within_append.mpr ⟨within_append.mpr ⟨hc, hb⟩, hr⟩)

/-- The walks of a last block go along together, if the entries of scopes do. -/
theorem Statement.mirrors_resolveOtherwise (henter : Walk.MirrorsEntry n enter enter') :
    (otherwise : Option Block) →
    Within n (Statement.refsOtherwise otherwise) →
    Walk.Mirrors n (fun b => Within n (Statement.refsOtherwise b))
      (Statement.resolveOtherwise enter otherwise) (Statement.resolveOtherwise enter' otherwise)
  | none, _ => Walk.mirrors_pure within_nil
  | some body, hbody => by
    rw [Statement.resolveOtherwise, Statement.resolveOtherwise]
    exact (Block.mirrors_resolve henter (by simp) body hbody).bind fun _ h => Walk.mirrors_pure h

end

end Blocks

namespace Walk

variable {n : NodeKind → Nat}

/-- The walks of an initial value go along together. -/
theorem mirrors_initialValue {k : StateId} (hk : k.index < n .state) :
    MirrorsUnit n (initialValue k) (initialValue k) := by
  have hvalue : Mirrors n (fun v : Option Expr => Within n (v.toList.flatMap Expr.refs))
      (reporting fun p =>
        Expr.resolveOption p (p.state k).scope (some (p.state k).pattern) (p.state k).initialValue)
      (reporting fun p => Expr.resolveOption p (p.state k).scope (some (p.state k).pattern)
        (p.state k).initialValue) := by
    refine mirrors_reporting fun p q hp => ?_
    obtain ⟨heq, hrefs⟩ := hp.state hk
    simp only [StateProperty.refs, within_append, within_cons] at hrefs
    rw [heq]
    exact hp.resolveOption hrefs.1.2.1 hrefs.2 (by simpa using hrefs.1.1)
  exact hvalue.bind fun v hv => mirrors_update fun _ _ hp => hp.setInitialValue hk hv

/-- The walks of the body of a function go along together, if the entries of scopes do. -/
theorem mirrors_functionBody {enter enter' : ScopeId → Walk Unit}
    (henter : MirrorsEntry n enter enter') {k : FunctionId} (hk : k.index < n .function) :
    MirrorsUnit n (functionBody enter k) (functionBody enter' k) := by
  have hnode : Mirrors n (fun f => Within n f.refs) (read fun p => p.function k)
      (read fun p => p.function k) := mirrors_read fun _ _ hp => hp.function hk
  refine hnode.bind fun node hrefs => ?_
  simp only [FunctionProperty.refs, within_append] at hrefs
  cases hbody : node.body with
  | none => exact mirrors_pure trivial
  | some body =>
    rw [hbody] at hrefs
    refine (Block.mirrors_resolve henter (by simpa using hrefs.1.1) body hrefs.2).bind
      fun b hb => ?_
    exact mirrors_update fun _ _ hp => hp.setBody hk hb

/-- The walks of what a declaration holds go along together, if the visits of scopes do. -/
theorem mirrors_declBody {visit visit' : List FunctionId → ScopeId → Walk Unit}
    (hvisit : ∀ busy, MirrorsEntry n (visit busy) (visit' busy)) (busy : List FunctionId) {d : Decl} (hd : Within n [d.ref]) :
    MirrorsUnit n (declBody visit busy d) (declBody visit' busy d) := by
  cases d with
  | state k =>
    refine mirrors_ownScope_bind hd (fun _ => rfl) fun t ht => ?_
    exact (hvisit busy t ht).bind fun _ _ => mirrors_initialValue (within_cons.mp hd).1
  | function k =>
    refine mirrors_ownScope_bind hd (fun _ => rfl) fun t ht => ?_
    refine (hvisit busy t ht).bind fun _ _ => ?_
    by_cases hbusy : k ∈ busy
    · rw [if_pos hbusy, if_pos hbusy]
      exact mirrors_pure trivial
    · rw [if_neg hbusy, if_neg hbusy]
      exact mirrors_functionBody (fun c hc => (mirrors_signatures hc).bind fun _ _ =>
        hvisit (k :: busy) c hc) (within_cons.mp hd).1
  | _ => exact mirrors_pure trivial

/-- The walks of bodies go along together, if the second one may go as deep as the first. -/
theorem mirrors_bodiesUpTo {depth depth' : Nat} (hdepth : depth ≤ depth')
    (busy : List FunctionId) {s : ScopeId} (hs : s.index < n .scope) :
    MirrorsUnit n (bodiesUpTo depth busy s) (bodiesUpTo depth' busy s) := by
  induction depth generalizing depth' busy s with
  | zero => exact mirrors_endless
  | succ depth ih =>
    obtain ⟨depth', rfl⟩ := Nat.exists_eq_succ_of_ne_zero (n := depth') (by omega)
    exact mirrors_forEachDeclared hs fun d hd =>
      mirrors_declBody (fun busy t ht => ih (Nat.le_of_succ_le_succ hdepth) busy ht) busy hd

/-- The walks of the bodies from a scope on go along together. -/
theorem mirrors_bodies {s : ScopeId} (hs : s.index < n .scope) :
    MirrorsUnit n (bodies s) (bodies s) := by
  intro p q hp
  have hstates := hp.extension.states.size_le
  have hfunctions := hp.extension.functions.size_le
  refine mirrors_bodiesUpTo ?_ [] hs p q hp
  exact Nat.mul_le_mul (Nat.succ_le_succ hfunctions)
    (Nat.succ_le_succ (Nat.add_le_add hstates hfunctions))

/-- A pass goes along with the same pass over a larger program. -/
theorem mirrors_pass (hglobal : Program.globalScope.index < n .scope) (pass : Pass) :
    MirrorsUnit n pass.walk pass.walk := by
  have hsignatures : MirrorsUnit n signaturePass signaturePass := by
    refine (mirrors_signatures hglobal).bind fun _ _ => mirrors_update fun p q hp => ?_
    rw [hp.extension.phase]
    exact hp.setPhase _
  have hbodies : MirrorsUnit n bodyPass bodyPass :=
    (mirrors_bodies hglobal).bind fun _ _ => mirrors_update fun _ _ hp => hp.setPhase _
  cases pass with
  | signatures => exact hsignatures
  | bodies => exact hbodies
  | full => exact hsignatures.bind fun _ _ => hbodies

end Walk

/-! ### Ways that go on forever -/

namespace Program.Inside

variable {n : NodeKind → Nat} {p q : Program} (h : p.Inside n q)
include h

/-- A way into the scopes of properties is there in the larger program too. -/
theorem owns {s t : ScopeId} (hs : s.index < n .scope) (hst : p.Owns s t) :
    q.Owns s t ∧ t.index < n .scope := by
  obtain ⟨d, hd, ht⟩ := hst
  obtain ⟨heq, hnodes⟩ := h.declared hs
  obtain ⟨hown, hscope⟩ := h.ownScope (hnodes d hd) ht
  exact ⟨⟨d, heq ▸ hd, hown⟩, hscope⟩

/-- A step of the body walk is one in the larger program too. -/
theorem descends {x y : List FunctionId × ScopeId} (hx : x.2.index < n .scope)
    (hxy : p.Descends x y) : q.Descends x y ∧ y.2.index < n .scope := by
  have hnodes := h.declared hx
  cases hxy with
  | own hd ht =>
    obtain ⟨hown, hscope⟩ := h.ownScope (hnodes.2 _ hd) ht
    exact ⟨.own (hnodes.1 ▸ hd) hown, hscope⟩
  | @block busy s c k b hd hidle hb hc =>
    obtain ⟨heq, hrefs⟩ := h.function (within_cons.mp (hnodes.2 _ hd)).1
    obtain ⟨o, hsite⟩ := (Block.mem_scopes_iff s false b c).mp hc
    rw [FunctionProperty.refs, hb, within_append] at hrefs
    exact ⟨.block (hnodes.1 ▸ hd) hidle (heq ▸ hb) hc, hrefs.2 _ (b.ref_mem_refs s false hsite)⟩

/-- If the larger program has no way for a pass to go on forever, the smaller one has none. -/
theorem finite {pass : Pass} (hfinite : Walk.Finite q pass) : Walk.Finite p pass := by
  have hglobal : globalScope.index < n .scope := by
    obtain ⟨hp, rfl, -⟩ := h
    exact hp.global
  have howning {s : ScopeId} (hs : s.index < n .scope) (hend : q.OwningEnds s) :
      p.OwningEnds s := by
    induction hend with
    | intro s _ ih =>
      refine Acc.intro s fun t hst => ?_
      obtain ⟨hst, ht⟩ := h.owns hs hst
      exact ih t hst ht
  have hdescent {x : List FunctionId × ScopeId} (hx : x.2.index < n .scope)
      (hend : q.DescentEnds x) : p.DescentEnds x := by
    induction hend with
    | intro x _ ih =>
      refine Acc.intro x fun y hxy => ?_
      obtain ⟨hxy, hy⟩ := h.descends hx hxy
      exact ih y hxy hy
  cases pass with
  | signatures => exact howning hglobal hfinite
  | bodies => exact hdescent hglobal hfinite
  | full => exact hdescent hglobal hfinite

end Program.Inside

/-- A pass over an intact program ends exactly when it ends over a larger program. Then it has the
same reports and leaves an intact program inside the larger one. -/
theorem Program.Extends.pass {p q : Program} (h : p.Extends q) (hp : p.Intact) (pass : Pass) :
    Option.Rel (fun o o' => o'.reports = o.reports ∧ o.program.Intact ∧
      o.program.Extends o'.program) (pass.walk p) (pass.walk q) := by
  have hinside : p.Inside p.count q := ⟨hp, rfl, h⟩
  have hmirrors := Walk.mirrors_pass (n := p.count) hp.global pass p q hinside
  cases hwalk : pass.walk p with
  | some o =>
    obtain ⟨o', ho', ho⟩ := hmirrors o hwalk
    rw [ho']
    exact .some ⟨ho.reports, ho.program.intact, ho.program.extension⟩
  | none =>
    cases hwalk' : pass.walk q with
    | none => exact .none
    | some o' =>
      have hfinite := hinside.finite (Walk.finite_of_pass hwalk')
      obtain ⟨o, ho⟩ := (Walk.exists_pass_iff (fun _ _ => hp.ranged.hasNode) pass).mpr hfinite
      exact absurd (hwalk.symm.trans ho) (by simp)

end EntityLang
