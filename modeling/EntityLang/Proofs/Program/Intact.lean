import EntityLang.Proofs.Program.Acyclic

/-!
# Programs without dangling handles

In an intact program every handle has a node, the parent of a scope was there before the scope, and
the values that an enum lists are its own. A change keeps a program intact if the handles that it
brings along have nodes at that time, whether the change adds nodes, declares something or writes
into a node.
-/

namespace EntityLang

/-- The handles that a call is given. -/
def Call.refs : Call → List Ref
  | .scope parent => parent.toList.map Handle.ref
  | .var s node => s.ref :: node.refs
  | .native s _ | .enum s _ _ _ | .entity s _ => [s.ref]
  | .state s node => s.ref :: node.refs
  | .function s node => s.ref :: node.refs
  | .declareState s _ pattern parameters initialValue =>
    s.ref :: pattern.refs ++ parameters.flatMap (fun x => x.2.refs) ++
      initialValue.toList.flatMap Expr.refs
  | .declareFunction s _ pattern parameters =>
    s.ref :: pattern.refs ++ parameters.flatMap fun x => x.2.refs
  | .body h block => h.ref :: block.refs

/-- A change to a program from outside. -/
inductive Edit where
  /-- Add something. -/
  | call (call : Call)
  /-- Replace the initial value of a state. -/
  | initialValue (state : StateId) (value : Option Expr)
  /-- Declare a binding under its own name. -/
  | declare (scope : ScopeId) (binding : Binding)
  /-- Bind a name, whatever it stood for before. -/
  | bind (scope : ScopeId) (identity : String) (binding : Binding)

namespace Edit

/-- The program after an edit. -/
def run (p : Program) : Edit → Program
  | .call c => c.run p
  | .initialValue h value => p.setInitialValue h value
  | .declare s b => (p.declare s b).2
  | .bind s identity b => p.bind s identity b

/-- The handles that an edit is given. -/
def refs : Edit → List Ref
  | .call c => c.refs
  | .initialValue h value => h.ref :: value.toList.flatMap Expr.refs
  | .declare s b => s.ref :: b.refs
  | .bind s _ b => s.ref :: b.refs

end Edit

/-- No handle dangles. -/
structure Program.Intact (p : Program) : Prop where
  /-- Every handle in the program has a node. -/
  ranged : p.Ranged
  /-- The parent of a scope was there before. -/
  parent : ∀ s t, p.LiesIn s t → t.index < s.index
  /-- The values of an enum belong to it. -/
  owner : ∀ e, ∀ v ∈ (p.enum e).values, (p.enumValue v).owner = e
  /-- There is a global scope. -/
  global : Program.globalScope.index < p.scopes.size
  /-- The intrinsic types are there. -/
  intrinsics : Program.intrinsics.length ≤ p.natives.size

/-! ### Tables that grow -/

namespace Table

variable {kind : NodeKind} {α : Type} [Inhabited α]

/-- A table that extends another one has at least as many nodes. -/
theorem Extends.size_le {t u : Table kind α} (h : t.Extends u) : t.size ≤ u.size := by
  by_contra hlt
  exact Nat.lt_irrefl _ (h ⟨u.size⟩ (Nat.lt_of_not_le hlt)).1

/-- Nodes that are added together are found under the handles that they get. -/
theorem get_pushAll {nodes : List α} {t : Table kind α} {h : Handle kind}
    (hh : h ∈ (t.pushAll nodes).1) :
    h.index < (t.pushAll nodes).2.size ∧ (t.pushAll nodes).2.get h ∈ nodes := by
  induction nodes generalizing t with
  | nil => simp [pushAll] at hh
  | cons a rest ih =>
    rw [pushAll, List.mem_cons] at hh
    rcases hh with rfl | hh
    · obtain ⟨hsize, hget⟩ := extends_pushAll rest (t.push a) t.next (next_lt_size_push t a)
      rw [get_push_next] at hget
      exact ⟨hsize, List.mem_cons.mpr (.inl hget)⟩
    · obtain ⟨hsize, hmem⟩ := ih hh
      exact ⟨hsize, List.mem_cons_of_mem a hmem⟩

/-- Under other handles than the next one, a table reads as before a node was added. -/
theorem get_push_of_ne {t : Table kind α} {h : Handle kind} (hh : h ≠ t.next) (a : α) :
    (t.push a).get h = t.get h := by
  simp [get, get?_push, hh]

end Table

/-! ### Values of enums -/

namespace Program

/-- The values that an enum lists are there and belong to it. -/
def OwnsValues (p : Program) : Prop :=
  ∀ e, ∀ v ∈ (p.enum e).values, v.index < p.enumValues.size ∧ (p.enumValue v).owner = e

/-- An enum comes with values of its own, and the values of other enums stay. -/
theorem OwnsValues.addEnum {p : Program} (hp : p.OwnsValues) (s : ScopeId) (identity : String)
    (values : List (String × Span)) (span : Span) :
    (p.addEnum s identity values span).2.OwnsValues := by
  intro e v hv
  change v ∈ ((p.enums.push _).get e).values at hv
  by_cases he : e = p.enums.next
  · subst he
    rw [Table.get_push_next] at hv
    obtain ⟨hsize, hmem⟩ := Table.get_pushAll hv
    obtain ⟨x, -, hx⟩ := List.mem_map.mp hmem
    exact ⟨hsize, (congrArg EnumValue.owner hx).symm⟩
  · rw [Table.get_push_of_ne he] at hv
    obtain ⟨hsize, howner⟩ := hp e v hv
    obtain ⟨hsize, hget⟩ := Table.extends_pushAll _ p.enumValues v hsize
    exact ⟨hsize, (congrArg EnumValue.owner hget).trans howner⟩

end Program

/-! ### Scopes -/

/-- Functions under one name: the leaves of the newcomer come last. -/
theorem Binding.overloads_combine? {identity : String} {old newcomer both : Binding}
    (h : old.combine? identity newcomer = some both) :
    both.overloads = old.overloads ++ newcomer.overloads := by
  have hleaves (ds : List Decl) : overloadsAll (ds.map .decl) = ds := by
    induction ds with
    | nil => rfl
    | cons d rest ih => rw [List.map_cons, overloadsAll, overloads, ih, List.singleton_append]
  unfold combine? at h
  split at h
  · cases old with
    | decl d =>
      obtain rfl := Option.some.inj h
      exact congrArg (d :: ·) (hleaves newcomer.overloads)
    | overloaded own members =>
      obtain rfl := Option.some.inj h
      rw [overloads, overloads, overloadsAll_eq_flatMap, List.flatMap_append,
        ← overloadsAll_eq_flatMap, ← overloadsAll_eq_flatMap, hleaves]
  · simp at h

namespace Scope

variable {n : NodeKind → Nat} {s : Scope}

/-- The handles in a scope are its parent and those in what names stand for or in what was
rejected. -/
theorem within_refs_iff : Within n s.refs ↔
    (∀ t ∈ s.parent, t.index < n .scope) ∧
    (∀ (identity : String) (b : Binding), s.bindings[identity]? = some b → Within n b.refs) ∧
    ∀ b ∈ s.rejected, Within n b.refs := by
  simp only [refs, within_append, within_map_ref, within_flatMap, Option.mem_toList, and_assoc,
    mem_bindings_values_iff, forall_exists_index, Option.mem_def]
  rw [forall_comm]

/-- A name may be bound to handles with nodes. -/
theorem within_insert (hs : Within n s.refs) (identity : String) {b : Binding}
    (hb : Within n b.refs) :
    Within n ({ s with bindings := s.bindings.insert identity b } : Scope).refs := by
  rw [within_refs_iff] at hs ⊢
  refine ⟨hs.1, fun name b' hb' => ?_, hs.2.2⟩
  rw [Std.TreeMap.getElem?_insert] at hb'
  split at hb'
  · exact Option.some.inj hb' ▸ hb
  · exact hs.2.1 name b' hb'

/-- Handles with nodes may be declared. -/
theorem within_declare (hs : Within n s.refs) (identity : String) {b : Binding}
    (hb : Within n b.refs) : Within n (s.declare identity b).2.refs := by
  unfold declare
  split
  · exact within_insert hs identity hb
  · rename_i old hold
    split
    · rename_i both hboth
      apply within_insert hs
      have hold := (within_refs_iff.mp hs).2.1 identity old hold
      rw [Binding.refs, Binding.overloads_combine? hboth, List.map_append]
      exact within_append.mpr ⟨hold, hb⟩
    · rw [within_refs_iff] at hs ⊢
      refine ⟨hs.1, hs.2.1, ?_⟩
      rw [List.forall_mem_append]
      exact ⟨hs.2.2, by simpa using hb⟩

end Scope

namespace Program

variable {p q : Program}

/-- A program that has grown has at least as many nodes of each kind. -/
theorem Grows.count_le {T : ScopeId → Prop} (h : p.Grows q T) (kind : NodeKind) :
    p.count kind ≤ q.count kind := by
  cases kind with
  | scope => exact h.size
  | var => exact h.vars.size_le
  | native => exact h.natives.size_le
  | enum => exact h.enums.size_le
  | enumValue => exact h.enumValues.size_le
  | entity => exact h.entities.size_le
  | state => exact h.states.size_le
  | function =>
    by_contra hlt
    exact Nat.lt_irrefl _ (h.functions ⟨q.functions.size⟩ (Nat.lt_of_not_le hlt)).1

section Count

variable (p : Program)

/-- Changing a scope keeps the number of nodes. -/
@[simp] theorem count_modifyScope (s : ScopeId) (g : Scope → Scope) :
    ({ p with scopes := p.scopes.modify s g } : Program).count = p.count := by
  funext kind
  cases kind <;> simp [count]

/-- Changing a variable keeps the number of nodes. -/
@[simp] theorem count_modifyVar (h : VarId) (g : Variable → Variable) :
    ({ p with vars := p.vars.modify h g } : Program).count = p.count := by
  funext kind
  cases kind <;> simp [count]

/-- Changing a state keeps the number of nodes. -/
@[simp] theorem count_modifyState (h : StateId) (g : StateProperty → StateProperty) :
    ({ p with states := p.states.modify h g } : Program).count = p.count := by
  funext kind
  cases kind <;> simp [count]

/-- Changing a function keeps the number of nodes. -/
@[simp] theorem count_modifyFunction (h : FunctionId) (g : FunctionProperty → FunctionProperty) :
    ({ p with functions := p.functions.modify h g } : Program).count = p.count := by
  funext kind
  cases kind <;> simp [count]

end Count

section Intact

variable (hp : p.Intact)
include hp

/-- The handles in any scope have nodes. -/
theorem Intact.scope (s : ScopeId) : Within p.count (p.scope s).refs := by
  by_cases hs : s.index < p.scopes.size
  · exact (ranged_iff.mp hp.ranged).1 s hs
  · have hblank : p.scope s = {} := by
      by_contra hne
      exact hs (Table.index_lt_size hne)
    rw [hblank]
    exact Scope.within_refs_iff.mpr ⟨by simp, by simp, by simp⟩

/-- The values of an enum have nodes. -/
theorem Intact.value_lt {e : EnumId} {v : EnumValueId} (hv : v ∈ (p.enum e).values) :
    v.index < p.enumValues.size := by
  have he : e.index < p.enums.size := by
    refine Table.index_lt_size fun hblank => ?_
    rw [enum, hblank] at hv
    exact List.not_mem_nil hv
  exact within_map_ref.mp ((ranged_iff.mp hp.ranged).2.2.1 e he) v hv

/-- The values of an enum in an intact program are there and belong to it. -/
theorem Intact.ownsValues : p.OwnsValues := fun e v hv => ⟨hp.value_lt hv, hp.owner e v hv⟩

/-- The handles in a state of an intact program are in range. -/
theorem Intact.state {h : StateId} (hh : h.index < p.states.size) :
    Within p.count (p.state h).refs := (ranged_iff.mp hp.ranged).2.2.2.2.1 h hh

/-- The handles in a function of an intact program are in range. -/
theorem Intact.function {h : FunctionId} (hh : h.index < p.functions.size) :
    Within p.count (p.function h).refs := (ranged_iff.mp hp.ranged).2.2.2.2.2 h hh

/-! ### Writing into nodes -/

/-- A scope may be changed if it keeps its parent. -/
theorem Intact.modifyScope {s : ScopeId} {g : Scope → Scope}
    (hparent : ∀ x, (g x).parent = x.parent) (hg : Within p.count (g (p.scope s)).refs) :
    ({ p with scopes := p.scopes.modify s g } : Program).Intact where
  ranged := by
    rw [Ranged, count_modifyScope, within_refs_iff]
    obtain ⟨hscopes, hrest⟩ := within_refs_iff.mp hp.ranged
    exact ⟨Table.within_refs_modify hscopes hg, hrest⟩
  parent t u hu := by
    have hview : ((p.scopes.modify s g).get t).parent = (p.scopes.get t).parent :=
      Table.view_modify Scope.parent g hparent p.scopes s t
    exact hp.parent t u (hview.symm.trans hu)
  owner := hp.owner
  global := by simpa using hp.global
  intrinsics := hp.intrinsics

/-- Declaring something that is there keeps a program intact. -/
theorem Intact.declare (s : ScopeId) {b : Binding} (hb : Within p.count b.refs) :
    (p.declare s b).2.Intact := by
  apply hp.modifyScope
  · intro x
    unfold Scope.declare
    split
    · rfl
    · split <;> rfl
  · exact Scope.within_declare (hp.scope s) _ hb

/-- Binding a name to something that is there keeps a program intact. -/
theorem Intact.bind (s : ScopeId) (identity : String) {b : Binding} (hb : Within p.count b.refs) :
    (p.bind s identity b).Intact :=
  hp.modifyScope (fun _ => rfl) (Scope.within_insert (hp.scope s) identity hb)

/-- Forgetting rejected declarations keeps a program intact. -/
theorem Intact.clearRejected (s : ScopeId) : (p.clearRejected s).Intact := by
  refine hp.modifyScope (g := fun x => { x with rejected := [] }) (fun _ => rfl) ?_
  obtain ⟨hparent, hbindings, -⟩ := Scope.within_refs_iff.mp (hp.scope s)
  exact Scope.within_refs_iff.mpr ⟨hparent, hbindings, by simp⟩

/-- Nodes other than scopes and enums may be changed if their handles have nodes. -/
theorem Intact.of_ranged (hscopes : q.scopes = p.scopes) (henums : q.enums = p.enums)
    (hvalues : q.enumValues = p.enumValues) (hnatives : p.natives.size ≤ q.natives.size)
    (hq : q.Ranged) : q.Intact where
  ranged := hq
  parent s t ht := by
    rw [LiesIn, Program.scope, hscopes] at ht
    exact hp.parent s t ht
  owner e v hv := by
    rw [enum, henums] at hv
    rw [enumValue, hvalues]
    exact hp.owner e v hv
  global := by simpa [hscopes] using hp.global
  intrinsics := hp.intrinsics.trans hnatives

/-- Writing the pattern of a variable keeps a program intact, if its handles are in range. -/
theorem Intact.setVarPattern (h : VarId) {x : Pattern} (hx : Within p.count x.refs) :
    (p.setVarPattern h x).Intact := by
  refine hp.of_ranged rfl rfl rfl (Nat.le_refl _) ?_
  rw [Ranged, Program.setVarPattern, count_modifyVar, within_refs_iff]
  obtain ⟨hscopes, hvars, hrest⟩ := within_refs_iff.mp hp.ranged
  exact ⟨hscopes, Table.within_refs_modify hvars hx, hrest⟩

/-- Changing a state keeps a program intact, if the handles in it stay in range. -/
theorem Intact.modifyState {h : StateId} {g : StateProperty → StateProperty}
    (hg : Within p.count (g (p.state h)).refs) :
    ({ p with states := p.states.modify h g } : Program).Intact := by
  refine hp.of_ranged rfl rfl rfl (Nat.le_refl _) ?_
  rw [Ranged, count_modifyState, within_refs_iff]
  obtain ⟨hscopes, hvars, henums, hvalues, hstates, hfunctions⟩ := within_refs_iff.mp hp.ranged
  exact ⟨hscopes, hvars, henums, hvalues, Table.within_refs_modify hstates hg, hfunctions⟩

/-- Changing a function keeps a program intact, if the handles in it stay in range. -/
theorem Intact.modifyFunction {h : FunctionId} {g : FunctionProperty → FunctionProperty}
    (hg : Within p.count (g (p.function h)).refs) :
    ({ p with functions := p.functions.modify h g } : Program).Intact := by
  refine hp.of_ranged rfl rfl rfl (Nat.le_refl _) ?_
  rw [Ranged, count_modifyFunction, within_refs_iff]
  obtain ⟨hscopes, hvars, henums, hvalues, hstates, hfunctions⟩ := within_refs_iff.mp hp.ranged
  exact ⟨hscopes, hvars, henums, hvalues, hstates, Table.within_refs_modify hfunctions hg⟩

/-- Writing the pattern of a state keeps a program intact, if its handles are in range. -/
theorem Intact.setStatePattern {h : StateId} (hh : h.index < p.states.size) {x : Pattern}
    (hx : Within p.count x.refs) : (p.setStatePattern h x).Intact := by
  apply hp.modifyState
  have hnode := hp.state hh
  simp only [StateProperty.refs, within_append] at hnode ⊢
  exact ⟨⟨hx, hnode.1.2⟩, hnode.2⟩

/-- Writing an initial value keeps a program intact, if its handles are in range. -/
theorem Intact.setInitialValue {h : StateId} (hh : h.index < p.states.size) {v : Option Expr}
    (hv : Within p.count (v.toList.flatMap Expr.refs)) : (p.setInitialValue h v).Intact := by
  apply hp.modifyState
  have hnode := hp.state hh
  simp only [StateProperty.refs, within_append] at hnode ⊢
  exact ⟨hnode.1, hv⟩

/-- Writing the pattern of a function keeps a program intact, if its handles are in range. -/
theorem Intact.setFunctionPattern {h : FunctionId} (hh : h.index < p.functions.size) {x : Pattern}
    (hx : Within p.count x.refs) : (p.setFunctionPattern h x).Intact := by
  apply hp.modifyFunction
  have hnode := hp.function hh
  simp only [FunctionProperty.refs, within_append] at hnode ⊢
  exact ⟨⟨hx, hnode.1.2⟩, hnode.2⟩

/-- Writing a body keeps a program intact, if its handles are in range. -/
theorem Intact.setBody {h : FunctionId} (hh : h.index < p.functions.size) {b : Block}
    (hb : Within p.count b.refs) : (p.setBody h b).Intact := by
  apply hp.modifyFunction
  have hnode := hp.function hh
  simp only [FunctionProperty.refs, within_append] at hnode ⊢
  exact ⟨hnode.1, hb⟩

/-! ### Adding nodes -/

/-- A node may be added to a table without scopes or enums, and declared. -/
theorem Intact.declare_new {T : ScopeId → Prop} (hgrows : p.Grows q T)
    (hscopes : q.scopes = p.scopes) (henums : q.enums = p.enums)
    (hvalues : q.enumValues = p.enumValues)
    (hrefs : Within q.count p.refs → Within q.count q.refs) (s : ScopeId) {d : Decl}
    (hd : q.HasNode d) : (q.declare s (.decl d)).2.Intact := by
  have hq := hp.of_ranged hscopes henums hvalues hgrows.natives.size_le
    (hrefs (hp.ranged.mono hgrows.count_le))
  apply hq.declare s
  simpa [within_binding_iff, Binding.overloads] using hd

/-- Adding a variable keeps a program intact, if the handles in it are in range. -/
theorem Intact.addVar (s : ScopeId) {node : Variable} (hnode : Within p.count node.refs) :
    (p.addVar s node).2.Intact := by
  have hgrows : p.Grows { p with vars := p.vars.push node } fun _ => False :=
    { vars := Table.extends_push _ _ }
  refine hp.declare_new hgrows rfl rfl rfl (fun h => ?_) s (Table.next_lt_size_push _ _)
  obtain ⟨hscopes, hvars, hrest⟩ := within_refs_iff.mp h
  exact within_refs_iff.mpr
    ⟨hscopes, Table.within_refs_push.mpr ⟨hvars, hnode.mono hgrows.count_le⟩, hrest⟩

/-- Adding a native type keeps a program intact. -/
theorem Intact.addNative (s : ScopeId) (node : NativeType) : (p.addNative s node).2.Intact := by
  have hgrows : p.Grows { p with natives := p.natives.push node } fun _ => False :=
    { natives := Table.extends_push _ _ }
  exact hp.declare_new hgrows rfl rfl rfl id s (Table.next_lt_size_push _ _)

/-- Adding an entity keeps a program intact. -/
theorem Intact.addEntity (s : ScopeId) (node : Entity) : (p.addEntity s node).2.Intact := by
  have hgrows : p.Grows { p with entities := p.entities.push node } fun _ => False :=
    { entities := Table.extends_push _ _ }
  exact hp.declare_new hgrows rfl rfl rfl id s (Table.next_lt_size_push _ _)

/-- Adding a state keeps a program intact, if the handles in it are in range. -/
theorem Intact.addState (s : ScopeId) {node : StateProperty} (hnode : Within p.count node.refs) :
    (p.addState s node).2.Intact := by
  have hgrows : p.Grows { p with states := p.states.push node } fun _ => False :=
    { states := Table.extends_push _ _ }
  refine hp.declare_new hgrows rfl rfl rfl (fun h => ?_) s (Table.next_lt_size_push _ _)
  obtain ⟨hscopes, hvars, henums, hvalues, hstates, hfunctions⟩ := within_refs_iff.mp h
  exact within_refs_iff.mpr ⟨hscopes, hvars, henums, hvalues,
    Table.within_refs_push.mpr ⟨hstates, hnode.mono hgrows.count_le⟩, hfunctions⟩

/-- Adding a function keeps a program intact, if the handles in it are in range. -/
theorem Intact.addFunction (s : ScopeId) {node : FunctionProperty}
    (hnode : Within p.count node.refs) : (p.addFunction s node).2.Intact := by
  have hgrows : p.Grows { p with functions := p.functions.push node } fun _ => False :=
    { functions := fun h hh => ⟨Table.lt_size_push _ hh,
        congrArg FunctionProperty.signature (Table.get_push_of_lt hh _)⟩ }
  refine hp.declare_new hgrows rfl rfl rfl (fun h => ?_) s (Table.next_lt_size_push _ _)
  obtain ⟨hscopes, hvars, henums, hvalues, hstates, hfunctions⟩ := within_refs_iff.mp h
  exact within_refs_iff.mpr ⟨hscopes, hvars, henums, hvalues, hstates,
    Table.within_refs_push.mpr ⟨hfunctions, hnode.mono hgrows.count_le⟩⟩

/-- An enum comes with its values, which belong to it. -/
theorem Intact.addEnum (s : ScopeId) (identity : String) (values : List (String × Span))
    (span : Span) : (p.addEnum s identity values span).2.Intact := by
  let nodes := values.map fun x => EnumValue.mk x.1 p.enums.next x.2
  let pushed := p.enumValues.pushAll nodes
  let q : Program :=
    { p with enumValues := pushed.2, enums := p.enums.push ⟨identity, pushed.1, span⟩ }
  have hgrows : p.Grows q fun _ => False :=
    { enumValues := Table.extends_pushAll _ _, enums := Table.extends_push _ _ }
  have hnodes : ∀ v ∈ nodes, v.owner = p.enums.next := by
    intro v hv
    obtain ⟨x, -, rfl⟩ := List.mem_map.mp hv
    rfl
  have hq : q.Intact :=
    { ranged := by
        have h := hp.ranged.mono hgrows.count_le
        obtain ⟨hscopes, hvars, henums, hvalues, hrest⟩ := within_refs_iff.mp h
        refine within_refs_iff.mpr ⟨hscopes, hvars, Table.within_refs_push.mpr ⟨henums, ?_⟩,
          Table.within_refs_pushAll.mpr ⟨hvalues, ?_⟩, hrest⟩
        · exact within_map_ref.mpr fun v hv => (Table.get_pushAll hv).1
        · intro v hv
          rw [EnumValue.refs, hnodes v hv]
          exact within_cons.mpr ⟨Table.next_lt_size_push p.enums _, within_nil⟩
      parent := hp.parent
      owner := fun e v hv => (hp.ownsValues.addEnum s identity values span e v hv).2
      global := hp.global
      intrinsics := hp.intrinsics }
  apply hq.declare s
  have hnode : q.HasNode (.enum p.enums.next) := Table.next_lt_size_push _ _
  simpa [within_binding_iff, Binding.overloads] using hnode

/-- A scope may be added in a scope that is there. -/
theorem Intact.addScope {parent : Option ScopeId}
    (hparent : ∀ s ∈ parent, s.index < p.scopes.size) : (p.addScope parent).2.Intact where
  ranged := by
    have hgrows := p.grows_addScope parent
    obtain ⟨hscopes, hrest⟩ := within_refs_iff.mp (hp.ranged.mono hgrows.count_le)
    refine within_refs_iff.mpr ⟨Table.within_refs_push.mpr ⟨hscopes, ?_⟩, hrest⟩
    refine Scope.within_refs_iff.mpr ⟨fun s hs => ?_, by simp, by simp⟩
    exact Nat.lt_of_lt_of_le (hparent s hs) hgrows.size
  parent s t ht := by
    rw [LiesIn, scope_addScope] at ht
    split at ht
    · subst s
      exact hparent t ht
    · exact hp.parent s t ht
  owner := hp.owner
  global := Table.lt_size_push _ hp.global
  intrinsics := hp.intrinsics

/-- Variables may be added, and their handles have nodes afterwards. -/
theorem Intact.addVars (s : ScopeId) {parameters : List (String × Pattern)}
    (hparameters : Within p.count (parameters.flatMap fun x => x.2.refs)) :
    (p.addVars s parameters).2.Intact ∧
      ∀ v ∈ (p.addVars s parameters).1, v.index < (p.addVars s parameters).2.vars.size := by
  induction parameters generalizing p with
  | nil => exact ⟨hp, by simp [Program.addVars]⟩
  | cons parameter rest ih =>
    obtain ⟨identity, pattern⟩ := parameter
    rw [List.flatMap_cons, within_append] at hparameters
    have hgrows := p.grows_addVar s ⟨identity, pattern, .dummy⟩
    have hrest := grows_addVars (p.addVar s ⟨identity, pattern, .dummy⟩).2 s rest
    have hnode : Within p.count (Variable.mk identity pattern .dummy).refs := hparameters.1
    obtain ⟨hintact, hhandles⟩ :=
      ih (hp.addVar s hnode) (hparameters.2.mono hgrows.count_le)
    refine ⟨hintact, List.forall_mem_cons.mpr ⟨?_, hhandles⟩⟩
    exact Nat.lt_of_lt_of_le (Table.next_lt_size_push p.vars _) hrest.vars.size_le

/-- A scope with parameters may be added in a scope that is there. -/
theorem Intact.addParameters {s : ScopeId} (hs : s.index < p.scopes.size)
    {parameters : List (String × Pattern)}
    (hparameters : Within p.count (parameters.flatMap fun x => x.2.refs)) :
    ((p.addScope (some s)).2.addVars p.scopes.next parameters).2.Intact ∧
      p.scopes.next.index <
        ((p.addScope (some s)).2.addVars p.scopes.next parameters).2.scopes.size ∧
      ∀ v ∈ ((p.addScope (some s)).2.addVars p.scopes.next parameters).1,
        v.index < ((p.addScope (some s)).2.addVars p.scopes.next parameters).2.vars.size := by
  have hscope : (p.addScope (some s)).2.Intact := hp.addScope (by simpa using hs)
  obtain ⟨hintact, hhandles⟩ := hscope.addVars p.scopes.next
    (hparameters.mono (p.grows_addScope (some s)).count_le)
  have hgrows := grows_addVars (p.addScope (some s)).2 p.scopes.next parameters
  exact ⟨hintact, Nat.lt_of_lt_of_le (Table.next_lt_size_push p.scopes _) hgrows.size, hhandles⟩

/-- A call keeps a program intact if the handles that it is given have nodes. -/
theorem Intact.runCall {call : Call} (hcall : Within p.count call.refs) : (call.run p).Intact := by
  cases call with
  | scope parent =>
    rw [Call.refs, within_map_ref] at hcall
    exact hp.addScope fun s hs => hcall s (Option.mem_toList.mpr hs)
  | var s node => exact hp.addVar s (within_cons.mp hcall).2
  | native s node => exact hp.addNative s node
  | enum s identity values span => exact hp.addEnum s identity values span
  | entity s node => exact hp.addEntity s node
  | state s node => exact hp.addState s (within_cons.mp hcall).2
  | function s node => exact hp.addFunction s (within_cons.mp hcall).2
  | declareState s identity pattern parameters initialValue =>
    simp only [Call.refs, List.cons_append, within_cons, within_append] at hcall
    obtain ⟨hs, ⟨hpattern, hparameters⟩, hvalue⟩ := hcall
    obtain ⟨hintact, hown, hhandles⟩ := hp.addParameters hs hparameters
    have hle := (p.grows_addParameters s parameters).count_le
    apply hintact.addState s
    simp only [StateProperty.refs, within_append, within_cons, within_map_ref]
    exact ⟨⟨hpattern.mono hle, hown, hhandles⟩, hvalue.mono hle⟩
  | declareFunction s identity pattern parameters =>
    simp only [Call.refs, List.cons_append, within_cons, within_append] at hcall
    obtain ⟨hs, hpattern, hparameters⟩ := hcall
    obtain ⟨hintact, hown, hhandles⟩ := hp.addParameters hs hparameters
    have hle := (p.grows_addParameters s parameters).count_le
    apply hintact.addFunction s
    simp only [FunctionProperty.refs, within_append, within_cons, within_map_ref]
    exact ⟨⟨hpattern.mono hle, hown, hhandles⟩, within_nil⟩
  | body h block => exact hp.setBody (within_cons.mp hcall).1 (within_cons.mp hcall).2

/-- An edit keeps a program intact if the handles that it is given have nodes. -/
theorem Intact.run {e : Edit} (he : Within p.count e.refs) : (e.run p).Intact := by
  cases e with
  | call c => exact hp.runCall he
  | initialValue h v => exact hp.setInitialValue (within_cons.mp he).1 (within_cons.mp he).2
  | declare s b => exact hp.declare s (within_cons.mp he).2
  | bind s identity b => exact hp.bind s identity (within_cons.mp he).2

end Intact

/-- The program that declares the intrinsic types only is intact. -/
theorem intact_fresh : fresh.Intact where
  ranged := by decide +kernel
  parent := sound_fresh.parent
  owner e v hv := by
    have hblank : fresh.enum e = default := Table.get_eq_default rfl
    rw [hblank] at hv
    exact absurd hv List.not_mem_nil
  global := by decide +kernel
  intrinsics := by decide +kernel

end Program

end EntityLang
