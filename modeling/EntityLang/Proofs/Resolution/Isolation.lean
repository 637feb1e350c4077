import EntityLang.Proofs.Expr.View
import EntityLang.Proofs.Program.Growth
import Mathlib.Data.List.Basic

/-!
# Lexical isolation

What is resolved in a scope depends on the scopes of its chain only. A call that declares something
in any other scope, under whatever name, changes neither the outcome nor the reports: it cannot
capture a name that is used in the scope, hide it or make it ambiguous.

The chain has to come to an end, as it does whenever parents come before their children. A circle of
parents is followed once for each scope of the program, and a call may add a scope.
-/

namespace EntityLang

namespace Program

instance (p : Program) : DecidablePred p.HasNode := fun d =>
  match d with
  | .var _ | .native _ | .enum _ | .entity _ | .state _ | .function _ => Nat.decLt _ _

/-- What has a node is known. -/
def nodes (p : Program) : Known where
  decl := p.HasNode
  enum e := e.index < p.enums.size
  value v := v.index < p.enumValues.size

instance (p : Program) (x : Pattern) : Decidable (x.KnownIn p.nodes) :=
  inferInstanceAs (Decidable (∀ e ∈ x.enum?, e.index < p.enums.size))

/-- The handles that lookups and patterns lead to have nodes. -/
structure Linked (p : Program) : Prop where
  parent : ∀ s ∈ p.scopes.handles, ∀ t ∈ (p.scope s).parent, t.index < p.scopes.size
  declared : ∀ s ∈ p.scopes.handles, ∀ d ∈ p.declared s, p.HasNode d
  varPattern : ∀ v ∈ p.vars.handles, (p.var v).pattern.KnownIn p.nodes
  statePattern : ∀ h ∈ p.states.handles, (p.state h).pattern.KnownIn p.nodes
  functionPattern : ∀ h ∈ p.functions.handles, (p.function h).pattern.KnownIn p.nodes
  parameters : ∀ h ∈ p.functions.handles, ∀ v ∈ (p.function h).parameters, v.index < p.vars.size
  values : ∀ e ∈ p.enums.handles, ∀ v ∈ (p.enum e).values, v.index < p.enumValues.size
  owner : ∀ v ∈ p.enumValues.handles, (p.enumValue v).owner.index < p.enums.size

instance (p : Program) : Decidable p.Linked :=
  decidable_of_iff
    ((∀ s ∈ p.scopes.handles, ∀ t ∈ (p.scope s).parent, t.index < p.scopes.size) ∧
      (∀ s ∈ p.scopes.handles, ∀ d ∈ p.declared s, p.HasNode d) ∧
      (∀ v ∈ p.vars.handles, (p.var v).pattern.KnownIn p.nodes) ∧
      (∀ h ∈ p.states.handles, (p.state h).pattern.KnownIn p.nodes) ∧
      (∀ h ∈ p.functions.handles, (p.function h).pattern.KnownIn p.nodes) ∧
      (∀ h ∈ p.functions.handles, ∀ v ∈ (p.function h).parameters, v.index < p.vars.size) ∧
      (∀ e ∈ p.enums.handles, ∀ v ∈ (p.enum e).values, v.index < p.enumValues.size) ∧
      ∀ v ∈ p.enumValues.handles, (p.enumValue v).owner.index < p.enums.size)
    ⟨fun ⟨h₁, h₂, h₃, h₄, h₅, h₆, h₇, h₈⟩ => ⟨h₁, h₂, h₃, h₄, h₅, h₆, h₇, h₈⟩,
      fun h => ⟨h.parent, h.declared, h.varPattern, h.statePattern, h.functionPattern,
        h.parameters, h.values, h.owner⟩⟩

/-- The chain of the scope comes to an end: its last scope has no parent. -/
def ChainEnds (p : Program) (s : ScopeId) : Prop :=
  ∀ t ∈ (p.chain s).getLast?, (p.scope t).parent = none

instance (p : Program) (s : ScopeId) : Decidable (p.ChainEnds s) :=
  inferInstanceAs (Decidable (∀ t ∈ (p.chain s).getLast?, (p.scope t).parent = none))

section Linked

variable {p : Program} (hp : p.Linked) {s : ScopeId} (hs : s.index < p.scopes.size)
include hp hs

/-- The scopes of a chain are there. -/
theorem Linked.index_lt_of_mem_chainUpTo {bound : Nat} {t : ScopeId}
    (ht : t ∈ p.chainUpTo bound s) : t.index < p.scopes.size := by
  induction bound generalizing s with
  | zero => simp [chainUpTo] at ht
  | succ bound ih =>
    rw [chainUpTo, List.mem_cons] at ht
    rcases ht with rfl | ht
    · exact hs
    · cases hparent : (p.scope s).parent with
      | none => simp [hparent] at ht
      | some u =>
        rw [hparent] at ht
        exact ih (hp.parent s (by simpa using hs) u hparent) ht

/-- What is visible has a node. -/
theorem Linked.hasNode_of_visible {d : Decl} (hd : p.Visible s d) : p.HasNode d := by
  obtain ⟨t, ht, hd⟩ := hd
  exact hp.declared t (by simpa using hp.index_lt_of_mem_chainUpTo hs ht) d hd

/-- Resolving leads from nodes to nodes. -/
theorem Linked.closed : p.nodes.Closed p s where
  visible _ hd := hp.hasNode_of_visible hs hd
  visibleEnum _ he := hp.hasNode_of_visible hs he
  pattern d hd := by
    cases d with
    | var h => exact hp.varPattern h ((Table.mem_handles _ h).mpr hd)
    | state h => exact hp.statePattern h ((Table.mem_handles _ h).mpr hd)
    | function h => exact hp.functionPattern h ((Table.mem_handles _ h).mpr hd)
    | _ => exact fun e he => by simp [declPattern, Pattern.enum?, Pattern.core] at he
  values e he := hp.values e ((Table.mem_handles _ e).mpr he)
  owner v hv := hp.owner v ((Table.mem_handles _ v).mpr hv)

end Linked

section Grows

variable {p q : Program} {T : ScopeId → Prop} (h : p.Grows q T) (hp : p.Linked)
include h hp

/-- Where nothing changes along a chain that ends, the chain stays. The bounds may differ, since the
chain ends before both. -/
theorem Grows.chainUpTo_eq {bound bound' : Nat} {s : ScopeId} (hbound : bound ≤ bound')
    (hs : s.index < p.scopes.size) (hoff : ∀ t ∈ p.chainUpTo (bound + 1) s, ¬ T t)
    (hends : ∀ t ∈ (p.chainUpTo (bound + 1) s).getLast?, (p.scope t).parent = none) :
    q.chainUpTo (bound' + 1) s = p.chainUpTo (bound + 1) s := by
  induction bound generalizing s bound' with
  | zero =>
    have hscope : q.scope s = p.scope s := h.scope s hs (hoff s (by simp [chainUpTo]))
    have hparent : (p.scope s).parent = none := by
      apply hends
      rw [chainUpTo]
      cases (p.scope s).parent <;> rfl
    rw [chainUpTo, chainUpTo, hscope, hparent]
  | succ bound ih =>
    obtain ⟨bound', rfl⟩ := Nat.exists_eq_succ_of_ne_zero (n := bound') (by omega)
    have hscope : q.scope s = p.scope s := h.scope s hs (hoff s (by simp [chainUpTo]))
    rw [chainUpTo] at hoff hends
    rw [chainUpTo, chainUpTo, hscope]
    cases hparent : (p.scope s).parent with
    | none => rfl
    | some t =>
      rw [hparent] at hoff hends
      have ht : t.index < p.scopes.size := hp.parent s (by simpa using hs) t hparent
      have hlast : (s :: p.chainUpTo (bound + 1) t).getLast? =
          (p.chainUpTo (bound + 1) t).getLast? := by
        rw [chainUpTo, List.getLast?_cons_cons]
      rw [hlast] at hends
      have hrest := ih (Nat.le_of_succ_le_succ hbound) ht
        (fun u hu => hoff u (List.mem_cons_of_mem s hu)) hends
      exact congrArg (s :: ·) hrest

/-- An enum has the same values. -/
theorem Grows.enumValueNamed_eq {e : EnumId} (he : e.index < p.enums.size) (identity : String) :
    p.enumValueNamed e identity = q.enumValueNamed e identity := by
  have henum : q.enum e = p.enum e := (h.enums e he).2
  rw [enumValueNamed, enumValueNamed, henum]
  apply List.find?_congr
  intro v hv
  have hvalue : q.enumValue v = p.enumValue v :=
    (h.enumValues v (hp.values e (by simpa using he) v hv)).2
  rw [hvalue]

variable {s : ScopeId} (hs : s.index < p.scopes.size)
include hs

/-- The parameters of visible functions have the same patterns. -/
theorem Grows.sameParameters : p.SameParameters q s := by
  intro f hf v hv
  have hnode : f.index < p.functions.size := hp.hasNode_of_visible hs hf
  exact (h.declPattern (d := .var v) (hp.parameters f (by simpa using hnode) v hv)).symm

variable (hoff : ∀ t ∈ p.chain s, ¬ T t)
include hoff

/-- The scopes that a scope lies in have not changed. -/
theorem Grows.scope_eq {t : ScopeId} (ht : t ∈ p.chain s) : q.scope t = p.scope t :=
  h.scope t (hp.index_lt_of_mem_chainUpTo hs ht) (hoff t ht)

/-- The scopes that a scope lies in bind what they did. -/
theorem Grows.boundIn_eq {t : ScopeId} (ht : t ∈ p.chain s) (identity : String) :
    p.boundIn identity t = q.boundIn identity t := by
  rw [boundIn, boundIn, h.scope_eq hp hs hoff ht]

variable (hends : p.ChainEnds s)
include hends

/-- The chain of the scope has not changed. -/
theorem Grows.chain_eq : q.chain s = p.chain s := by
  have hsize := h.size
  obtain ⟨bound, hbound⟩ := Nat.exists_eq_succ_of_ne_zero (n := p.scopes.size) (by omega)
  obtain ⟨bound', hbound'⟩ := Nat.exists_eq_succ_of_ne_zero (n := q.scopes.size) (by omega)
  unfold ChainEnds at hends
  rw [chain, hbound] at hends hoff
  rw [chain, chain, hbound, hbound']
  exact h.chainUpTo_eq hp (by omega) hs hoff hends

/-- Names seen from the scope stand for what they did. -/
theorem Grows.fetch_eq (identity : String) : p.fetch s identity = q.fetch s identity := by
  rw [fetch, fetch, h.chain_eq hp hs hoff hends]
  exact findSome?_congr fun t ht => h.boundIn_eq hp hs hoff ht identity

/-- Names of properties seen from the scope stand for what they did. -/
theorem Grows.fetchProperty_eq (identity : String) :
    p.fetchProperty s identity = q.fetchProperty s identity := by
  have hfirst : (p.chain s).findSome? (fun t => (p.boundIn identity t).filter
        Binding.isProperty) =
      (p.chain s).findSome? fun t => (q.boundIn identity t).filter Binding.isProperty :=
    findSome?_congr fun t ht => by rw [h.boundIn_eq hp hs hoff ht]
  rw [fetchProperty, fetchProperty, h.chain_eq hp hs hoff hends, hfirst]

/-- The enum values in reach of the scope are those that were. -/
theorem Grows.enumValuesInReach_eq (identity : String) :
    p.enumValuesInReach s identity = q.enumValuesInReach s identity := by
  have henums : (p.chain s).flatMap q.enumsIn = (p.chain s).flatMap p.enumsIn :=
    List.flatMap_congr fun t ht => by rw [enumsIn, enumsIn, h.scope_eq hp hs hoff ht]
  have hnode {e : EnumId} (he : e ∈ (p.chain s).flatMap p.enumsIn) : e.index < p.enums.size := by
    obtain ⟨t, ht, he⟩ := List.mem_flatMap.mp he
    exact hp.hasNode_of_visible hs ⟨t, ht, mem_declared_of_mem_enumsIn he⟩
  have hvisible : ((p.chain s).flatMap p.enumsIn).filter (q.isVisibleEnum s) =
      ((p.chain s).flatMap p.enumsIn).filter (p.isVisibleEnum s) := by
    apply List.filter_congr
    intro e he
    have henum : q.enum e = p.enum e := (h.enums e (hnode he)).2
    rw [isVisibleEnum, isVisibleEnum, henum, h.fetch_eq hp hs hoff hends]
  rw [enumValuesInReach, enumValuesInReach, h.chain_eq hp hs hoff hends, henums, hvisible]
  apply List.filterMap_congr
  intro e he
  exact h.enumValueNamed_eq hp (hnode (List.mem_filter.mp he).1) identity

/-- Lookups from the scope and all nodes read the same. -/
theorem Grows.agree : p.nodes.Agree p q s where
  fetch := h.fetch_eq hp hs hoff hends
  fetchProperty := h.fetchProperty_eq hp hs hoff hends
  enumValuesInReach := h.enumValuesInReach_eq hp hs hoff hends
  enumValueNamed _ he := h.enumValueNamed_eq hp he
  owner v hv := by
    have hvalue : q.enumValue v = p.enumValue v := (h.enumValues v hv).2
    rw [hvalue]
  parameters _ hf := (h.parameters (hp.hasNode_of_visible hs hf)).symm
  pattern _ hd := (h.declPattern hd).symm

end Grows

end Program

/-- What is resolved in a scope whose chain ends, from handles of the program, stays the same after
a call that declares outside of the chain. -/
theorem resolve_run_off_chain {p : Program} (hp : p.Linked) {s : ScopeId}
    (hs : s.index < p.scopes.size) (hends : p.ChainEnds s) {call : Call}
    (hcall : ∀ t ∈ call.target?, t ∉ p.chain s) {e : Expr} (he : e.KnownIn p.nodes)
    {hint : Option Pattern} (hhint : p.nodes.Hint hint) :
    e.resolve (call.run p) s hint = e.resolve p s hint := by
  have hgrows := p.grows_run call
  have hagree := hgrows.agree hp hs (fun t ht htarget => hcall t htarget ht) hends
  have hparameters := hgrows.sameParameters hp hs
  exact (Expr.resolve_congr hagree (hp.closed hs) he (.inr hparameters) hhint).symm

/-- Two scopes beside each other in the global scope, which declares an enum. -/
def siblings : Program :=
  let (_, withFirst) := Program.fresh.addScope (some Program.globalScope)
  let (_, withSecond) := withFirst.addScope (some Program.globalScope)
  (withSecond.addEnum Program.globalScope "Color" [("red", .dummy), ("blue", .dummy)] .dummy).2

/-- An enum with a value of the same name, declared in the second of two siblings, leaves the name
in the first one as it is; declared around them, it makes the name ambiguous. -/
theorem resolve_run_off_chain_siblings :
    ((Expr.unresolved ⟨"red", .dummy⟩ .dummy).resolve siblings ⟨1⟩ none).value.enumValue? =
      some ⟨0⟩ ∧
    (Expr.unresolved ⟨"red", .dummy⟩ .dummy).resolve
      ((Call.enum ⟨2⟩ "Shade" [("red", .dummy)] .dummy).run siblings) ⟨1⟩ none =
        (Expr.unresolved ⟨"red", .dummy⟩ .dummy).resolve siblings ⟨1⟩ none ∧
    ((Expr.unresolved ⟨"red", .dummy⟩ .dummy).resolve
      ((Call.enum ⟨0⟩ "Shade" [("red", .dummy)] .dummy).run siblings) ⟨1⟩ none).reports.map
        Diagnostic.kind = [.ambiguousIdentity] := by
  refine ⟨by decide +kernel, ?_, by decide +kernel⟩
  apply resolve_run_off_chain
  · decide +kernel
  · decide +kernel
  · decide +kernel
  · decide +kernel
  · simp [Expr.KnownIn, Expr.handle?, Expr.enumValue?]
  · exact Known.no_hint

end EntityLang
