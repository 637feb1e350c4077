import EntityLang.Proofs.Program.Shape
import EntityLang.Proofs.Renaming.Tree
import Mathlib.Data.Fintype.Card

/-!
# Renaming handles in programs

Two programs are related by a renaming if each node of the one is found in the other under its new
handle, with all handles in it renamed. The order of the nodes of a kind may be quite different.

A name means the same in both programs: every lookup finds what it found before, under new handles,
in the same order.
-/

namespace EntityLang

namespace Table

variable {kind : NodeKind} {α : Type} {ρ : Renaming} {R : α → α → Prop} {t u : Table kind α}

/-- A handle in range has a node, the one that a lookup with a default gives. -/
theorem get?_eq_some_get [Inhabited α] {k : Handle kind} (hk : k.index < t.size) :
    t.get? k = some (t.get k) := by
  obtain ⟨a, ha⟩ := Option.isSome_iff_exists.mp ((isSome_get? t k).mpr hk)
  rw [Table.get, ha, Option.getD_some]

/-- Each node of the first table is related to the node of the second table under its new handle. -/
def Renames (ρ : Renaming) (R : α → α → Prop) (t u : Table kind α) : Prop :=
  ∀ h, Option.Rel R (t.get? h) (u.get? (ρ.handle h))

/-- A handle and its new name have related nodes, or none. -/
theorem Renames.get?_cases (h : t.Renames ρ R u) (k : Handle kind) :
    (t.get? k = none ∧ u.get? (ρ.handle k) = none) ∨
      ∃ a b, t.get? k = some a ∧ u.get? (ρ.handle k) = some b ∧ R a b := by
  have hk := h k
  generalize t.get? k = x at hk ⊢
  generalize u.get? (ρ.handle k) = y at hk ⊢
  cases hk with
  | some hR => exact .inr ⟨_, _, rfl, rfl, hR⟩
  | none => exact .inl ⟨rfl, rfl⟩

/-- A handle is in range exactly when its new name is. -/
theorem Renames.lt_size_iff (h : t.Renames ρ R u) (k : Handle kind) :
    (ρ.handle k).index < u.size ↔ k.index < t.size := by
  rw [← isSome_get?, ← isSome_get?]
  obtain ⟨ht, hu⟩ | ⟨a, b, ht, hu, -⟩ := h.get?_cases k <;> simp [ht, hu]

/-- Both tables have the same number of nodes. -/
theorem Renames.size_eq (h : t.Renames ρ R u) : u.size = t.size := by
  have range (m : Nat) : Fin m ≃ { k : Handle kind // k.index < m } :=
    ⟨fun i => ⟨⟨i⟩, i.isLt⟩, fun k => ⟨k.1.index, k.2⟩, fun _ => rfl, fun _ => rfl⟩
  have renamed :
      { k : Handle kind // k.index < t.size } ≃ { k : Handle kind // k.index < u.size } :=
    (ρ.on kind).subtypeEquiv fun k => (h.lt_size_iff k).symm
  exact (Fin.equiv_iff_eq.mp ⟨(range _).trans (renamed.trans (range _).symm)⟩).symm

/-- Tables are compared node by node if the renaming keeps the handles that are out of range. -/
theorem renames_of_nodes [Inhabited α] {m : Nat} (ht : t.size = m) (hu : u.size = m)
    (hkept : ∀ k : Handle kind, m ≤ k.index → ρ.handle k = k)
    (h : ∀ i : Fin m, R (t.get ⟨i⟩) (u.get (ρ.handle ⟨i⟩))) : t.Renames ρ R u := by
  intro k
  by_cases hk : k.index < m
  · have hnew : (ρ.handle k).index < m := by
      by_contra hnew
      have hsame : ρ.handle k = k := (ρ.handle_inj _ _).mp (hkept _ (Nat.not_lt.mp hnew))
      rw [hsame] at hnew
      exact hnew hk
    rw [get?_eq_some_get (ht ▸ hk), get?_eq_some_get (hu ▸ hnew)]
    exact .some (h ⟨k.index, hk⟩)
  · have hnone {v : Table kind α} (hv : v.size = m) : v.get? k = none := by
      rw [← Option.not_isSome_iff_eq_none, isSome_get?, hv]
      exact hk
    rw [hkept k (Nat.not_lt.mp hk), hnone ht, hnone hu]
    exact .none

/-- Related nodes are read under related handles. -/
theorem Renames.get [Inhabited α] (h : t.Renames ρ R u) (hblank : R default default)
    (k : Handle kind) : R (t.get k) (u.get (ρ.handle k)) := by
  rw [Table.get, Table.get]
  obtain ⟨ht, hu⟩ | ⟨a, b, ht, hu, hR⟩ := h.get?_cases k <;> rw [ht, hu]
  · exact hblank
  · exact hR

/-- Related changes of related nodes keep the tables related. -/
theorem Renames.modify (h : t.Renames ρ R u) (k : Handle kind) {f g : α → α}
    (hfg : ∀ a b, R a b → R (f a) (g b)) :
    (t.modify k f).Renames ρ R (u.modify (ρ.handle k) g) := by
  intro j
  rw [get?_modify, get?_modify]
  by_cases hj : j = k
  · subst hj
    rw [if_pos rfl, if_pos rfl]
    obtain ⟨ht, hu⟩ | ⟨a, b, ht, hu, hR⟩ := h.get?_cases j <;> rw [ht, hu]
    · exact .none
    · exact .some (hfg a b hR)
  · rw [if_neg hj, if_neg fun heq => hj ((ρ.handle_inj j k).mp heq)]
    exact h j

end Table

/-- The second scope is the first one under new handles. -/
structure Scope.Renames (ρ : Renaming) (s t : Scope) : Prop where
  parent : t.parent = s.parent.map ρ.handle
  bound : ∀ identity : String,
    t.bindings[identity]? = s.bindings[identity]?.map (Binding.rename ρ)
  rejected : t.rejected = s.rejected.map (Binding.rename ρ)

/-- A variable under new handles. -/
def Variable.rename (ρ : Renaming) (v : Variable) : Variable :=
  { v with pattern := v.pattern.rename ρ }

/-- An enum under new handles. -/
def EnumType.rename (ρ : Renaming) (e : EnumType) : EnumType :=
  { e with values := e.values.map ρ.handle }

/-- The value of an enum under new handles. -/
def EnumValue.rename (ρ : Renaming) (v : EnumValue) : EnumValue :=
  { v with owner := ρ.handle v.owner }

/-- The second state is the first one under new handles. -/
structure StateProperty.Renames (ρ : Renaming) (n : Nat) (s t : StateProperty) : Prop where
  identity : t.identity = s.identity
  pattern : t.pattern = s.pattern.rename ρ
  scope : t.scope = ρ.handle s.scope
  parameters : t.parameters = s.parameters.map ρ.handle
  initialValue : Expr.RenamesOption ρ n s.initialValue t.initialValue
  span : t.span = s.span

/-- The second function is the first one under new handles. -/
structure FunctionProperty.Renames (ρ : Renaming) (n : Nat) (f g : FunctionProperty) : Prop where
  identity : g.identity = f.identity
  pattern : g.pattern = f.pattern.rename ρ
  scope : g.scope = ρ.handle f.scope
  parameters : g.parameters = f.parameters.map ρ.handle
  body : Option.Rel (Block.Renames ρ n) f.body g.body
  span : g.span = f.span

/-- The second program is the first one under new handles. There are `n` values of enums, and the
values that enums and expressions mention are among them. -/
structure Program.Renames (ρ : Renaming) (n : Nat) (p q : Program) : Prop where
  scopes : p.scopes.Renames ρ (Scope.Renames ρ) q.scopes
  vars : p.vars.Renames ρ (fun v w => w = v.rename ρ) q.vars
  natives : p.natives.Renames ρ (fun t u => u = t) q.natives
  enums : p.enums.Renames ρ (fun e f => f = e.rename ρ ∧ ∀ v ∈ e.values, v.index < n) q.enums
  enumValues : p.enumValues.Renames ρ (fun v w => w = v.rename ρ) q.enumValues
  entities : p.entities.Renames ρ (fun e f => f = e) q.entities
  states : p.states.Renames ρ (StateProperty.Renames ρ n) q.states
  functions : p.functions.Renames ρ (FunctionProperty.Renames ρ n) q.functions
  size : p.enumValues.size = n
  phase : q.phase = p.phase

/-- What a scope binds, in the order of the names. -/
theorem Scope.Renames.values {ρ : Renaming} {s t : Scope} (h : s.Renames ρ t) :
    t.bindings.values = s.bindings.values.map (Binding.rename ρ) := by
  have hequiv : t.bindings.Equiv (s.bindings.map fun _ => Binding.rename ρ) := by
    apply Std.TreeMap.Equiv.of_forall_constGet?_eq
    intro identity
    exact (h.bound identity).trans
      (Std.TreeMap.getElem?_map (f := fun _ => Binding.rename ρ)).symm
  rw [bindings_values_eq, bindings_values_eq, hequiv.toList_eq, Std.TreeMap.toList_map]
  simp

/-- Scopes are compared name by name. -/
theorem Scope.renames_of_toList {ρ : Renaming} {s t : Scope}
    (hparent : t.parent = s.parent.map ρ.handle)
    (hbindings : t.bindings.toList = s.bindings.toList.map fun e => (e.1, e.2.rename ρ))
    (hrejected : t.rejected = s.rejected.map (Binding.rename ρ)) : s.Renames ρ t := by
  refine ⟨hparent, fun identity => ?_, hrejected⟩
  have hequiv : t.bindings.Equiv (s.bindings.map fun _ => Binding.rename ρ) := by
    rw [Std.TreeMap.equiv_iff_toList_eq, hbindings, Std.TreeMap.toList_map]
  rw [hequiv.getElem?_eq, Std.TreeMap.getElem?_map]

namespace Program.Renames

variable {ρ : Renaming} {n : Nat} {p q : Program} (h : p.Renames ρ n q)
include h

/-! ### Reading nodes -/

/-- Scopes are related under the renamed handle. -/
theorem scope_renames (s : ScopeId) : (p.scope s).Renames ρ (q.scope (ρ.handle s)) :=
  h.scopes.get ⟨rfl, fun _ => rfl, rfl⟩ s

/-- The variable under the renamed handle is the renamed variable. -/
theorem var_eq (k : VarId) : q.var (ρ.handle k) = (p.var k).rename ρ :=
  h.vars.get rfl k

/-- The native type under the renamed handle is the same. -/
theorem native_eq (k : NativeId) : q.native (ρ.handle k) = p.native k :=
  h.natives.get rfl k

/-- The enum under the renamed handle is the renamed enum, and its values are below the bound. -/
theorem enum_eq (k : EnumId) :
    q.enum (ρ.handle k) = (p.enum k).rename ρ ∧ ∀ v ∈ (p.enum k).values, v.index < n :=
  h.enums.get ⟨rfl, fun _ hv => absurd hv (List.not_mem_nil)⟩ k

/-- The entity under the renamed handle is the same. -/
theorem entity_eq (k : EntityId) : q.entity (ρ.handle k) = p.entity k :=
  h.entities.get rfl k

/-- Values that exist have owners that are renamed. -/
theorem enumValue_eq {v : EnumValueId} (hv : v.index < n) :
    q.enumValue (ρ.handle v) = (p.enumValue v).rename ρ := by
  rw [← h.size, ← Table.isSome_get?] at hv
  rw [Program.enumValue, Program.enumValue, Table.get, Table.get]
  obtain ⟨hp, -⟩ | ⟨a, b, hp, hq, hvalue⟩ := h.enumValues.get?_cases v
  · simp [hp] at hv
  · rw [hp, hq]
    exact hvalue

/-- The enum value under the renamed handle has the same name. -/
theorem enumValue_identity_eq (v : EnumValueId) :
    (q.enumValue (ρ.handle v)).identity = (p.enumValue v).identity := by
  rw [Program.enumValue, Program.enumValue, Table.get, Table.get]
  obtain ⟨hp, hq⟩ | ⟨a, b, hp, hq, hvalue⟩ := h.enumValues.get?_cases v
  · rw [hp, hq]
  · rw [hp, hq, hvalue]
    rfl

/-- States are related under the renamed handle. -/
theorem state_renames (k : StateId) : (p.state k).Renames ρ n (q.state (ρ.handle k)) :=
  h.states.get ⟨rfl, rfl, ρ.handle_globalScope.symm, rfl, .none, rfl⟩ k

/-- Functions are related under the renamed handle. -/
theorem function_renames (k : FunctionId) : (p.function k).Renames ρ n (q.function (ρ.handle k)) :=
  h.functions.get ⟨rfl, rfl, ρ.handle_globalScope.symm, rfl, .none, rfl⟩ k

/-- Both programs have the same number of properties. -/
theorem propertyCount_eq : q.propertyCount = p.propertyCount := by
  rw [propertyCount, propertyCount, h.states.size_eq, h.functions.size_eq]

/-- Renamed declarations have the same names. -/
theorem declIdentity_eq (d : Decl) : q.declIdentity (d.rename ρ) = p.declIdentity d := by
  cases d with
  | var k => exact (congrArg Variable.identity (h.var_eq k)).trans rfl
  | native k => exact congrArg NativeType.identity (h.native_eq k)
  | enum k => exact (congrArg EnumType.identity (h.enum_eq k).1).trans rfl
  | entity k => exact congrArg Entity.identity (h.entity_eq k)
  | state k => exact (h.state_renames k).identity
  | function k => exact (h.function_renames k).identity

/-- Renamed declarations have the same places. -/
theorem declSpan_eq (d : Decl) : q.declSpan (d.rename ρ) = p.declSpan d := by
  cases d with
  | var k => exact (congrArg Variable.span (h.var_eq k)).trans rfl
  | native k => exact congrArg NativeType.span (h.native_eq k)
  | enum k => exact (congrArg EnumType.span (h.enum_eq k).1).trans rfl
  | entity k => exact congrArg Entity.span (h.entity_eq k)
  | state k => exact (h.state_renames k).span
  | function k => exact (h.function_renames k).span

/-- What a renamed binding stands for has the same name. -/
theorem identity_eq (b : Binding) : q.identity (b.rename ρ) = p.identity b := by
  cases b with
  | decl d => exact h.declIdentity_eq d
  | overloaded identity members => rfl

/-- What a renamed binding stands for has the same place. -/
theorem bindingSpan_eq (b : Binding) : q.bindingSpan (b.rename ρ) = p.bindingSpan b := by
  cases b with
  | decl d => exact h.declSpan_eq d
  | overloaded identity members => rfl

/-- Messages show the names of types, not their handles. -/
theorem describe_eq (a : Pattern) : q.describe (a.rename ρ) = p.describe a := by
  induction a with
  | optional inner ih => exact congrArg (· ++ "?") ih
  | enum k => exact (congrArg EnumType.identity (h.enum_eq k).1).trans rfl
  | entity k => exact congrArg Entity.identity (h.entity_eq k)
  | native k => exact congrArg NativeType.identity (h.native_eq k)
  | _ => rfl

/-- A renamed scope declares the renamed declarations. -/
theorem declared_eq (s : ScopeId) :
    q.declared (ρ.handle s) = (p.declared s).map (Decl.rename ρ) := by
  rw [declared, declared, (h.scope_renames s).values, List.flatMap_map, List.map_flatMap]
  simp only [Binding.overloads_rename]

/-! ### Looking names up -/

/-- A renamed scope has the renamed chain. -/
theorem chain_eq (s : ScopeId) : q.chain (ρ.handle s) = (p.chain s).map ρ.handle := by
  rw [chain, chain, h.scopes.size_eq]
  generalize p.scopes.size = bound
  induction bound generalizing s with
  | zero => rfl
  | succ bound ih =>
    rw [chainUpTo, chainUpTo, (h.scope_renames s).parent, List.map_cons]
    cases (p.scope s).parent with
    | none => rfl
    | some t => simp only [Option.map_some, ih]

/-- A name in a renamed scope is bound to the renamed binding. -/
theorem boundIn_eq (identity : String) (s : ScopeId) :
    q.boundIn identity (ρ.handle s) = (p.boundIn identity s).map (Binding.rename ρ) :=
  (h.scope_renames s).bound identity

/-- A name seen from a renamed scope stands for the renamed binding. -/
theorem fetch_eq (s : ScopeId) (identity : String) :
    q.fetch (ρ.handle s) identity = (p.fetch s identity).map (Binding.rename ρ) := by
  rw [fetch, fetch, h.chain_eq, List.findSome?_map, List.map_findSome?]
  congr 1
  exact funext fun t => h.boundIn_eq identity t

/-- A name seen from a renamed scope stands for the renamed declarations. -/
theorem fetchOverloads_eq (s : ScopeId) (identity : String) :
    q.fetchOverloads (ρ.handle s) identity =
      (p.fetchOverloads s identity).map (Decl.rename ρ) := by
  rw [fetchOverloads, fetchOverloads, h.fetch_eq]
  cases p.fetch s identity <;> simp

/-- A property's name seen from a renamed scope stands for the renamed declarations. -/
theorem fetchProperty_eq (s : ScopeId) (identity : String) :
    q.fetchProperty (ρ.handle s) identity = (p.fetchProperty s identity).map (Decl.rename ρ) := by
  have hfind : ((q.chain (ρ.handle s)).findSome? fun t =>
        (q.boundIn identity t).filter Binding.isProperty) =
      ((p.chain s).findSome? fun t => (p.boundIn identity t).filter Binding.isProperty).map
        (Binding.rename ρ) := by
    rw [h.chain_eq, List.findSome?_map, List.map_findSome?]
    congr 1
    funext t
    simp only [Function.comp_apply, h.boundIn_eq]
    cases p.boundIn identity t with
    | none => rfl
    | some b => cases hb : b.isProperty <;> simp [Option.filter, hb]
  rw [fetchProperty, fetchProperty, hfind]
  cases (p.chain s).findSome? fun t => (p.boundIn identity t).filter Binding.isProperty <;> simp

/-- A search by name in a renamed enum finds the renamed value. -/
theorem enumValueNamed_eq (e : EnumId) (identity : String) :
    q.enumValueNamed (ρ.handle e) identity = (p.enumValueNamed e identity).map ρ.handle := by
  rw [enumValueNamed, enumValueNamed, (h.enum_eq e).1, EnumType.rename, List.find?_map]
  congr 2
  funext v
  simp only [Function.comp_apply, h.enumValue_identity_eq]

/-- A renamed scope sees a renamed enum exactly if the scope sees the enum. -/
theorem isVisibleEnum_eq (s : ScopeId) (e : EnumId) :
    q.isVisibleEnum (ρ.handle s) (ρ.handle e) = p.isVisibleEnum s e := by
  have hidentity : (q.enum (ρ.handle e)).identity = (p.enum e).identity :=
    (congrArg EnumType.identity (h.enum_eq e).1).trans rfl
  rw [isVisibleEnum, isVisibleEnum, hidentity, h.fetch_eq]
  cases p.fetch s (p.enum e).identity with
  | none => rfl
  | some b =>
    cases b with
    | decl d => simp [Binding.rename]
    | overloaded identity members => rfl

/-- The enums in a renamed scope are the renamed enums, in the same order. -/
theorem enumsIn_eq (s : ScopeId) : q.enumsIn (ρ.handle s) = (p.enumsIn s).map ρ.handle := by
  rw [enumsIn, enumsIn, (h.scope_renames s).values, List.filterMap_map, List.map_filterMap]
  congr 1
  funext b
  cases b with
  | decl d => cases d <;> rfl
  | overloaded identity members => rfl

/-- The enum values in reach of a renamed scope are the renamed values, in the same order. -/
theorem enumValuesInReach_eq (s : ScopeId) (identity : String) :
    q.enumValuesInReach (ρ.handle s) identity = (p.enumValuesInReach s identity).map ρ.handle := by
  have hreach : (q.chain (ρ.handle s)).flatMap q.enumsIn =
      ((p.chain s).flatMap p.enumsIn).map ρ.handle := by
    rw [h.chain_eq, List.flatMap_map, List.map_flatMap]
    congr 1
    exact funext h.enumsIn_eq
  have hvisible : q.isVisibleEnum (ρ.handle s) ∘ ρ.handle = p.isVisibleEnum s :=
    funext (h.isVisibleEnum_eq s)
  rw [enumValuesInReach, enumValuesInReach, hreach, List.filter_map, hvisible, List.filterMap_map,
    List.map_filterMap]
  congr 1
  exact funext fun e => h.enumValueNamed_eq e identity

end Program.Renames

end EntityLang
