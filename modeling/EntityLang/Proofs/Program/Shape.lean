import EntityLang.Proofs.Block.Sites
import EntityLang.Proofs.Expr.View

/-!
# The shape of a program

The skeleton of a program is what remains when patterns, expressions, rejected declarations and the
phase are forgotten. Resolving never changes it. Names mean the same in programs of the same shape,
because lookups read nothing else.
-/

namespace EntityLang

namespace Table

variable {kind : NodeKind} {α β : Type}

/-- Apply a function to every node. -/
def map (f : α → β) (t : Table kind α) : Table kind β := ⟨t.nodes.map f⟩

/-- A table keeps its size when its nodes are viewed. -/
@[simp] theorem size_map (f : α → β) (t : Table kind α) : (t.map f).size = t.size := by
  simp [map, size]

/-- The view of a table has the views of its nodes. -/
@[simp] theorem get?_map (f : α → β) (t : Table kind α) (h : Handle kind) :
    (t.map f).get? h = (t.get? h).map f := by
  simp [map, get?]

/-- Reading commutes with a function that keeps the blank node. -/
theorem get_map [Inhabited α] [Inhabited β] (f : α → β) (hf : f default = default)
    (t : Table kind α) (h : Handle kind) : (t.map f).get h = f (t.get h) := by
  rw [get, get, get?_map]
  cases t.get? h with
  | none => exact hf.symm
  | some a => rfl

/-- Tables with the same nodes are equal. -/
theorem ext_get? {t u : Table kind α} (h : ∀ k, t.get? k = u.get? k) : t = u := by
  cases t with
  | mk nodes =>
    cases u with
    | mk nodes' =>
      congr 1
      apply Array.ext_getElem?
      exact fun i => h ⟨i⟩

/-- A change that a function does not see leaves the table as it is under that function. -/
theorem map_modify {f : α → β} {g : α → α} (t : Table kind α) (h : Handle kind)
    (hfg : ∀ a, t.get? h = some a → f (g a) = f a) : (t.modify h g).map f = t.map f := by
  apply ext_get?
  intro k
  rw [get?_map, get?_map, get?_modify]
  by_cases hk : k = h
  · subst hk
    rw [if_pos rfl]
    cases ha : t.get? k with
    | none => rfl
    | some a => simp [hfg a ha]
  · rw [if_neg hk]

/-- A node reads as the change of what it was if its handle is in range, and as before otherwise. -/
theorem get_modify [Inhabited α] (t : Table kind α) (h k : Handle kind) (g : α → α) :
    (t.modify h g).get k = if k = h ∧ (t.get? h).isSome then g (t.get k) else t.get k := by
  rw [get, get, get?_modify]
  by_cases hk : k = h
  · subst hk
    cases t.get? k <;> simp
  · simp [hk]

/-- The handles in range. -/
def handles (t : Table kind α) : List (Handle kind) := (List.range t.size).map Handle.mk

/-- The handles of a table are those in range. -/
@[simp] theorem mem_handles (t : Table kind α) (h : Handle kind) :
    h ∈ t.handles ↔ h.index < t.size := by
  simp [handles, Handle.ext_iff]

/-- The handle that was next is in range once there is a new node. -/
theorem next_lt_size_push (t : Table kind α) (a : α) : t.next.index < (t.push a).size := by
  simp [next]

/-- Handles stay in range when there is a new node. -/
theorem lt_size_push (t : Table kind α) {n : Nat} {a : α} (h : n < t.size) :
    n < (t.push a).size := by
  rw [size_push]
  omega

/-- A new node is under the handle that was next. -/
theorem get_push_next [Inhabited α] (t : Table kind α) (a : α) : (t.push a).get t.next = a := by
  simp [get, get?_push]

/-- Nodes that are there stay when there is a new one. -/
theorem get_push_of_lt [Inhabited α] {t : Table kind α} {h : Handle kind} (hh : h.index < t.size)
    (a : α) : (t.push a).get h = t.get h := by
  have hne : h ≠ t.next := fun heq => by simp [heq, next] at hh
  simp [get, get?_push, hne]

/-- A handle out of range reads as the blank node. -/
theorem get_eq_default [Inhabited α] {t : Table kind α} {h : Handle kind} (hh : t.get? h = none) :
    t.get h = default := by
  rw [get, hh, Option.getD_none]

/-- A handle that does not read as the blank node is in range. -/
theorem index_lt_size [Inhabited α] {t : Table kind α} {h : Handle kind} (hh : t.get h ≠ default) :
    h.index < t.size := by
  rw [← isSome_get?, Option.isSome_iff_ne_none]
  exact fun hnone => hh (get_eq_default hnone)

end Table

/-- A scope with its rejected declarations forgotten. -/
def Scope.skeleton (s : Scope) : Scope := { s with rejected := [] }

/-- A variable with its pattern forgotten. -/
def Variable.skeleton (v : Variable) : Variable := { v with pattern := default }

/-- A state with its pattern and the content of its initial value forgotten. -/
def StateProperty.skeleton (s : StateProperty) : StateProperty :=
  { s with pattern := default, initialValue := s.initialValue.map fun _ => default }

/-- A function with its pattern and the expressions of its body forgotten. -/
def FunctionProperty.skeleton (f : FunctionProperty) : FunctionProperty :=
  { f with pattern := default, body := f.body.map Block.skeleton }

namespace Program

/-- A program with its patterns, expressions, rejected declarations and phase forgotten. -/
def skeleton (p : Program) : Program :=
  { p with
    scopes := p.scopes.map Scope.skeleton
    vars := p.vars.map Variable.skeleton
    states := p.states.map StateProperty.skeleton
    functions := p.functions.map FunctionProperty.skeleton
    phase := default }

section Reading

variable (p : Program)

/-- The skeleton of a program has the skeletons of its scopes. -/
@[simp] theorem scope_skeleton (s : ScopeId) : p.skeleton.scope s = (p.scope s).skeleton :=
  Table.get_map Scope.skeleton rfl p.scopes s

/-- The skeleton of a program has the skeletons of its variables. -/
@[simp] theorem var_skeleton (h : VarId) : p.skeleton.var h = (p.var h).skeleton :=
  Table.get_map Variable.skeleton rfl p.vars h

/-- The skeleton of a program has the skeletons of its states. -/
@[simp] theorem state_skeleton (h : StateId) : p.skeleton.state h = (p.state h).skeleton :=
  Table.get_map StateProperty.skeleton rfl p.states h

/-- The skeleton of a program has the skeletons of its functions. -/
@[simp] theorem function_skeleton (h : FunctionId) :
    p.skeleton.function h = (p.function h).skeleton :=
  Table.get_map FunctionProperty.skeleton rfl p.functions h

/-- The skeleton of a program has as many properties. -/
@[simp] theorem propertyCount_skeleton : p.skeleton.propertyCount = p.propertyCount := by
  simp [propertyCount, skeleton]

/-- The skeleton of a program declares the same in each scope. -/
@[simp] theorem declared_skeleton (s : ScopeId) : p.skeleton.declared s = p.declared s := by
  simp [declared, Scope.skeleton]

/-- The skeleton of a program binds the same names. -/
@[simp] theorem boundIn_skeleton : p.skeleton.boundIn = p.boundIn := by
  funext identity s
  simp [boundIn, Scope.skeleton]

/-- The skeleton of a program has the same chains of scopes. -/
@[simp] theorem chain_skeleton : p.skeleton.chain = p.chain := by
  have hchain (bound : Nat) (s : ScopeId) : p.skeleton.chainUpTo bound s = p.chainUpTo bound s := by
    induction bound generalizing s with
    | zero => rfl
    | succ bound ih => simp [chainUpTo, Scope.skeleton, ih]
  have hsize : p.skeleton.scopes.size = p.scopes.size := by simp [skeleton]
  funext s
  rw [chain, chain, hchain, hsize]

/-- Names mean the same in the skeleton. -/
@[simp] theorem fetch_skeleton (s : ScopeId) (identity : String) :
    p.skeleton.fetch s identity = p.fetch s identity := by
  simp [fetch]

/-- Names of properties mean the same in the skeleton. -/
@[simp] theorem fetchProperty_skeleton (s : ScopeId) (identity : String) :
    p.skeleton.fetchProperty s identity = p.fetchProperty s identity := by
  simp [fetchProperty]

/-- Enums have the same values in the skeleton. -/
@[simp] theorem enumValueNamed_skeleton (e : EnumId) (identity : String) :
    p.skeleton.enumValueNamed e identity = p.enumValueNamed e identity := rfl

/-- The same enum values are in reach in the skeleton. -/
@[simp] theorem enumValuesInReach_skeleton (s : ScopeId) (identity : String) :
    p.skeleton.enumValuesInReach s identity = p.enumValuesInReach s identity := by
  have hvisible : p.skeleton.isVisibleEnum s = p.isVisibleEnum s := by
    funext e
    unfold isVisibleEnum
    rw [fetch_skeleton]
    rfl
  have henums : p.skeleton.enumsIn = p.enumsIn := by
    funext t
    simp [enumsIn, Scope.skeleton]
  simp [enumValuesInReach, hvisible, henums]

/-- Properties have the same scopes in the skeleton. -/
@[simp] theorem ownScope?_skeleton (d : Decl) : p.skeleton.ownScope? d = p.ownScope? d := by
  cases d <;> simp [ownScope?, StateProperty.skeleton, FunctionProperty.skeleton]

/-- Declarations have the same names in the skeleton. -/
@[simp] theorem declIdentity_skeleton (d : Decl) :
    p.skeleton.declIdentity d = p.declIdentity d := by
  cases d with
  | native | enum | entity => rfl
  | _ => simp [declIdentity, Variable.skeleton, StateProperty.skeleton, FunctionProperty.skeleton]

/-- Declarations have the same places in the skeleton. -/
@[simp] theorem declSpan_skeleton (d : Decl) : p.skeleton.declSpan d = p.declSpan d := by
  cases d with
  | native | enum | entity => rfl
  | _ => simp [declSpan, Variable.skeleton, StateProperty.skeleton, FunctionProperty.skeleton]

end Reading

/-- Names mean the same in a program and in its skeleton. -/
theorem sameLookup_skeleton (p : Program) (s : ScopeId) : SameLookup p p.skeleton s where
  fetch _ := (fetch_skeleton p s _).symm
  fetchProperty _ := (fetchProperty_skeleton p s _).symm
  enumValuesInReach _ := (enumValuesInReach_skeleton p s _).symm
  enumValueNamed _ _ := rfl
  owner _ := rfl
  parameters f := by simp [FunctionProperty.skeleton]

/-- Names mean the same in programs of the same shape. -/
theorem sameLookup_of_skeleton_eq {p q : Program} (h : p.skeleton = q.skeleton) (s : ScopeId) :
    SameLookup p q s := by
  have hp := sameLookup_skeleton p s
  have hq := sameLookup_skeleton q s
  rw [h] at hp
  exact
    { fetch := fun identity => (hp.fetch identity).trans (hq.fetch identity).symm
      fetchProperty := fun identity => (hp.fetchProperty identity).trans
        (hq.fetchProperty identity).symm
      enumValuesInReach := fun identity => (hp.enumValuesInReach identity).trans
        (hq.enumValuesInReach identity).symm
      enumValueNamed := fun e identity => (hp.enumValueNamed e identity).trans
        (hq.enumValueNamed e identity).symm
      owner := fun v => (hp.owner v).trans (hq.owner v).symm
      parameters := fun f => (hp.parameters f).trans (hq.parameters f).symm }

end Program

end EntityLang
