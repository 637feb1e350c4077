import EntityLang.Proofs.Program.ParserShape

/-!
# The handles that a program holds

Handles are stored in every corner of a program: in patterns, in what names stand for, in what
scopes rejected, in the parameters and scopes of properties, in enums and their values, in blocks
and in expressions. They are listed here regardless of their kind. A program is ranged if each of
them has a node in the table of its kind.
-/

namespace EntityLang

/-- A handle of any kind. -/
structure Ref where
  kind : NodeKind
  index : Nat
  deriving DecidableEq

/-- The handle, its kind being part of it. -/
def Handle.ref {kind : NodeKind} (h : Handle kind) : Ref := ⟨kind, h.index⟩

/-- The handle of a declaration. -/
def Decl.ref : Decl → Ref
  | .var h => h.ref
  | .native h => h.ref
  | .enum h => h.ref
  | .entity h => h.ref
  | .state h => h.ref
  | .function h => h.ref

/-- The handle in a pattern. -/
def Pattern.refs : Pattern → List Ref
  | .unresolved _ => []
  | .optional inner => inner.refs
  | .invalid => []
  | .enum h => [h.ref]
  | .entity h => [h.ref]
  | .native h => [h.ref]

/-- The handles in a binding, through any nesting of overload sets. -/
def Binding.refs (b : Binding) : List Ref := b.overloads.map Decl.ref

/-- The handles in an expression, at any depth. -/
def Expr.refs (e : Expr) : List Ref :=
  e.subexprs.flatMap fun x =>
    x.handle?.toList.map Decl.ref ++ x.enumValue?.toList.map Handle.ref

mutual

/-- The handles in a block and in all blocks inside it. -/
def Block.refs : Block → List Ref
  | ⟨_, scope, statements, _⟩ => scope.ref :: Statement.refsAll statements

/-- The handles in a statement. -/
def Statement.refs : Statement → List Ref
  | .expr value => value.refs
  | .block body => body.refs
  | .cond branches otherwise _ =>
    Statement.refsBranches branches ++ Statement.refsOtherwise otherwise
  | .forEach item range body _ => item.ref :: range.refs ++ body.refs
  | .assign subject value _ => subject.refs ++ value.refs
  | .declare target value _ => target.ref :: value.toList.flatMap Expr.refs

/-- The handles in several statements. -/
def Statement.refsAll : List Statement → List Ref
  | [] => []
  | statement :: rest => statement.refs ++ Statement.refsAll rest

/-- The handles in the branches of a conditional statement. -/
def Statement.refsBranches : List (Branch Block) → List Ref
  | [] => []
  | ⟨condition, body, _⟩ :: rest => condition.refs ++ body.refs ++ Statement.refsBranches rest

/-- The handles in the block that is run when no condition holds. -/
def Statement.refsOtherwise : Option Block → List Ref
  | none => []
  | some body => body.refs

end

/-- The handles in a scope: its parent, what it binds and what it rejected. -/
def Scope.refs (s : Scope) : List Ref :=
  s.parent.toList.map Handle.ref ++ s.bindings.values.flatMap Binding.refs ++
    s.rejected.flatMap Binding.refs

/-- The handle in the pattern of a variable. -/
def Variable.refs (v : Variable) : List Ref := v.pattern.refs

/-- The values of an enum. -/
def EnumType.refs (e : EnumType) : List Ref := e.values.map Handle.ref

/-- The enum of a value. -/
def EnumValue.refs (v : EnumValue) : List Ref := [v.owner.ref]

/-- The handles in a state. -/
def StateProperty.refs (s : StateProperty) : List Ref :=
  s.pattern.refs ++ s.scope.ref :: s.parameters.map Handle.ref ++
    s.initialValue.toList.flatMap Expr.refs

/-- The handles in a function. -/
def FunctionProperty.refs (f : FunctionProperty) : List Ref :=
  f.pattern.refs ++ f.scope.ref :: f.parameters.map Handle.ref ++ Statement.refsOtherwise f.body

/-- The handles in all nodes of a table. -/
def Table.refs {kind : NodeKind} {α : Type} (f : α → List Ref) (t : Table kind α) : List Ref :=
  t.toList.flatMap f

namespace Program

/-- All handles in a program. Native types and entities hold none. -/
def refs (p : Program) : List Ref :=
  p.scopes.refs Scope.refs ++ p.vars.refs Variable.refs ++ p.enums.refs EnumType.refs ++
    p.enumValues.refs EnumValue.refs ++ p.states.refs StateProperty.refs ++
      p.functions.refs FunctionProperty.refs

/-- The number of nodes of each kind. -/
def count (p : Program) : NodeKind → Nat
  | .scope => p.scopes.size
  | .var => p.vars.size
  | .native => p.natives.size
  | .enum => p.enums.size
  | .enumValue => p.enumValues.size
  | .entity => p.entities.size
  | .state => p.states.size
  | .function => p.functions.size

end Program

/-- The handles have nodes if there are `n kind` nodes of each kind. -/
def Within (n : NodeKind → Nat) (rs : List Ref) : Prop := ∀ r ∈ rs, r.index < n r.kind

instance (n : NodeKind → Nat) (rs : List Ref) : Decidable (Within n rs) :=
  inferInstanceAs (Decidable (∀ r ∈ rs, r.index < n r.kind))

/-- Every handle in the program has a node. -/
def Program.Ranged (p : Program) : Prop := Within p.count p.refs

instance (p : Program) : Decidable p.Ranged := inferInstanceAs (Decidable (Within p.count p.refs))

section Within

variable {n m : NodeKind → Nat} {rs rs' : List Ref}

/-- An empty list of handles is in range. -/
@[simp] theorem within_nil : Within n [] := by simp [Within]

/-- The handles in two lists together are in range exactly if those in each list are. -/
@[simp] theorem within_append : Within n (rs ++ rs') ↔ Within n rs ∧ Within n rs' :=
  List.forall_mem_append

/-- Handles are in range exactly if the first one and the others are. -/
@[simp] theorem within_cons {r : Ref} : Within n (r :: rs) ↔ r.index < n r.kind ∧ Within n rs :=
  List.forall_mem_cons

/-- The handles of all members are in range exactly if those of each member are. -/
@[simp] theorem within_flatMap {α : Type} {f : α → List Ref} {xs : List α} :
    Within n (xs.flatMap f) ↔ ∀ x ∈ xs, Within n (f x) := by
  simp only [Within, List.mem_flatMap, forall_exists_index, and_imp]
  exact ⟨fun h x hx r hr => h r x hx hr, fun h r x hx hr => h x hx r hr⟩

/-- Handles of one kind are in range exactly if there are enough nodes of that kind for each. -/
@[simp] theorem within_map_ref {kind : NodeKind} {hs : List (Handle kind)} :
    Within n (hs.map Handle.ref) ↔ ∀ h ∈ hs, h.index < n kind :=
  List.forall_mem_map

/-- Handles stay in range when there are more nodes. -/
theorem Within.mono (h : Within n rs) (hnm : ∀ kind, n kind ≤ m kind) : Within m rs :=
  fun r hr => Nat.lt_of_lt_of_le (h r hr) (hnm r.kind)

end Within

/-- The handles in a child of an expression are handles in the expression. -/
theorem Expr.within_child {n : NodeKind → Nat} {e x : Expr} (he : Within n e.refs)
    (hx : x ∈ e.children) : Within n x.refs := by
  rw [Expr.refs, Expr.subexprs_eq, List.flatMap_cons, within_append, List.flatMap_assoc,
    within_flatMap] at he
  exact he.2 x hx

/-- The handles in a member of an overload set are handles in the set. -/
theorem Binding.within_member {n : NodeKind → Nat} {identity : String} {members : List Binding}
    (h : Within n (Binding.overloaded identity members).refs) {b : Binding} (hb : b ∈ members) :
    Within n b.refs := by
  rw [Binding.refs, Binding.overloads, Binding.overloadsAll_eq_flatMap, List.map_flatMap,
    within_flatMap] at h
  exact h b hb

/-- The handles in statements are those in each of them in turn. -/
theorem Statement.refsAll_eq_flatMap (xs : List Statement) :
    Statement.refsAll xs = xs.flatMap Statement.refs := by
  induction xs with
  | nil => rfl
  | cons x rest ih => rw [Statement.refsAll, List.flatMap_cons, ih]

/-- The handles in the result of a block are handles in the block. -/
theorem Block.within_result {n : NodeKind → Nat} {b : Block} (hb : Within n b.refs) {e : Expr}
    (he : b.result? = some e) : Within n e.refs := by
  have hlast := Block.mem_statements_of_result? he
  obtain ⟨singleton, scope, statements, span⟩ := b
  rw [Block.refs, Statement.refsAll_eq_flatMap, within_cons, within_flatMap] at hb
  exact hb.2 (.expr e) hlast

mutual

/-- The scopes that the walk of a block enters are among the handles in the block. -/
theorem Block.ref_mem_refs (outer : ScopeId) (hinted : Bool) : (b : Block) → {o c : ScopeId} →
    .enter o c ∈ b.sites outer hinted → c.ref ∈ b.refs
  | ⟨singleton, scope, statements, span⟩, o, c, hc => by
    rw [Block.sites, List.mem_cons] at hc
    rw [Block.refs, List.mem_cons]
    rcases hc with hc | hc
    · exact .inl (congrArg Handle.ref (Site.enter.inj hc).2)
    · exact .inr (Statement.ref_mem_refsAll scope _ statements hc)

/-- The scopes that the walk of a statement enters are among the handles in it. -/
theorem Statement.ref_mem_refs (s : ScopeId) (hinted : Bool) : (statement : Statement) →
    {o c : ScopeId} → .enter o c ∈ statement.sites s hinted → c.ref ∈ statement.refs
  | .expr value, _, _, hc => by simp [Statement.sites] at hc
  | .block body, _, _, hc => Block.ref_mem_refs s false body hc
  | .cond branches otherwise span, _, _, hc => by
    rw [Statement.refs, List.mem_append]
    exact (List.mem_append.mp hc).imp (Statement.ref_mem_refsBranches s branches)
      (Statement.ref_mem_refsOtherwise s otherwise)
  | .forEach item range body span, _, _, hc => by
    have hbody := (List.mem_cons.mp hc).resolve_left (by simp)
    exact List.mem_append_right _ (Block.ref_mem_refs s false body hbody)
  | .assign subject value span, _, _, hc => by simp [Statement.sites] at hc
  | .declare target value span, _, _, hc => by simp [Statement.sites] at hc

/-- The scopes that the walk of statements enters are among the handles in them. -/
theorem Statement.ref_mem_refsAll (s : ScopeId) (hinted : Bool) : (statements : List Statement) →
    {o c : ScopeId} → .enter o c ∈ Statement.sitesAll s hinted statements →
    c.ref ∈ Statement.refsAll statements
  | [], _, _, hc => by simp [Statement.sitesAll] at hc
  | statement :: rest, _, _, hc => by
    rw [Statement.refsAll, List.mem_append]
    exact (List.mem_append.mp hc).imp (Statement.ref_mem_refs s _ statement)
      (Statement.ref_mem_refsAll s hinted rest)

/-- The scopes that the walk of branches enters are among the handles in them. -/
theorem Statement.ref_mem_refsBranches (s : ScopeId) : (branches : List (Branch Block)) →
    {o c : ScopeId} → .enter o c ∈ Statement.sitesBranches s branches →
    c.ref ∈ Statement.refsBranches branches
  | [], _, _, hc => by simp [Statement.sitesBranches] at hc
  | ⟨condition, body, span⟩ :: rest, _, _, hc => by
    have hparts := (List.mem_cons.mp hc).resolve_left (by simp)
    rw [Statement.refsBranches, List.mem_append]
    refine (List.mem_append.mp hparts).imp (fun hbody => ?_)
      (Statement.ref_mem_refsBranches s rest)
    exact List.mem_append_right _ (Block.ref_mem_refs s false body hbody)

/-- The scopes that the walk of a last block enters are among the handles in it. -/
theorem Statement.ref_mem_refsOtherwise (s : ScopeId) : (otherwise : Option Block) →
    {o c : ScopeId} → .enter o c ∈ Statement.sitesOtherwise s otherwise →
    c.ref ∈ Statement.refsOtherwise otherwise
  | none, _, _, hc => by simp [Statement.sitesOtherwise] at hc
  | some body, _, _, hc => Block.ref_mem_refs s false body hc

end

namespace Table

variable {kind : NodeKind} {α : Type} {n : NodeKind → Nat} {f : α → List Ref} {t : Table kind α}

/-- The handles in a longer table are in range exactly if those in the table and in the new node
are. -/
@[simp] theorem within_refs_push {a : α} :
    Within n ((t.push a).refs f) ↔ Within n (t.refs f) ∧ Within n (f a) := by
  simp [refs, toList, push]

/-- The handles in a longer table are in range exactly if those in the table and in all new nodes
are. -/
@[simp] theorem within_refs_pushAll {nodes : List α} :
    Within n ((t.pushAll nodes).2.refs f) ↔ Within n (t.refs f) ∧ ∀ a ∈ nodes, Within n (f a) := by
  induction nodes generalizing t with
  | nil => simp [pushAll]
  | cons a rest ih => simp [pushAll, ih, and_assoc]

variable [Inhabited α]

/-- The handles in a table are those in the nodes under its handles. -/
theorem within_refs_iff :
    Within n (t.refs f) ↔ ∀ h : Handle kind, h.index < t.size → Within n (f (t.get h)) := by
  have hget {i : Nat} (hi : i < t.size) : t.toList[i]? = some (t.get ⟨i⟩) := by
    have hsome : t.nodes[i]? = some t.nodes[i] := Array.getElem?_eq_getElem hi
    simp [toList, get, get?, hsome]
  rw [refs, within_flatMap]
  constructor
  · intro h k hk
    exact h _ (List.mem_of_getElem? (hget hk))
  · intro h a ha
    obtain ⟨i, hi, rfl⟩ := List.getElem_of_mem ha
    have hsize : i < t.size := by simpa [toList, size] using hi
    have hnode := h ⟨i⟩ hsize
    rwa [← Option.some.inj ((List.getElem?_eq_getElem hi).symm.trans (hget hsize))] at hnode

/-- After a change there are new handles in one node only. -/
theorem within_refs_modify (ht : Within n (t.refs f)) {h : Handle kind} {g : α → α}
    (hg : Within n (f (g (t.get h)))) : Within n ((t.modify h g).refs f) := by
  rw [within_refs_iff] at ht ⊢
  intro k hk
  rw [get_modify]
  split
  · rename_i hkh
    rwa [hkh.1]
  · exact ht k (by simpa using hk)

end Table

namespace Program

variable {p : Program}

/-- A declaration has a node exactly when its handle does. -/
theorem hasNode_iff_count (p : Program) (d : Decl) :
    p.HasNode d ↔ d.ref.index < p.count d.ref.kind := by
  cases d <;> rfl

/-- The handles in a binding have nodes exactly when all its leaves do. -/
theorem within_binding_iff {b : Binding} :
    Within p.count b.refs ↔ ∀ d ∈ b.overloads, p.HasNode d := by
  simp only [hasNode_iff_count]
  exact List.forall_mem_map

/-- The handles in a program are those in its tables. -/
theorem within_refs_iff {n : NodeKind → Nat} : Within n p.refs ↔
    Within n (p.scopes.refs Scope.refs) ∧ Within n (p.vars.refs Variable.refs) ∧
    Within n (p.enums.refs EnumType.refs) ∧ Within n (p.enumValues.refs EnumValue.refs) ∧
    Within n (p.states.refs StateProperty.refs) ∧
    Within n (p.functions.refs FunctionProperty.refs) := by
  simp only [refs, within_append, and_assoc]

/-- A program is ranged exactly when all its nodes are. -/
theorem ranged_iff : p.Ranged ↔
    (∀ s : ScopeId, s.index < p.scopes.size → Within p.count (p.scope s).refs) ∧
    (∀ v : VarId, v.index < p.vars.size → Within p.count (p.var v).refs) ∧
    (∀ e : EnumId, e.index < p.enums.size → Within p.count (p.enum e).refs) ∧
    (∀ v : EnumValueId, v.index < p.enumValues.size → Within p.count (p.enumValue v).refs) ∧
    (∀ h : StateId, h.index < p.states.size → Within p.count (p.state h).refs) ∧
    ∀ h : FunctionId, h.index < p.functions.size → Within p.count (p.function h).refs := by
  simp only [Ranged, within_refs_iff, Table.within_refs_iff]
  rfl

/-- Whatever is bound in a ranged program has a node. -/
theorem Ranged.hasNode (hp : p.Ranged) {s : ScopeId} {d : Decl} (hd : d ∈ p.declared s) :
    p.HasNode d := by
  have hs := (ranged_iff.mp hp).1 s (index_lt_size_of_declaredIn (.inl hd))
  simp only [Scope.refs, within_append, within_flatMap, within_binding_iff] at hs
  obtain ⟨b, hb, hd⟩ := List.mem_flatMap.mp hd
  exact hs.1.2 b hb d hd

/-- The parent of a scope in a ranged program is in range. -/
theorem Ranged.parent (hp : p.Ranged) {s t : ScopeId} (ht : (p.scope s).parent = some t) :
    t.index < p.scopes.size := by
  have hs := (ranged_iff.mp hp).1 s (index_lt_size_of_parent ht)
  simp only [Scope.refs, within_append, within_map_ref, Option.mem_toList] at hs
  exact hs.1.1 t ht

end Program

end EntityLang
