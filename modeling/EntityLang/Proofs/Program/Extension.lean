import EntityLang.Proofs.Pattern.Resolved
import EntityLang.Proofs.Program.Intact

/-!
# Programs inside larger programs

A program extends another one if it has all nodes of that one, and perhaps more. What the additional
nodes hold is arbitrary, and they stand exactly where a dangling handle would lead to. No handle of
an intact program leads there, so whatever is read along its handles is the same in both programs:
lookups, inferred patterns and resolved expressions.
-/

namespace EntityLang

/-- A change to a node that both tables have keeps one of them an extension of the other. -/
theorem Table.Extends.modify {kind : NodeKind} {α : Type} [Inhabited α] {t u : Table kind α}
    (htu : t.Extends u) (h : Handle kind) (g : α → α) : (t.modify h g).Extends (u.modify h g) := by
  intro k hk
  rw [size_modify] at hk ⊢
  obtain ⟨hsize, hget⟩ := htu k hk
  refine ⟨hsize, ?_⟩
  by_cases hkh : k = h
  · subst hkh
    rw [get_modify, get_modify, if_pos ⟨rfl, (isSome_get? _ _).mpr hsize⟩,
      if_pos ⟨rfl, (isSome_get? _ _).mpr hk⟩, hget]
  · rw [get_modify_of_ne hkh, get_modify_of_ne hkh, hget]

/-- The handle in a pattern is the one in its core. -/
theorem Pattern.refs_core (x : Pattern) : x.core.refs = x.refs := by
  induction x with
  | optional inner ih => exact ih
  | _ => rfl

namespace Program

/-- The second program has all nodes of the first one, and perhaps more. -/
structure Extends (p q : Program) : Prop where
  scopes : p.scopes.Extends q.scopes
  vars : p.vars.Extends q.vars
  natives : p.natives.Extends q.natives
  enums : p.enums.Extends q.enums
  enumValues : p.enumValues.Extends q.enumValues
  entities : p.entities.Extends q.entities
  states : p.states.Extends q.states
  functions : p.functions.Extends q.functions
  phase : q.phase = p.phase

/-- Two ways to enter scopes do the same in the scopes of the program. -/
def EntersAlike {α : Type} (p : Program) (enter enter' : ScopeId → α) : Prop :=
  ∀ c : ScopeId, c.index < p.scopes.size → enter' c = enter c

/-- Every program extends itself. -/
theorem extends_refl (p : Program) : p.Extends p where
  scopes := Table.extends_refl _
  vars := Table.extends_refl _
  natives := Table.extends_refl _
  enums := Table.extends_refl _
  enumValues := Table.extends_refl _
  entities := Table.extends_refl _
  states := Table.extends_refl _
  functions := Table.extends_refl _
  phase := rfl

variable {p q : Program}

/-- A larger program has grown, and no scope of the smaller one has changed. -/
theorem Extends.grows (h : p.Extends q) : p.Grows q fun _ => False where
  size := h.scopes.size_le
  scope s hs _ := (h.scopes s hs).2
  vars := h.vars
  natives := h.natives
  enums := h.enums
  enumValues := h.enumValues
  entities := h.entities
  states := h.states
  functions f hf := ⟨(h.functions f hf).1, congrArg FunctionProperty.signature (h.functions f hf).2⟩

/-- An expression has nothing but nodes in it exactly when all of its handles have nodes. -/
theorem within_expr_iff {e : Expr} : Within p.count e.refs ↔ e.KnownIn p.nodes := by
  have hhandle (x : Expr) : Within p.count (x.handle?.toList.map Decl.ref) ↔
      ∀ d ∈ x.handle?, p.HasNode d := by
    simp [Within, hasNode_iff_count]
  simp only [Expr.refs, within_flatMap, within_append, hhandle, within_map_ref, Option.mem_toList]
  rfl

/-- The enum that a pattern asks for is known if it has a node. -/
theorem knownIn_of_within {x : Pattern} (hx : Within p.count x.refs) : x.KnownIn p.nodes := by
  intro e he
  have hcore : x.core = .enum e := by
    unfold Pattern.enum? at he
    split at he
    · rename_i hcore
      exact hcore.trans (congrArg Pattern.enum (Option.some.inj he))
    · simp at he
  rw [← Pattern.refs_core, hcore] at hx
  exact (within_cons.mp hx).1

section Intact

variable (hp : p.Intact)
include hp

/-- The handle in the pattern of a declaration has a node. -/
theorem Intact.declPattern {d : Decl} (hd : p.HasNode d) :
    Within p.count (p.declPattern d).refs := by
  cases d with
  | var h => exact (ranged_iff.mp hp.ranged).2.1 h hd
  | state h => exact (within_append.mp (within_append.mp (hp.state hd)).1).1
  | function h => exact (within_append.mp (within_append.mp (hp.function hd)).1).1
  | _ => exact within_nil

/-- A value with a node belongs to an enum with a node. -/
theorem Intact.owner_lt {v : EnumValueId} (hv : v.index < p.enumValues.size) :
    (p.enumValue v).owner.index < p.enums.size :=
  (within_cons.mp ((ranged_iff.mp hp.ranged).2.2.2.1 v hv)).1

/-- An intact program is linked. -/
theorem Intact.linked : p.Linked where
  parent _ _ _ ht := hp.ranged.parent ht
  declared _ _ _ hd := hp.ranged.hasNode hd
  varPattern v hv :=
    knownIn_of_within (hp.declPattern (d := .var v) ((Table.mem_handles _ _).mp hv))
  statePattern h hh :=
    knownIn_of_within (hp.declPattern (d := .state h) ((Table.mem_handles _ _).mp hh))
  functionPattern h hh :=
    knownIn_of_within (hp.declPattern (d := .function h) ((Table.mem_handles _ _).mp hh))
  parameters h hh v hv := by
    have hnode := hp.function ((Table.mem_handles _ h).mp hh)
    simp only [FunctionProperty.refs, within_append, within_cons, within_map_ref] at hnode
    exact hnode.1.2.2 v hv
  values _ _ _ hv := hp.value_lt hv
  owner v hv := hp.owner_lt ((Table.mem_handles _ v).mp hv)

/-- Every chain of parents ends. -/
theorem Intact.chainEnds {s : ScopeId} (hs : s.index < p.scopes.size) : p.ChainEnds s := by
  have hwf : WellFounded fun t s => p.LiesIn s t :=
    Subrelation.wf (fun h => hp.parent _ _ h) (measure Handle.index).wf
  exact hp.ranged.chainEnds (fun t => not_transGen_of_acc (hwf.apply t)) hs

/-- The handle in an inferred pattern has a node. -/
theorem Intact.pattern {e : Expr} (he : Within p.count e.refs) :
    Within p.count (e.pattern p).refs := by
  have hknown := within_expr_iff.mp he
  refine Expr.pattern_induction (C := fun x => Within p.count x.refs) ?_ p within_nil ?_ ?_ ?_
  · intro x y hxy hx
    rwa [← Pattern.refs_core, ← hxy, Pattern.refs_core]
  · intro value
    have hsize := hp.intrinsics
    cases value <;> exact within_cons.mpr ⟨Nat.lt_of_lt_of_le (by decide) hsize, within_nil⟩
  · exact fun x hx d hd => hp.declPattern ((hknown x hx).1 d hd)
  · exact fun x hx v hv => within_cons.mpr ⟨hp.owner_lt ((hknown x hx).2 v hv), within_nil⟩

variable {s : ScopeId} (hs : s.index < p.scopes.size)
include hs

/-- The handles in a resolved expression have nodes. -/
theorem Intact.resolve {e : Expr} (he : Within p.count e.refs) {hint : Option Pattern}
    (hhint : ∀ x ∈ hint, Within p.count x.refs) :
    Within p.count (e.resolve p s hint).value.refs := by
  have hbound := Expr.resolve_bound (hp.linked.closed hs) (within_expr_iff.mp he)
    fun x hx => knownIn_of_within (hhint x hx)
  exact within_expr_iff.mpr (Expr.bound_iff.mp hbound).2

/-- The handle in a resolved pattern has a node. -/
theorem Intact.resolvePattern {x : Pattern} (hx : Within p.count x.refs) :
    Within p.count (x.resolve p s).value.refs := by
  rw [Pattern.resolve_value]
  induction x with
  | unresolved name =>
    have hnode {d : Decl} (hd : p.fetch s name.identity = some (.decl d)) : p.HasNode d :=
      hp.linked.hasNode_of_visible hs (visible_of_fetch hd (by simp [Binding.overloads]))
    rw [Pattern.named, typeNamed]
    split
    · rename_i hfetch
      exact within_cons.mpr ⟨hnode hfetch, within_nil⟩
    · rename_i hfetch
      exact within_cons.mpr ⟨hnode hfetch, within_nil⟩
    · rename_i hfetch
      exact within_cons.mpr ⟨hnode hfetch, within_nil⟩
    · exact within_nil
  | optional inner ih => exact ih hx
  | _ => exact hx

end Intact

/-! ### What both programs have in common -/

section Extends

variable (h : p.Extends q)
include h

/-- The names of declarations that are there stay in a larger program. -/
theorem Extends.declIdentity_eq {d : Decl} (hd : p.HasNode d) :
    q.declIdentity d = p.declIdentity d := by
  cases d with
  | var k => exact congrArg Variable.identity (h.vars k hd).2
  | native k => exact congrArg NativeType.identity (h.natives k hd).2
  | enum k => exact congrArg EnumType.identity (h.enums k hd).2
  | entity k => exact congrArg Entity.identity (h.entities k hd).2
  | state k => exact congrArg StateProperty.identity (h.states k hd).2
  | function k => exact congrArg FunctionProperty.identity (h.functions k hd).2

/-- The places of declarations that are there stay in a larger program. -/
theorem Extends.declSpan_eq {d : Decl} (hd : p.HasNode d) : q.declSpan d = p.declSpan d := by
  cases d with
  | var k => exact congrArg Variable.span (h.vars k hd).2
  | native k => exact congrArg NativeType.span (h.natives k hd).2
  | enum k => exact congrArg EnumType.span (h.enums k hd).2
  | entity k => exact congrArg Entity.span (h.entities k hd).2
  | state k => exact congrArg StateProperty.span (h.states k hd).2
  | function k => exact congrArg FunctionProperty.span (h.functions k hd).2

/-- The pattern of an expression is inferred alike. -/
theorem Extends.pattern_eq {e : Expr} (he : Within p.count e.refs) : e.pattern q = e.pattern p := by
  have howner (v : EnumValueId) (hv : p.nodes.value v) :
      (p.enumValue v).owner = (q.enumValue v).owner :=
    (congrArg EnumValue.owner (h.enumValues v hv).2).symm
  exact (Expr.pattern_congr howner (fun d hd => (h.grows.declPattern hd).symm)
    (within_expr_iff.mp he)).symm

variable (hp : p.Intact) {s : ScopeId} (hs : s.index < p.scopes.size)
include hp hs

/-- Lookups and nodes read the same. -/
theorem Extends.agree : p.nodes.Agree p q s :=
  h.grows.agree hp.linked hs (fun _ _ hfalse => hfalse) (hp.chainEnds hs)

/-- An expression is resolved alike. -/
theorem Extends.resolve_eq {e : Expr} (he : Within p.count e.refs) {hint : Option Pattern}
    (hhint : ∀ x ∈ hint, Within p.count x.refs) : e.resolve q s hint = e.resolve p s hint :=
  (Expr.resolve_congr (h.agree hp hs) (hp.linked.closed hs) (within_expr_iff.mp he)
    (.inr (h.grows.sameParameters hp.linked hs))
    fun x hx => knownIn_of_within (hhint x hx)).symm

/-- What a scope rejected is reported alike. -/
theorem Extends.rejectedReports_eq : q.rejectedReports s = p.rejectedReports s := by
  have hscope : q.scope s = p.scope s := (h.scopes s hs).2
  have hrejected := (Scope.within_refs_iff.mp (hp.scope s)).2.2
  rw [rejectedReports, rejectedReports, hscope]
  refine List.map_congr_left fun b hb => ?_
  cases b with
  | overloaded own members => rfl
  | decl d =>
    have hnode := within_binding_iff.mp (hrejected _ hb) d (by simp [Binding.overloads])
    simp only [identity, bindingSpan, h.declIdentity_eq hnode, h.declSpan_eq hnode]

/-- A pattern is resolved alike. -/
theorem Extends.resolvePattern_eq (x : Pattern) : x.resolve q s = x.resolve p s :=
  (Pattern.resolve_congr (h.agree hp hs).fetch x).symm

end Extends

end Program

end EntityLang
