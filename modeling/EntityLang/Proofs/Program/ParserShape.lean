import EntityLang.Proofs.Program.Construction
import EntityLang.Proofs.Program.Reach

/-!
# Programs as a parser builds them

A parser opens a new scope for each property and for each block, inside the scope where the property
is declared or the block stands. Variables are declared in the block whose statement names them, and
expressions hold literals and names only.

In such a program a scope comes before all scopes that it leads to, so the properties that are still
ahead of a walk become fewer with every scope that it enters.
-/

namespace EntityLang

namespace Expr

/-- The node is one that a parser writes: no handle has been put in, and nothing has failed yet. -/
def isSource : Expr → Bool
  | .var _ _ | .enumValue _ _ | .invalid _ => false
  | .property _ (.state _) _ | .property _ (.function _) _ | .call (.function _) _ _ => false
  | _ => true

/-- The expression holds literals and names only. -/
def IsSource (e : Expr) : Prop := e.Everywhere fun x => x.isSource = true

instance (e : Expr) : Decidable e.IsSource :=
  inferInstanceAs (Decidable (∀ x ∈ e.subexprs, x.isSource = true))

/-- Literals and names refer to nothing yet. -/
theorem IsSource.handlesIn {e : Expr} (he : e.IsSource) (A : Decl → Prop) : e.HandlesIn A := by
  intro x hx d hd
  have hsource : x.isSource = true := he x hx
  exfalso
  cases x with
  | property subject target span => cases target <;> simp_all [isSource, handle?]
  | call callee args span => cases callee <;> simp_all [isSource, handle?]
  | _ => simp_all [isSource, handle?]

end Expr

/-- What is expected of an expression is taken from source text in the scope. -/
def Expectation.Placed (p : Program) (s : ScopeId) : Expectation → Prop
  | .like subject => subject.IsSource
  | .declared v => p.DeclaredIn s (.var v)
  | _ => True

instance (p : Program) (s : ScopeId) (x : Expectation) : Decidable (x.Placed p s) :=
  match x with
  | .like subject => inferInstanceAs (Decidable subject.IsSource)
  | .declared v => inferInstanceAs (Decidable (p.DeclaredIn s (.var v)))
  | .anything | .result | .truth => .isTrue trivial

/-- The site is one that a parser writes: a block lies where its scope is nested, expressions are
source text, and variables are declared in the block that they belong to. -/
def Site.Placed (p : Program) : Site → Prop
  | .enter outer c => (p.scope c).parent = some outer
  | .eval s expected e => expected.Placed p s ∧ e.IsSource
  | .declare s v => p.DeclaredIn s (.var v)

instance (p : Program) (x : Site) : Decidable (x.Placed p) :=
  match x with
  | .enter outer c => inferInstanceAs (Decidable ((p.scope c).parent = some outer))
  | .eval s expected e => inferInstanceAs (Decidable (expected.Placed p s ∧ e.IsSource))
  | .declare s v => inferInstanceAs (Decidable (p.DeclaredIn s (.var v)))

namespace Program

/-- The scopes of all properties and of all blocks. -/
def innerScopes (p : Program) : List ScopeId :=
  (p.states.handles.map fun h => (p.state h).scope) ++
    (p.functions.handles.map fun h => (p.function h).scope) ++
      p.functions.handles.flatMap fun h => (p.function h).body.toList.flatMap Block.scopes

/-- Scopes are nested as a parser nests them, and expressions are source text. -/
structure Arranged (p : Program) : Prop where
  /-- The scope of a property lies in the scope where the property is declared. -/
  own : ∀ s ∈ p.scopes.handles, ∀ d ∈ p.declared s ++ p.rejectedIn s, ∀ t ∈ p.ownScope? d,
    (p.scope t).parent = some s
  /-- Initial values are source text. -/
  values : ∀ h ∈ p.states.handles, ∀ e ∈ (p.state h).initialValue, e.IsSource
  /-- The body of a function lies in the scope of the function, and all in it is well placed. -/
  bodies : ∀ h ∈ p.functions.handles, ∀ b ∈ (p.function h).body,
    ∀ x ∈ b.sites (p.function h).scope true, x.Placed p
  /-- No two properties or blocks share a scope. -/
  fresh : p.innerScopes.Nodup

instance (p : Program) : Decidable p.Arranged :=
  decidable_of_iff (_ ∧ _ ∧ _ ∧ _)
    ⟨fun ⟨own, values, bodies, fresh⟩ => ⟨own, values, bodies, fresh⟩,
      fun h => ⟨h.own, h.values, h.bodies, h.fresh⟩⟩

/-- The program is as a parser builds it. -/
structure ParserShaped (p : Program) : Prop extends Arranged p where
  built : p.Built

/-- The parameters of a function are declared in the scope of the function. -/
def OwnsParameters (p : Program) : Prop :=
  ∀ h ∈ p.functions.handles, ∀ v ∈ (p.function h).parameters,
    p.DeclaredIn (p.function h).scope (.var v)

instance (p : Program) : Decidable p.OwnsParameters :=
  inferInstanceAs (Decidable (∀ h ∈ p.functions.handles, ∀ v ∈ (p.function h).parameters,
    p.DeclaredIn (p.function h).scope (.var v)))

variable {p : Program}

/-- A parameter is declared in the scope of its function. -/
theorem OwnsParameters.declaredIn (hp : p.OwnsParameters) {h : FunctionId} {v : VarId}
    (hv : v ∈ (p.function h).parameters) : p.DeclaredIn (p.function h).scope (.var v) := by
  apply hp h ((Table.mem_handles _ _).mpr ?_) v hv
  apply Table.index_lt_size
  intro hblank
  have hnil : (default : FunctionProperty).parameters = [] := rfl
  rw [function, hblank, hnil] at hv
  exact absurd hv (by simp)

/-- A scope that has a parent is in range. -/
theorem index_lt_size_of_parent {s t : ScopeId} (h : (p.scope t).parent = some s) :
    t.index < p.scopes.size := by
  apply Table.index_lt_size
  intro hblank
  have hnone : (default : Scope).parent = none := rfl
  rw [scope, hblank, hnone] at h
  exact absurd h (by simp)

/-- A scope that declares something is in range. -/
theorem index_lt_size_of_declaredIn {s : ScopeId} {d : Decl} (h : p.DeclaredIn s d) :
    s.index < p.scopes.size := by
  apply Table.index_lt_size
  intro hblank
  have hvalues : (default : Scope).bindings.values = [] := rfl
  have hrejected : (default : Scope).rejected = [] := rfl
  rw [DeclaredIn, declared, rejectedIn, scope, hblank, hvalues, hrejected] at h
  exact absurd h (by simp)

section Chain

variable (hp : p.Sound)
include hp

/-- More than enough steps along a chain are as good as enough. -/
theorem Sound.chainUpTo_eq {n m : Nat} {s : ScopeId} (hn : s.index < n) (hm : s.index < m) :
    p.chainUpTo n s = p.chainUpTo m s := by
  induction n generalizing m s with
  | zero => omega
  | succ n ih =>
    cases m with
    | zero => omega
    | succ m =>
      rw [chainUpTo, chainUpTo]
      cases hparent : (p.scope s).parent with
      | none => rfl
      | some t =>
        have ht := hp.parent s t hparent
        simp only [ih (show t.index < n by omega) (show t.index < m by omega)]

/-- The chain of a scope continues with the chain of its parent. -/
theorem Sound.chain_of_parent {s t : ScopeId} (h : (p.scope t).parent = some s) :
    p.chain t = t :: p.chain s := by
  have ht := index_lt_size_of_parent h
  have hs := hp.parent t s h
  obtain ⟨n, hn⟩ : ∃ n, p.scopes.size = n + 1 := ⟨p.scopes.size - 1, by omega⟩
  rw [chain, hn, chainUpTo, h, chain]
  change t :: p.chainUpTo n s = _
  rw [hp.chainUpTo_eq (show s.index < n by omega) (show s.index < p.scopes.size by omega)]

/-- The chain of the global scope goes nowhere else. -/
theorem Sound.eq_of_mem_chain_globalScope {t : ScopeId} (h : t ∈ p.chain globalScope) :
    t = globalScope := by
  have hnone : (p.scope globalScope).parent = none := by
    cases hparent : (p.scope globalScope).parent with
    | none => rfl
    | some s => exact absurd (hp.parent _ s hparent) (Nat.not_lt_zero _)
  rw [chain] at h
  cases hsize : p.scopes.size with
  | zero => simp [hsize, chainUpTo] at h
  | succ n => simpa [hsize, chainUpTo, hnone] using h

end Chain

section Shape

variable (hp : p.ParserShaped)
include hp

/-- The scope of a property that is bound in a scope lies in that scope. -/
theorem ParserShaped.parent_own {s t : ScopeId} {d : Decl} (hd : d ∈ p.declared s)
    (ht : p.ownScope? d = some t) : (p.scope t).parent = some s := by
  have hs := index_lt_size_of_declaredIn (.inl hd)
  exact hp.own s ((Table.mem_handles _ _).mpr hs) d (List.mem_append_left _ hd) t ht

/-- Everything in a body is well placed. -/
theorem ParserShaped.placed {h : FunctionId} {b : Block} (hb : (p.function h).body = some b)
    {x : Site} (hx : x ∈ b.sites (p.function h).scope true) : x.Placed p := by
  apply hp.bodies h ((Table.mem_handles _ _).mpr ?_) b hb x hx
  apply Table.index_lt_size
  intro hblank
  have hnone : (default : FunctionProperty).body = none := rfl
  rw [function, hblank, hnone] at hb
  exact absurd hb (by simp)

/-- Every initial value is source text. -/
theorem ParserShaped.isSource {h : StateId} {e : Expr} (he : (p.state h).initialValue = some e) :
    e.IsSource := by
  apply hp.values h ((Table.mem_handles _ _).mpr ?_) e he
  apply Table.index_lt_size
  intro hblank
  have hnone : (default : StateProperty).initialValue = none := rfl
  rw [state, hblank, hnone] at he
  exact absurd he (by simp)

/-- The scopes of a body come after the scope of the function. -/
theorem ParserShaped.index_lt_of_mem_scopes {h : FunctionId} {b : Block} {c : ScopeId}
    (hb : (p.function h).body = some b) (hc : c ∈ b.scopes) :
    (p.function h).scope.index < c.index := by
  obtain ⟨o, hc⟩ := (Block.mem_scopes_iff (p.function h).scope true b c).mp hc
  have hall := b.forall_scope (Q := fun s => (p.function h).scope.index < s.index)
    (p.function h).scope true fun o c hc ho => by
      have hparent := hp.built.sound.parent c o (hp.placed hb hc)
      obtain rfl | ho := ho
      · exact hparent
      · exact Nat.lt_trans ho hparent
  exact hall _ hc

end Shape

/-- All states and functions. -/
def properties (p : Program) : List Decl :=
  p.states.handles.map .state ++ p.functions.handles.map .function

/-- The number of properties whose scopes come after a scope. -/
def ahead (p : Program) (s : ScopeId) : Nat :=
  p.properties.countP fun d => (p.ownScope? d).any fun t => s.index < t.index

/-- The number of functions whose scopes come after a scope. -/
def functionsAhead (p : Program) (s : ScopeId) : Nat :=
  (p.functions.handles.map .function).countP fun d =>
    (p.ownScope? d).any fun t => s.index < t.index

/-- The list of properties has as many members as are counted. -/
theorem length_properties (p : Program) : p.properties.length = p.propertyCount := by
  simp [properties, Table.handles, propertyCount]

/-- There are not more properties ahead than there are properties. -/
theorem ahead_le_propertyCount (p : Program) (s : ScopeId) : p.ahead s ≤ p.propertyCount := by
  rw [← length_properties]
  exact List.countP_le_length

/-- There are not more functions ahead than there are functions. -/
theorem functionsAhead_le_size (p : Program) (s : ScopeId) :
    p.functionsAhead s ≤ p.functions.size := by
  have hlength : (p.functions.handles.map Decl.function).length = p.functions.size := by
    simp [Table.handles]
  rw [← hlength]
  exact List.countP_le_length

/-- Fewer members have the narrower of two properties if some member has the wider one only. -/
theorem countP_lt_countP {α : Type} {xs : List α} {f g : α → Bool} {a : α} (ha : a ∈ xs)
    (hfg : ∀ b ∈ xs, f b = true → g b = true) (hf : f a = false) (hg : g a = true) :
    xs.countP f < xs.countP g := by
  obtain ⟨before, after, rfl⟩ := List.append_of_mem ha
  have hbefore : before.countP f ≤ before.countP g :=
    List.countP_mono_left fun b hb => hfg b (List.mem_append_left _ hb)
  have hafter : after.countP f ≤ after.countP g :=
    List.countP_mono_left fun b hb => hfg b (List.mem_append_right _ (List.mem_cons_of_mem a hb))
  simp only [List.countP_append, List.countP_cons, hf, hg, if_true, Bool.false_eq_true, if_false]
  omega

/-- Past the scope of a property in a list, fewer of the list are ahead. -/
theorem countP_ahead_lt {ds : List Decl} {s c t : ScopeId} {d : Decl} (hd : d ∈ ds)
    (ht : p.ownScope? d = some t) (hst : s.index < t.index) (htc : t.index ≤ c.index) :
    (ds.countP fun d => (p.ownScope? d).any fun t => c.index < t.index) <
      ds.countP fun d => (p.ownScope? d).any fun t => s.index < t.index := by
  refine countP_lt_countP hd (fun e _ he => ?_) ?_ ?_
  · obtain ⟨u, hu, hcu⟩ := (Option.any_eq_true _ _).mp he
    rw [hu, Option.any_some]
    simp only [decide_eq_true_eq] at hcu ⊢
    omega
  · rw [ht, Option.any_some]
    exact decide_eq_false (by omega)
  · rw [ht, Option.any_some]
    exact decide_eq_true hst

/-- A property that has a node is among the properties. -/
theorem mem_properties {t : ScopeId} {d : Decl} (hd : p.HasNode d) (ht : p.ownScope? d = some t) :
    d ∈ p.properties := by
  cases d with
  | state h => exact List.mem_append_left _ (List.mem_map_of_mem ((Table.mem_handles _ _).mpr hd))
  | function h =>
    exact List.mem_append_right _ (List.mem_map_of_mem ((Table.mem_handles _ _).mpr hd))
  | _ => simp [ownScope?] at ht

section Ahead

variable (hp : p.ParserShaped)
include hp

/-- A property that is bound somewhere is among the properties. -/
theorem ParserShaped.mem_properties {s t : ScopeId} {d : Decl} (hd : d ∈ p.declared s)
    (ht : p.ownScope? d = some t) : d ∈ p.properties :=
  Program.mem_properties (hp.built.sound.hasNode s d (.inl hd)) ht

/-- A scope has more properties ahead than the scope of a property that it binds. -/
theorem ParserShaped.ahead_lt_of_own {s t : ScopeId} {d : Decl} (hd : d ∈ p.declared s)
    (ht : p.ownScope? d = some t) : p.ahead t < p.ahead s := by
  have hst := hp.built.sound.parent t s (hp.parent_own hd ht)
  exact countP_ahead_lt (hp.mem_properties hd ht) ht hst (Nat.le_refl _)

section Block

variable {s c : ScopeId} {h : FunctionId} {b : Block} (hd : .function h ∈ p.declared s)
  (hb : (p.function h).body = some b) (hc : c ∈ b.scopes)
include hd hb hc

/-- The scope of a function lies between the scope that binds it and the blocks of its body. -/
theorem ParserShaped.index_lt_of_block :
    s.index < (p.function h).scope.index ∧ (p.function h).scope.index < c.index :=
  ⟨hp.built.sound.parent _ s (hp.parent_own hd rfl), hp.index_lt_of_mem_scopes hb hc⟩

/-- A scope has more properties ahead than the blocks of a function that it binds. -/
theorem ParserShaped.ahead_lt_of_block : p.ahead c < p.ahead s := by
  obtain ⟨hst, htc⟩ := hp.index_lt_of_block hd hb hc
  exact countP_ahead_lt (hp.mem_properties hd rfl) rfl hst (Nat.le_of_lt htc)

/-- A scope has more functions ahead than the blocks of a function that it binds. -/
theorem ParserShaped.functionsAhead_lt_of_block : p.functionsAhead c < p.functionsAhead s := by
  obtain ⟨hst, htc⟩ := hp.index_lt_of_block hd hb hc
  have hnode : h.index < p.functions.size := hp.built.sound.hasNode s _ (.inl hd)
  have hmem : .function h ∈ p.functions.handles.map Decl.function :=
    List.mem_map_of_mem ((Table.mem_handles _ _).mpr hnode)
  exact countP_ahead_lt hmem rfl hst (Nat.le_of_lt htc)

end Block

end Ahead

end Program

end EntityLang
