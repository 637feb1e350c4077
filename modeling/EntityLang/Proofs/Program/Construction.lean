import EntityLang.Proofs.Program.Cells

/-!
# How programs are built

A program is built by calls, one after the other, from the program that declares the intrinsic types
only. Every declaration is made in exactly one scope, where it is either bound or rejected; an
overload set holds functions only; and the parent of a scope was there before the scope.
-/

namespace EntityLang

/-- A call that adds to a program. -/
inductive Call where
  | scope (parent : Option ScopeId)
  | var (scope : ScopeId) (node : Variable)
  | native (scope : ScopeId) (node : NativeType)
  | enum (scope : ScopeId) (identity : String) (values : List (String × Span)) (span : Span)
  | entity (scope : ScopeId) (node : Entity)
  | state (scope : ScopeId) (node : StateProperty)
  | function (scope : ScopeId) (node : FunctionProperty)
  | declareState (scope : ScopeId) (identity : String) (pattern : Pattern)
    (parameters : List (String × Pattern)) (initialValue : Option Expr)
  | declareFunction (scope : ScopeId) (identity : String) (pattern : Pattern)
    (parameters : List (String × Pattern))
  | body (function : FunctionId) (block : Block)

namespace Call

/-- The program after a call. -/
def run (p : Program) : Call → Program
  | .scope parent => (p.addScope parent).2
  | .var s node => (p.addVar s node).2
  | .native s node => (p.addNative s node).2
  | .enum s identity values span => (p.addEnum s identity values span).2
  | .entity s node => (p.addEntity s node).2
  | .state s node => (p.addState s node).2
  | .function s node => (p.addFunction s node).2
  | .declareState s identity pattern parameters initialValue =>
    (p.declareState s identity pattern parameters initialValue).2
  | .declareFunction s identity pattern parameters =>
    (p.declareFunction s identity pattern parameters).2
  | .body h block => p.setBody h block

/-- The scope or function that a call is about is there already. -/
def InRange (p : Program) : Call → Prop
  | .scope parent => ∀ s ∈ parent, s.index < p.scopes.size
  | .var s _ | .native s _ | .enum s _ _ _ | .entity s _ | .state s _ | .function s _
  | .declareState s _ _ _ _ | .declareFunction s _ _ _ => s.index < p.scopes.size
  | .body h _ => h.index < p.functions.size

instance (p : Program) (call : Call) : Decidable (call.InRange p) :=
  match call with
  | .scope parent => inferInstanceAs (Decidable (∀ s ∈ parent, s.index < p.scopes.size))
  | .var _ _ | .native _ _ | .enum _ _ _ _ | .entity _ _ | .state _ _ | .function _ _
  | .declareState _ _ _ _ _ | .declareFunction _ _ _ _ | .body _ _ => Nat.decLt _ _

/-- Each call of a list is in range when it is made. -/
def AllInRange (p : Program) : List Call → Prop
  | [] => True
  | call :: rest => call.InRange p ∧ AllInRange (call.run p) rest

/-- Whether calls are in range can be decided by making them. -/
instance decidableAllInRange : (p : Program) → (calls : List Call) → Decidable (AllInRange p calls)
  | _, [] => .isTrue trivial
  | p, call :: rest =>
    have := decidableAllInRange (call.run p) rest
    inferInstanceAs (Decidable (call.InRange p ∧ AllInRange (call.run p) rest))

end Call

namespace Program

/-- The program that calls build from the intrinsic types. -/
def build (calls : List Call) : Program := calls.foldl Call.run fresh

/-- The program is built by calls in range. -/
def Built (p : Program) : Prop := ∃ calls, Call.AllInRange fresh calls ∧ p = build calls

/-- What holds at first and is kept by each call holds of every program that is built. -/
theorem Built.induction {P : Program → Prop} (hfresh : P fresh)
    (hstep : ∀ p (call : Call), P p → call.InRange p → P (call.run p)) {p : Program}
    (h : p.Built) : P p := by
  obtain ⟨calls, hrange, rfl⟩ := h
  unfold build
  generalize fresh = start at hfresh hrange
  induction calls generalizing start with
  | nil => exact hfresh
  | cons call rest ih => exact ih _ (hstep start call hfresh hrange.1) hrange.2

/-- The declarations that a scope had to reject. -/
def rejectedIn (p : Program) (s : ScopeId) : List Decl :=
  (p.scope s).rejected.flatMap Binding.overloads

/-- The declaration was made in the scope, where it was bound or rejected. -/
def DeclaredIn (p : Program) (s : ScopeId) (d : Decl) : Prop :=
  d ∈ p.declared s ∨ d ∈ p.rejectedIn s

instance (p : Program) (s : ScopeId) (d : Decl) : Decidable (p.DeclaredIn s d) :=
  inferInstanceAs (Decidable (d ∈ p.declared s ∨ d ∈ p.rejectedIn s))

/-- The declaration has a node. -/
def HasNode (p : Program) : Decl → Prop
  | .var h => h.index < p.vars.size
  | .native h => h.index < p.natives.size
  | .enum h => h.index < p.enums.size
  | .entity h => h.index < p.entities.size
  | .state h => h.index < p.states.size
  | .function h => h.index < p.functions.size

end Program

/-- If the binding is an overload set, its members are functions. -/
def Binding.FunctionsOnly : Binding → Prop
  | .decl _ => True
  | .overloaded _ members => ∀ m ∈ members, ∃ h, m = .decl (.function h)

/-- The program is put together as calls put it together. -/
structure Program.Sound (p : Program) : Prop where
  /-- The parent of a scope was there before. -/
  parent : ∀ s t, (p.scope s).parent = some t → t.index < s.index
  /-- What is declared has a node. -/
  hasNode : ∀ s d, p.DeclaredIn s d → p.HasNode d
  /-- A declaration is made in one scope only. -/
  once : ∀ s t d, p.DeclaredIn s d → p.DeclaredIn t d → s = t
  /-- A declaration is not both bound and rejected. -/
  apart : ∀ s d, d ∈ p.rejectedIn s → d ∉ p.declared s
  /-- Overload sets hold functions only. -/
  members : ∀ s identity b, p.boundIn identity s = some b → b.FunctionsOnly

/-- A declaration that may be overloaded is a function. -/
theorem Decl.eq_function_of_isOverloadable {d : Decl} (h : (Binding.decl d).isOverloadable = true) :
    ∃ f, d = .function f := by
  cases d with
  | function f => exact ⟨f, rfl⟩
  | _ => simp [Binding.isOverloadable, Binding.kind, Decl.kind] at h

/-- The leaves of a joint binding are the old ones and the new one, and it holds functions only if
the old one does. -/
theorem Binding.combine?_decl {identity : String} {old both : Binding} {d : Decl}
    (h : old.combine? identity (.decl d) = some both) :
    (∀ e, e ∈ both.overloads ↔ e ∈ old.overloads ∨ e = d) ∧
      (old.FunctionsOnly → both.FunctionsOnly) := by
  unfold combine? at h
  split at h
  · rename_i hboth
    obtain ⟨hold, hnew⟩ := Bool.and_eq_true_iff.mp hboth
    obtain ⟨f, rfl⟩ := Decl.eq_function_of_isOverloadable hnew
    cases old with
    | decl e =>
      obtain ⟨g, rfl⟩ := Decl.eq_function_of_isOverloadable hold
      obtain rfl := Option.some.inj h
      refine ⟨fun e => by simp [overloads, overloadsAll], fun _ => ?_⟩
      simp [FunctionsOnly, overloads]
    | overloaded own members =>
      obtain rfl := Option.some.inj h
      refine ⟨fun e => by simp [overloads, overloadsAll_eq_flatMap], fun hmembers => ?_⟩
      intro m hm
      rcases List.mem_append.mp hm with hm | hm
      · exact hmembers m hm
      · simp only [overloads, List.map_cons, List.map_nil, List.mem_singleton] at hm
        exact ⟨f, hm⟩
  · simp at h

/-- A declaration is rejected, or becomes a leaf of the binding of its name. -/
theorem Scope.declare_cases (s : Scope) (identity : String) (d : Decl) :
    (s.declare identity (.decl d)).2 = { s with rejected := s.rejected ++ [.decl d] } ∨
      ∃ b : Binding,
        (s.declare identity (.decl d)).2 = { s with bindings := s.bindings.insert identity b } ∧
        (∀ e, e ∈ b.overloads ↔
          e = d ∨ ∃ old, s.bindings[identity]? = some old ∧ e ∈ old.overloads) ∧
        ((∀ old, s.bindings[identity]? = some old → old.FunctionsOnly) → b.FunctionsOnly) := by
  unfold Scope.declare
  cases hold : s.bindings[identity]? with
  | none => exact .inr ⟨.decl d, rfl, by simp [Binding.overloads], fun _ => trivial⟩
  | some old =>
    cases hboth : old.combine? identity (.decl d) with
    | none => exact .inl (by simp [hboth])
    | some both =>
      obtain ⟨hleaves, hmembers⟩ := Binding.combine?_decl hboth
      refine .inr ⟨both, by simp [hboth], fun e => ?_, fun h => hmembers (h old rfl)⟩
      rw [hleaves, or_comm]
      simp

namespace Program

/-- The second program is the first one with a declaration made in a scope, where it is bound or
rejected. -/
structure Declares (p q : Program) (scope : ScopeId) (d : Decl) : Prop where
  parent : ∀ s, (q.scope s).parent = (p.scope s).parent
  outcome : ((∀ s e, e ∈ q.declared s ↔ e ∈ p.declared s ∨ s = scope ∧ e = d) ∧
      ∀ s, q.rejectedIn s = p.rejectedIn s) ∨
    (∀ s, q.declared s = p.declared s) ∧
      ∀ s e, e ∈ q.rejectedIn s ↔ e ∈ p.rejectedIn s ∨ s = scope ∧ e = d
  members : (∀ s identity b, p.boundIn identity s = some b → b.FunctionsOnly) →
    ∀ s identity b, q.boundIn identity s = some b → b.FunctionsOnly

/-- Declaring in a scope that is there declares. -/
theorem declares_declare (p : Program) {scope : ScopeId} (hscope : scope.index < p.scopes.size)
    (d : Decl) : p.Declares (p.declare scope (.decl d)).2 scope d := by
  generalize hq : (p.declare scope (.decl d)).2 = q
  generalize hidentity : p.identity (.decl d) = identity
  have hself : q.scope scope = ((p.scope scope).declare identity (.decl d)).2 := by
    subst hq hidentity
    exact (Table.get_modify _ _ _ _).trans (if_pos ⟨rfl, (Table.isSome_get? _ _).mpr hscope⟩)
  have hother {s : ScopeId} (hs : s ≠ scope) : q.scope s = p.scope s := by
    subst hq
    exact Table.get_modify_of_ne hs
  obtain hrejected | ⟨b, hbound, hleaves, hmembers⟩ := (p.scope scope).declare_cases identity d
  · rw [hrejected] at hself
    refine ⟨fun s => ?_, .inr ⟨fun s => ?_, fun s e => ?_⟩, fun h s name b hb => ?_⟩
    all_goals by_cases hs : s = scope
    · rw [hs, hself]
    · rw [hother hs]
    · rw [hs, declared, hself, declared]
    · rw [declared, hother hs, declared]
    · rw [hs, rejectedIn, hself, rejectedIn]
      simp [Binding.overloads]
    · rw [rejectedIn, hother hs, rejectedIn]
      simp [hs]
    · rw [hs, boundIn, hself] at hb
      exact h scope name b hb
    · rw [boundIn, hother hs] at hb
      exact h s name b hb
  · rw [hbound] at hself
    have hread (name : String) : q.boundIn name scope =
        if identity = name then some b else p.boundIn name scope := by
      rw [boundIn, hself, boundIn, Std.TreeMap.getElem?_insert]
      simp
    have hdeclared (e : Decl) : e ∈ q.declared scope ↔ e ∈ p.declared scope ∨ e = d := by
      rw [mem_declared_iff, mem_declared_iff]
      constructor
      · rintro ⟨name, b', hb', he⟩
        rw [hread] at hb'
        split at hb'
        · obtain rfl := Option.some.inj hb'
          obtain rfl | ⟨old, hold, he⟩ := (hleaves e).mp he
          · exact .inr rfl
          · exact .inl ⟨identity, old, hold, he⟩
        · exact .inl ⟨name, b', hb', he⟩
      · rintro (⟨name, b', hb', he⟩ | rfl)
        · by_cases hname : identity = name
          · subst hname
            exact ⟨identity, b, by rw [hread, if_pos rfl], (hleaves e).mpr (.inr ⟨b', hb', he⟩)⟩
          · exact ⟨name, b', by rwa [hread, if_neg hname], he⟩
        · exact ⟨identity, b, by rw [hread, if_pos rfl], (hleaves e).mpr (.inl rfl)⟩
    refine ⟨fun s => ?_, .inl ⟨fun s e => ?_, fun s => ?_⟩, fun h s name b' hb' => ?_⟩
    all_goals by_cases hs : s = scope
    · rw [hs, hself]
    · rw [hother hs]
    · subst hs
      rw [hdeclared, eq_self_iff_true, true_and]
    · rw [declared, hother hs, declared]
      simp [hs]
    · rw [hs, rejectedIn, hself, rejectedIn]
    · rw [rejectedIn, hother hs, rejectedIn]
    · rw [hs, hread] at hb'
      split at hb'
      · exact Option.some.inj hb' ▸ hmembers fun old hold => h scope identity old hold
      · exact h scope name b' hb'
    · rw [boundIn, hother hs] at hb'
      exact h s name b' hb'

section AddScope

variable (p : Program) (parent : Option ScopeId) (s : ScopeId)

/-- A scope that is added has a parent and nothing else. -/
theorem scope_addScope :
    (p.addScope parent).2.scope s = if s = p.scopes.next then { parent } else p.scope s := by
  simp only [addScope, scope, Table.get, Table.get?_push]
  split <;> rfl

/-- The scope that will be added next reads as the blank scope before. -/
theorem scope_next : p.scope p.scopes.next = default := by
  apply Table.get_eq_default
  rw [← Option.not_isSome_iff_eq_none, Table.isSome_get?]
  exact Nat.lt_irrefl _

/-- A new scope binds nothing, and the others bind what they did. -/
theorem bindings_addScope : ((p.addScope parent).2.scope s).bindings = (p.scope s).bindings := by
  rw [scope_addScope]
  split
  · subst s
    rw [scope_next]
    rfl
  · rfl

/-- A new scope has rejected nothing, and the others what they had. -/
theorem rejected_addScope : ((p.addScope parent).2.scope s).rejected = (p.scope s).rejected := by
  rw [scope_addScope]
  split
  · subst s
    rw [scope_next]
    rfl
  · rfl

end AddScope

section Sound

variable {p q : Program}

/-- What a scope rejected is bound nowhere. -/
theorem Sound.not_bound (hp : p.Sound) {s : ScopeId} {d : Decl} (hd : p.DeclaredIn s d)
    (hs : d ∉ p.declared s) (t : ScopeId) : d ∉ p.declared t := by
  intro ht
  obtain rfl := hp.once t s d (.inl ht) hd
  exact hs ht

/-- Nodes may be added. -/
theorem Sound.of_scopes_eq (hp : p.Sound) (hscopes : q.scopes = p.scopes)
    (hnodes : ∀ d, p.HasNode d → q.HasNode d) : q.Sound := by
  have hscope (s : ScopeId) : q.scope s = p.scope s := by rw [scope, hscopes, scope]
  have hdeclared (s : ScopeId) : q.declared s = p.declared s := by rw [declared, hscope, declared]
  have hrejected (s : ScopeId) : q.rejectedIn s = p.rejectedIn s := by
    rw [rejectedIn, hscope, rejectedIn]
  have hin (s : ScopeId) (d : Decl) : q.DeclaredIn s d ↔ p.DeclaredIn s d := by
    rw [DeclaredIn, hdeclared, hrejected, DeclaredIn]
  refine ⟨fun s t h => ?_, fun s d h => ?_, fun s t d hs ht => ?_, fun s d h => ?_,
    fun s identity b h => ?_⟩
  · exact hp.parent s t (hscope s ▸ h)
  · exact hnodes d (hp.hasNode s d ((hin s d).mp h))
  · exact hp.once s t d ((hin s d).mp hs) ((hin t d).mp ht)
  · rw [hdeclared]
    exact hp.apart s d (hrejected s ▸ h)
  · rw [boundIn, hscope] at h
    exact hp.members s identity b h

/-- A declaration that was not made before may be made. -/
theorem Sound.declare (hp : p.Sound) {scope : ScopeId} (hscope : scope.index < p.scopes.size)
    {d : Decl} (hd : p.HasNode d) (hnew : ∀ s, ¬ p.DeclaredIn s d) :
    (p.declare scope (.decl d)).2.Sound := by
  have h := p.declares_declare hscope d
  generalize hq : (p.declare scope (.decl d)).2 = q at h
  have hin (s : ScopeId) (e : Decl) :
      q.DeclaredIn s e ↔ p.DeclaredIn s e ∨ s = scope ∧ e = d := by
    unfold DeclaredIn
    obtain ⟨hdeclared, hrejected⟩ | ⟨hdeclared, hrejected⟩ := h.outcome
    · rw [hdeclared, hrejected, or_right_comm]
    · rw [hdeclared, hrejected, or_assoc]
  have hnodes (e : Decl) (he : p.HasNode e) : q.HasNode e := by
    subst hq
    cases e <;> exact he
  refine ⟨fun s t ht => ?_, fun s e he => ?_, fun s t e hs ht => ?_, fun s e he => ?_,
    h.members hp.members⟩
  · exact hp.parent s t (h.parent s ▸ ht)
  · obtain he | ⟨-, rfl⟩ := (hin s e).mp he
    · exact hnodes e (hp.hasNode s e he)
    · exact hnodes e hd
  · obtain hs | ⟨hs, rfl⟩ := (hin s e).mp hs
    · obtain ht | ⟨-, rfl⟩ := (hin t e).mp ht
      · exact hp.once s t e hs ht
      · exact absurd hs (hnew s)
    · obtain ht | ⟨ht, -⟩ := (hin t e).mp ht
      · exact absurd ht (hnew t)
      · exact hs.trans ht.symm
  · obtain ⟨hdeclared, hrejected⟩ | ⟨hdeclared, hrejected⟩ := h.outcome
    · rw [hrejected] at he
      intro hboth
      obtain hboth | ⟨-, rfl⟩ := (hdeclared s e).mp hboth
      · exact hp.apart s e he hboth
      · exact hnew s (.inr he)
    · rw [hdeclared]
      obtain he | ⟨-, rfl⟩ := (hrejected s e).mp he
      · exact hp.apart s e he
      · exact fun hboth => hnew s (.inl hboth)

/-- A new node may be declared. -/
theorem Sound.declare_new (hp : p.Sound) (hscopes : q.scopes = p.scopes)
    (hnodes : ∀ d, p.HasNode d → q.HasNode d) {scope : ScopeId}
    (hscope : scope.index < p.scopes.size) {d : Decl} (hd : q.HasNode d) (hnew : ¬ p.HasNode d) :
    (q.declare scope (.decl d)).2.Sound := by
  apply (hp.of_scopes_eq hscopes hnodes).declare (hscopes ▸ hscope) hd
  intro s hs
  apply hnew
  apply hp.hasNode s
  rwa [DeclaredIn, declared, rejectedIn, Program.scope, hscopes] at hs

/-- A scope may be added whose parent is there already. -/
theorem Sound.addScope (hp : p.Sound) {parent : Option ScopeId}
    (hparent : ∀ s ∈ parent, s.index < p.scopes.size) : (p.addScope parent).2.Sound := by
  have hin (s : ScopeId) (d : Decl) : (p.addScope parent).2.DeclaredIn s d ↔ p.DeclaredIn s d := by
    rw [DeclaredIn, declared, rejectedIn, bindings_addScope, rejected_addScope]
    rfl
  refine ⟨fun s t ht => ?_, fun s d h => ?_, fun s t d hs ht => ?_, fun s d h => ?_,
    fun s identity b h => ?_⟩
  · rw [scope_addScope] at ht
    split at ht
    · subst s
      exact hparent t ht
    · exact hp.parent s t ht
  · have hnode := hp.hasNode s d ((hin s d).mp h)
    cases d <;> exact hnode
  · exact hp.once s t d ((hin s d).mp hs) ((hin t d).mp ht)
  · rw [rejectedIn, rejected_addScope] at h
    rw [declared, bindings_addScope]
    exact hp.apart s d h
  · rw [boundIn, bindings_addScope] at h
    exact hp.members s identity b h

variable {s : ScopeId} (hp : p.Sound) (hs : s.index < p.scopes.size)
include hp hs

/-- Adding a variable keeps a program sound. -/
theorem Sound.addVar (node : Variable) : (p.addVar s node).2.Sound := by
  refine hp.declare_new (q := { p with vars := p.vars.push node }) rfl (fun d hd => ?_) hs
    (Table.next_lt_size_push _ _) (Nat.lt_irrefl _)
  cases d with
  | var h => exact Table.lt_size_push _ hd
  | _ => exact hd

/-- Adding a native type keeps a program sound. -/
theorem Sound.addNative (node : NativeType) : (p.addNative s node).2.Sound := by
  refine hp.declare_new (q := { p with natives := p.natives.push node }) rfl (fun d hd => ?_) hs
    (Table.next_lt_size_push _ _) (Nat.lt_irrefl _)
  cases d with
  | native h => exact Table.lt_size_push _ hd
  | _ => exact hd

/-- Adding an enum with its values keeps a program sound. -/
theorem Sound.addEnum (identity : String) (values : List (String × Span)) (span : Span) :
    (p.addEnum s identity values span).2.Sound := by
  refine hp.declare_new (q := { p with enumValues := _, enums := p.enums.push _ }) rfl
    (fun d hd => ?_) hs (Table.next_lt_size_push _ _) (Nat.lt_irrefl _)
  cases d with
  | enum h => exact Table.lt_size_push _ hd
  | _ => exact hd

/-- Adding an entity keeps a program sound. -/
theorem Sound.addEntity (node : Entity) : (p.addEntity s node).2.Sound := by
  refine hp.declare_new (q := { p with entities := p.entities.push node }) rfl (fun d hd => ?_) hs
    (Table.next_lt_size_push _ _) (Nat.lt_irrefl _)
  cases d with
  | entity h => exact Table.lt_size_push _ hd
  | _ => exact hd

/-- Adding a state keeps a program sound. -/
theorem Sound.addState (node : StateProperty) : (p.addState s node).2.Sound := by
  refine hp.declare_new (q := { p with states := p.states.push node }) rfl (fun d hd => ?_) hs
    (Table.next_lt_size_push _ _) (Nat.lt_irrefl _)
  cases d with
  | state h => exact Table.lt_size_push _ hd
  | _ => exact hd

/-- Adding a function keeps a program sound. -/
theorem Sound.addFunction (node : FunctionProperty) : (p.addFunction s node).2.Sound := by
  refine hp.declare_new (q := { p with functions := p.functions.push node }) rfl (fun d hd => ?_) hs
    (Table.next_lt_size_push _ _) (Nat.lt_irrefl _)
  cases d with
  | function h => exact Table.lt_size_push _ hd
  | _ => exact hd

/-- Variables may be added to a scope that is there. -/
theorem Sound.addVars (parameters : List (String × Pattern)) :
    (p.addVars s parameters).2.Sound ∧ (p.addVars s parameters).2.scopes.size = p.scopes.size := by
  induction parameters generalizing p with
  | nil => exact ⟨hp, rfl⟩
  | cons parameter rest ih =>
    have hsize : (p.addVar s ⟨parameter.1, parameter.2, .dummy⟩).2.scopes.size = p.scopes.size :=
      Table.size_modify _ _ _
    obtain ⟨hsound, hrest⟩ := ih (hp.addVar hs _) (hsize.symm ▸ hs)
    exact ⟨hsound, hrest.trans hsize⟩

/-- A scope with parameters may be added inside a scope that is there. -/
theorem Sound.addParameters (parameters : List (String × Pattern)) :
    ((p.addScope (some s)).2.addVars p.scopes.next parameters).2.Sound ∧
      s.index < ((p.addScope (some s)).2.addVars p.scopes.next parameters).2.scopes.size := by
  have hscope : (p.addScope (some s)).2.Sound := by
    apply hp.addScope
    simpa using hs
  obtain ⟨hsound, hsize⟩ := hscope.addVars (Table.next_lt_size_push p.scopes _) parameters
  refine ⟨hsound, ?_⟩
  rw [hsize]
  exact Table.lt_size_push _ hs

end Sound

/-- The program without scopes is sound. -/
theorem sound_empty : Sound {} := by
  have hscope (s : ScopeId) : ({} : Program).scope s = {} := Table.get_eq_default rfl
  have hin (s : ScopeId) (d : Decl) : ¬ ({} : Program).DeclaredIn s d := by
    rw [DeclaredIn, declared, rejectedIn, hscope]
    have hvalues : ({} : Scope).bindings.values = [] := rfl
    simp [hvalues]
  refine ⟨fun s t h => ?_, fun s d h => absurd h (hin s d), fun s _ d h => absurd h (hin s d),
    fun s d h => absurd (.inr h) (hin s d), fun s identity b h => ?_⟩
  · rw [hscope] at h
    exact absurd h (by simp)
  · rw [boundIn, hscope] at h
    exact absurd h (by simp)

/-- The program that declares the intrinsic types only is sound. -/
theorem sound_fresh : fresh.Sound := by
  have hnatives (nodes : List NativeType) {p : Program} (hp : p.Sound) (hs : 0 < p.scopes.size) :
      (nodes.foldl (fun p node => (p.addNative globalScope node).2) p).Sound := by
    induction nodes generalizing p with
    | nil => exact hp
    | cons node rest ih =>
      apply ih (hp.addNative hs node)
      exact Nat.lt_of_lt_of_eq hs (Table.size_modify _ _ _).symm
  exact hnatives intrinsics (sound_empty.addScope (by simp)) Nat.one_pos

/-- A call in range keeps a program sound. -/
theorem Sound.run {p : Program} (hp : p.Sound) {call : Call} (hrange : call.InRange p) :
    (call.run p).Sound := by
  cases call with
  | scope parent => exact hp.addScope hrange
  | var s node => exact hp.addVar hrange node
  | native s node => exact hp.addNative hrange node
  | enum s identity values span => exact hp.addEnum hrange identity values span
  | entity s node => exact hp.addEntity hrange node
  | state s node => exact hp.addState hrange node
  | function s node => exact hp.addFunction hrange node
  | declareState s identity pattern parameters initialValue =>
    obtain ⟨hsound, hs⟩ := hp.addParameters hrange parameters
    exact hsound.addState hs _
  | declareFunction s identity pattern parameters =>
    obtain ⟨hsound, hs⟩ := hp.addParameters hrange parameters
    exact hsound.addFunction hs _
  | body k block =>
    refine hp.of_scopes_eq (q := p.setBody k block) rfl fun d hd => ?_
    cases d with
    | function f => exact Nat.lt_of_lt_of_eq hd (Table.size_modify _ _ _).symm
    | _ => exact hd

/-- Every program that is built is sound. -/
theorem Built.sound {p : Program} (h : p.Built) : p.Sound :=
  h.induction sound_fresh fun _ _ hp hrange => hp.run hrange

end Program

end EntityLang
