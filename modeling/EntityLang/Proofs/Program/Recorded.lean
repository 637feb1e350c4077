import EntityLang.Proofs.Program.Ledger
import Mathlib.Data.List.Nodup

/-!
# Programs and their ledgers

A program agrees with the ledger of the calls that build it. Every declaration adds one node to the
program and one entry to the ledger, and the scope does with the node what the ledger says of the
entry, so the agreement is carried from call to call.
-/

namespace EntityLang

namespace Decl

/-- The place of a declaration among those of its sort. -/
def index : Decl → Nat
  | .var h => h.index
  | .native h => h.index
  | .enum h => h.index
  | .entity h => h.index
  | .state h => h.index
  | .function h => h.index

/-- A declaration is given by its kind and its number. -/
theorem eq_iff (e d : Decl) : e = d ↔ d.kind = e.kind ∧ e.index = d.index := by
  cases d <;> cases e <;> simp [kind, index, Handle.ext_iff]

end Decl

namespace Program

/-- The number of nodes of one sort. -/
def number (p : Program) : BindingKind → Nat
  | .var => p.vars.size
  | .native => p.natives.size
  | .enum => p.enums.size
  | .entity => p.entities.size
  | .state => p.states.size
  | .function => p.functions.size
  | .overloaded => 0

/-- A declaration has a node if its place is taken. -/
theorem hasNode_iff (p : Program) (d : Decl) : p.HasNode d ↔ d.index < p.number d.kind := by
  cases d <;> exact Iff.rfl

/-- The second program has the scopes of the first one, and one node more. -/
structure Gains (p q : Program) (d : Decl) (identity : String) : Prop where
  scopes : q.scopes = p.scopes
  hasNode : ∀ e, q.HasNode e ↔ p.HasNode e ∨ e = d
  fresh : ¬ p.HasNode d
  number : ∀ kind, q.number kind = p.number kind + if d.kind = kind then 1 else 0
  identity : q.declIdentity d = identity
  others : ∀ e, p.HasNode e → q.declIdentity e = p.declIdentity e

section Gains

variable (p : Program)

/-- A declaration in the first free place is gained. -/
theorem gains_of_number {q : Program} {d : Decl} {identity : String}
    (hscopes : q.scopes = p.scopes) (hplace : d.index = p.number d.kind)
    (hnumber : ∀ kind, q.number kind = p.number kind + if d.kind = kind then 1 else 0)
    (hidentity : q.declIdentity d = identity)
    (hothers : ∀ e, p.HasNode e → q.declIdentity e = p.declIdentity e) :
    p.Gains q d identity := by
  refine ⟨hscopes, fun e => ?_, ?_, hnumber, hidentity, hothers⟩
  · rw [hasNode_iff, hasNode_iff, hnumber, Decl.eq_iff]
    by_cases hkind : d.kind = e.kind
    · rw [if_pos hkind, ← hkind, hplace]
      simp only [true_and]
      exact Nat.lt_succ_iff_lt_or_eq
    · simp [hkind]
  · rw [hasNode_iff, hplace]
    exact Nat.lt_irrefl _

/-- A new variable is one node more, with its name. -/
theorem gains_var (node : Variable) :
    p.Gains { p with vars := p.vars.push node } (.var p.vars.next) node.identity := by
  refine p.gains_of_number rfl rfl (fun kind => ?_)
    (congrArg Variable.identity (Table.get_push_next _ _)) fun e he => ?_
  · cases kind <;> simp [number, Decl.kind]
  · cases e with
    | var h => exact congrArg Variable.identity (Table.get_push_of_lt he _)
    | _ => rfl

/-- A new native type is one node more, with its name. -/
theorem gains_native (node : NativeType) :
    p.Gains { p with natives := p.natives.push node } (.native p.natives.next) node.identity := by
  refine p.gains_of_number rfl rfl (fun kind => ?_)
    (congrArg NativeType.identity (Table.get_push_next _ _)) fun e he => ?_
  · cases kind <;> simp [number, Decl.kind]
  · cases e with
    | native h => exact congrArg NativeType.identity (Table.get_push_of_lt he _)
    | _ => rfl

/-- A new enum is one node more, with its name, whatever happens to the enum values. -/
theorem gains_enum (values : Table .enumValue EnumValue) (node : EnumType) :
    p.Gains { p with enumValues := values, enums := p.enums.push node } (.enum p.enums.next)
      node.identity := by
  refine p.gains_of_number rfl rfl (fun kind => ?_)
    (congrArg EnumType.identity (Table.get_push_next _ _)) fun e he => ?_
  · cases kind <;> simp [number, Decl.kind]
  · cases e with
    | enum h => exact congrArg EnumType.identity (Table.get_push_of_lt he _)
    | _ => rfl

/-- A new entity is one node more, with its name. -/
theorem gains_entity (node : Entity) :
    p.Gains { p with entities := p.entities.push node } (.entity p.entities.next)
      node.identity := by
  refine p.gains_of_number rfl rfl (fun kind => ?_)
    (congrArg Entity.identity (Table.get_push_next _ _)) fun e he => ?_
  · cases kind <;> simp [number, Decl.kind]
  · cases e with
    | entity h => exact congrArg Entity.identity (Table.get_push_of_lt he _)
    | _ => rfl

/-- A new state is one node more, with its name. -/
theorem gains_state (node : StateProperty) :
    p.Gains { p with states := p.states.push node } (.state p.states.next) node.identity := by
  refine p.gains_of_number rfl rfl (fun kind => ?_)
    (congrArg StateProperty.identity (Table.get_push_next _ _)) fun e he => ?_
  · cases kind <;> simp [number, Decl.kind]
  · cases e with
    | state h => exact congrArg StateProperty.identity (Table.get_push_of_lt he _)
    | _ => rfl

/-- A new function is one node more, with its name. -/
theorem gains_function (node : FunctionProperty) :
    p.Gains { p with functions := p.functions.push node } (.function p.functions.next)
      node.identity := by
  refine p.gains_of_number rfl rfl (fun kind => ?_)
    (congrArg FunctionProperty.identity (Table.get_push_next _ _)) fun e he => ?_
  · cases kind <;> simp [number, Decl.kind]
  · cases e with
    | function h => exact congrArg FunctionProperty.identity (Table.get_push_of_lt he _)
    | _ => rfl

end Gains

/-! ### Declaring a node in a scope -/

section Declare

variable (q : Program) (s : ScopeId) (b : Binding)

/-- Binding a declaration adds no node. -/
theorem hasNode_declare (e : Decl) : (q.declare s b).2.HasNode e ↔ q.HasNode e := by
  cases e <;> exact Iff.rfl

/-- Binding a declaration keeps the number of nodes of each sort. -/
theorem number_declare (kind : BindingKind) : (q.declare s b).2.number kind = q.number kind := by
  cases kind <;> rfl

/-- Binding a declaration keeps all names. -/
theorem declIdentity_declare (e : Decl) :
    (q.declare s b).2.declIdentity e = q.declIdentity e := by
  cases e <;> rfl

end Declare

/-- Only the scope of a declaration changes. -/
theorem Gains.scope_declare {p q : Program} {d : Decl} {identity : String}
    (hq : p.Gains q d identity) {s : ScopeId} (hs : s.index < p.scopes.size) (t : ScopeId) :
    (q.declare s (.decl d)).2.scope t =
      if t = s then ((p.scope s).declare identity (.decl d)).2 else p.scope t := by
  rw [← hq.identity]
  refine (Table.get_modify _ _ _ _).trans ?_
  rw [hq.scopes]
  by_cases ht : t = s
  · subst ht
    rw [if_pos ⟨rfl, (Table.isSome_get? _ _).mpr hs⟩, if_pos rfl]
    rfl
  · rw [if_neg (fun h => ht h.1), if_neg ht]
    rfl

end Program

namespace Ledger

/-- The program holds what the ledger says. -/
structure Matches (l : Ledger) (p : Program) : Prop where
  scopes : p.scopes.size = l.parents.length
  parent : ∀ s, (p.scope s).parent = l.parent s
  number : ∀ kind, p.number kind = l.number kind
  hasNode : ∀ d, p.HasNode d ↔ d ∈ l.entries.map Entry.decl
  identity : ∀ e ∈ l.entries, p.declIdentity e.decl = e.identity
  distinct : (l.entries.map Entry.decl).Nodup
  bound : ∀ s identity, p.boundIn identity s = standsFor identity (l.under s identity)
  rejected : ∀ s, (p.scope s).rejected = (l.rejectedIn s).map .decl

section Step

variable {l : Ledger} {p q : Program}

/-- Declaring something new keeps a program in agreement with its ledger. -/
theorem Matches.write (h : l.Matches p) {s : ScopeId} (hs : s.index < p.scopes.size) {d : Decl}
    {identity : String} (hq : p.Gains q d identity) :
    (l.write s identity d).Matches (q.declare s (.decl d)).2 := by
  have hnew : d ∉ l.entries.map Entry.decl := fun hd => hq.fresh ((h.hasNode d).mpr hd)
  obtain ⟨hparent, hbound, hrejected⟩ := Scope.read_declare d (h.bound s identity)
  refine ⟨?_, fun t => ?_, fun kind => ?_, fun e => ?_, fun e he => ?_, ?_, fun t name => ?_,
    fun t => ?_⟩
  · calc (q.declare s (.decl d)).2.scopes.size
      _ = q.scopes.size := Table.size_modify _ _ _
      _ = l.parents.length := by rw [hq.scopes, h.scopes]
  · rw [hq.scope_declare hs]
    split
    · subst t
      exact hparent.trans (h.parent s)
    · exact h.parent t
  · rw [Program.number_declare, hq.number, h.number]
    simp [Ledger.number, Ledger.write, List.countP_append, List.countP_cons]
  · rw [Program.hasNode_declare, hq.hasNode, h.hasNode]
    simp [Ledger.write]
  · rw [Program.declIdentity_declare]
    obtain he | rfl := (List.mem_append.mp he).imp id List.mem_singleton.mp
    · have hnode := (h.hasNode e.decl).mpr (List.mem_map_of_mem he)
      rw [hq.others _ hnode, h.identity e he]
    · exact hq.identity
  · rw [Ledger.write, List.map_append]
    exact List.nodup_append_comm.mp (List.nodup_cons.mpr ⟨hnew, h.distinct⟩)
  · rw [Program.boundIn, hq.scope_declare hs, under_write]
    by_cases ht : t = s
    · subst ht
      rw [if_pos rfl, hbound]
      by_cases hname : identity = name
      · subst hname
        simp
      · rw [if_neg hname, if_neg fun h => hname h.2]
        exact h.bound t name
    · rw [if_neg ht, if_neg fun h => ht h.1.symm]
      exact h.bound t name
  · rw [hq.scope_declare hs, rejectedIn_write _ _ _ hnew]
    by_cases ht : t = s
    · subst ht
      rw [if_pos rfl, hrejected, h.rejected]
      cases refuses (l.under t identity) d <;> simp
    · simpa [ht, Ne.symm ht] using h.rejected t

/-- A scope may be added on both sides. -/
theorem Matches.addScope (h : l.Matches p) (parent : Option ScopeId) :
    (l.addScope parent).Matches (p.addScope parent).2 := by
  refine ⟨?_, fun s => ?_, fun kind => ?_, fun d => ?_, fun e he => ?_, h.distinct,
    fun s identity => ?_, fun s => ?_⟩
  · simp [Program.addScope, Ledger.addScope, h.scopes]
  · rw [Program.scope_addScope, Ledger.parent, Ledger.addScope]
    split
    · subst s
      simp [Table.next, h.scopes]
    · rename_i hs
      have hne : s.index ≠ l.parents.length := fun hindex => by
        apply hs
        rw [Handle.ext_iff, hindex, ← h.scopes]
        rfl
      rw [h.parent, Ledger.parent, List.getElem?_append]
      split
      · rfl
      · rw [List.getElem?_eq_none (by omega), List.getElem?_eq_none (by simp; omega)]
  · exact Eq.trans (by cases kind <;> rfl) (h.number kind)
  · exact Iff.trans (by cases d <;> exact Iff.rfl) (h.hasNode d)
  · exact Eq.trans (by cases e.decl <;> rfl) (h.identity e he)
  · rw [Program.boundIn, Program.bindings_addScope]
    exact h.bound s identity
  · rw [Program.rejected_addScope]
    exact h.rejected s

section Declare

variable (h : l.Matches p) {s : ScopeId} (hs : s.index < p.scopes.size)
include h hs

/-- A new variable is written down in the ledger. -/
theorem Matches.addVar (node : Variable) :
    (l.declare s node.identity .var).Matches (p.addVar s node).2 := by
  rw [Ledger.declare, ← h.number]
  exact h.write hs (p.gains_var node)

/-- A new native type is written down in the ledger. -/
theorem Matches.addNative (node : NativeType) :
    (l.declare s node.identity .native).Matches (p.addNative s node).2 := by
  rw [Ledger.declare, ← h.number]
  exact h.write hs (p.gains_native node)

/-- A new enum is written down in the ledger. -/
theorem Matches.addEnum (identity : String) (values : List (String × Span)) (span : Span) :
    (l.declare s identity .enum).Matches (p.addEnum s identity values span).2 := by
  rw [Ledger.declare, ← h.number]
  exact h.write hs (p.gains_enum _ _)

/-- A new entity is written down in the ledger. -/
theorem Matches.addEntity (node : Entity) :
    (l.declare s node.identity .entity).Matches (p.addEntity s node).2 := by
  rw [Ledger.declare, ← h.number]
  exact h.write hs (p.gains_entity node)

/-- A new state is written down in the ledger. -/
theorem Matches.addState (node : StateProperty) :
    (l.declare s node.identity .state).Matches (p.addState s node).2 := by
  rw [Ledger.declare, ← h.number]
  exact h.write hs (p.gains_state node)

/-- A new function is written down in the ledger. -/
theorem Matches.addFunction (node : FunctionProperty) :
    (l.declare s node.identity .function).Matches (p.addFunction s node).2 := by
  rw [Ledger.declare, ← h.number]
  exact h.write hs (p.gains_function node)

/-- Parameters may be added to a scope that is there. -/
theorem Matches.addVars (parameters : List (String × Pattern)) :
    (l.declareVars s parameters).Matches (p.addVars s parameters).2 := by
  induction parameters generalizing l p with
  | nil => exact h
  | cons parameter rest ih =>
    have hsize : (p.addVar s ⟨parameter.1, parameter.2, .dummy⟩).2.scopes.size = p.scopes.size :=
      Table.size_modify _ _ _
    exact ih (h.addVar hs ⟨parameter.1, parameter.2, .dummy⟩) (hsize.symm ▸ hs)

end Declare

/-- A scope with parameters may be added. -/
theorem Matches.addParameters (h : l.Matches p) (s : ScopeId)
    (parameters : List (String × Pattern)) :
    ((l.addScope (some s)).declareVars ⟨l.parents.length⟩ parameters).Matches
      ((p.addScope (some s)).2.addVars p.scopes.next parameters).2 := by
  rw [← h.scopes]
  exact (h.addScope (some s)).addVars (Table.next_lt_size_push p.scopes _) parameters

/-- Giving a function a body declares nothing. -/
theorem Matches.setBody (h : l.Matches p) (k : FunctionId) (block : Block) :
    l.Matches (p.setBody k block) := by
  have hidentity (d : Decl) : (p.setBody k block).declIdentity d = p.declIdentity d := by
    cases d with
    | function f =>
      exact Table.view_modify FunctionProperty.identity _ (by intro; rfl) p.functions k f
    | _ => rfl
  refine ⟨h.scopes, h.parent, fun kind => ?_, fun d => ?_, fun e he => ?_, h.distinct, h.bound,
    h.rejected⟩
  · rw [← h.number]
    cases kind with
    | function => exact Table.size_modify _ _ _
    | _ => rfl
  · rw [← h.hasNode]
    cases d with
    | function f => rw [Program.HasNode, Program.setBody, Table.size_modify, Program.HasNode]
    | _ => exact Iff.rfl
  · rw [hidentity, h.identity e he]

/-- A call that is in range keeps a program in agreement with its ledger. -/
theorem Matches.record (hp : p.Sound) (h : l.Matches p) {call : Call} (hcall : call.InRange p) :
    (l.record call).Matches (call.run p) := by
  cases call with
  | scope parent => exact h.addScope parent
  | var s node => exact h.addVar hcall node
  | native s node => exact h.addNative hcall node
  | enum s identity values span => exact h.addEnum hcall identity values span
  | entity s node => exact h.addEntity hcall node
  | state s node => exact h.addState hcall node
  | function s node => exact h.addFunction hcall node
  | declareState s identity pattern parameters initialValue =>
    have hown := h.addParameters s parameters
    exact hown.addState (hp.addParameters hcall parameters).2 ⟨identity, pattern, _, _, _, .dummy⟩
  | declareFunction s identity pattern parameters =>
    have hown := h.addParameters s parameters
    exact hown.addFunction (hp.addParameters hcall parameters).2
      ⟨identity, pattern, _, _, _, .dummy⟩
  | body k block => exact h.setBody k block

end Step

/-- Before all calls there is nothing on either side. -/
theorem matches_empty : Matches {} {} := by
  have hscope (s : ScopeId) : ({} : Program).scope s = {} := Table.get_eq_default rfl
  refine ⟨rfl, fun s => ?_, fun kind => ?_, fun d => ?_, by simp, List.nodup_nil,
    fun s identity => ?_, fun s => ?_⟩
  · rw [hscope]
    rfl
  · cases kind <;> rfl
  · cases d <;> simp [Program.HasNode, Table.size]
  · rw [Program.boundIn, hscope]
    simp [under, standsFor, accepted]
  · rw [hscope]
    simp [rejectedIn]

/-- The intrinsic types agree with their ledger. -/
theorem matches_start : start.Matches Program.fresh := by
  have hnatives (nodes : List NativeType) {l : Ledger} {p : Program} (h : l.Matches p)
      (hs : 0 < p.scopes.size) :
      (nodes.foldl (fun l node => l.declare Program.globalScope node.identity .native) l).Matches
        (nodes.foldl (fun p node => (p.addNative Program.globalScope node).2) p) := by
    induction nodes generalizing l p with
    | nil => exact h
    | cons node rest ih =>
      apply ih (h.addNative hs node)
      exact Nat.lt_of_lt_of_eq hs (Table.size_modify _ _ _).symm
  exact hnatives Program.intrinsics (matches_empty.addScope none) Nat.one_pos

/-- Calls in range keep a program in agreement with its ledger. -/
theorem Matches.foldl {l : Ledger} {p : Program} (hp : p.Sound) (h : l.Matches p)
    {calls : List Call} (hcalls : Call.AllInRange p calls) :
    (calls.foldl Ledger.record l).Matches (calls.foldl Call.run p) := by
  induction calls generalizing l p with
  | nil => exact h
  | cons call rest ih => exact ih (hp.run hcalls.1) (h.record hp hcalls.1) hcalls.2

end Ledger

/-- Every program that is built agrees with some ledger. -/
theorem Program.Built.exists_matches {p : Program} (hp : p.Built) : ∃ l : Ledger, l.Matches p := by
  obtain ⟨calls, hcalls, rfl⟩ := hp
  exact ⟨_, Ledger.matches_start.foldl Program.sound_fresh hcalls⟩

end EntityLang
