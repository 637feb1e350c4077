import EntityLang.Proofs.Program.Construction

/-!
# Ledgers of declarations

The ledger of some calls writes down what was declared, where and under which name, in the order of
the calls, and keeps no table of bindings. What a scope binds and what it rejects is read off the
entries: the first declaration of a name counts, further functions join a first function, and all
else is refused.
-/

namespace EntityLang

/-- The declaration is a function. -/
def Decl.isFunction (d : Decl) : Bool := d.function?.isSome

/-- Two declarations may share a name: both are functions. -/
def Decl.shares (first d : Decl) : Bool := first.isFunction && d.isFunction

/-- A declaration as it was made. -/
structure Entry where
  scope : ScopeId
  identity : String
  decl : Decl

/-- What was made by some calls, in order. -/
structure Ledger where
  /-- The parent of each scope. -/
  parents : List (Option ScopeId) := []
  entries : List Entry := []

namespace Ledger

/-! ### Declarations of one name in one scope -/

/-- The declarations that a name keeps, of all that were made under it. -/
def accepted : List Decl → List Decl
  | [] => []
  | first :: rest => first :: rest.filter first.shares

/-- The declarations that were made under a name and are not kept. -/
def refused : List Decl → List Decl
  | [] => []
  | first :: rest => rest.filter fun d => !first.shares d

/-- What a name stands for after some declarations. -/
def standsFor (identity : String) (ds : List Decl) : Option Binding :=
  match accepted ds with
  | [] => none
  | [d] => some (.decl d)
  | many => some (.overloaded identity (many.map .decl))

/-- One more declaration would be refused. -/
def refuses : List Decl → Decl → Bool
  | [], _ => false
  | first :: _, d => !first.shares d

/-- One more declaration is accepted unless the earlier ones refuse it. -/
theorem accepted_concat (ds : List Decl) (d : Decl) :
    accepted (ds ++ [d]) = if refuses ds d then accepted ds else accepted ds ++ [d] := by
  cases ds with
  | nil => rfl
  | cons first rest => cases h : first.shares d <;> simp [accepted, refuses, h]

/-- One more declaration is refused if the earlier ones refuse it. -/
theorem refused_concat (ds : List Decl) (d : Decl) :
    refused (ds ++ [d]) = if refuses ds d then refused ds ++ [d] else refused ds := by
  cases ds with
  | nil => rfl
  | cons first rest => cases h : first.shares d <;> simp [refused, refuses, h]

/-- Each declaration is either kept or not. -/
theorem accepted_append_refused_perm (ds : List Decl) : (accepted ds ++ refused ds).Perm ds := by
  cases ds with
  | nil => exact .refl _
  | cons first rest => exact (List.filter_append_perm _ rest).cons first

/-- The declarations that a name stands for are the ones that it keeps. -/
theorem overloads_standsFor {identity : String} {ds : List Decl} {b : Binding}
    (h : standsFor identity ds = some b) : b.overloads = accepted ds := by
  unfold standsFor at h
  split at h
  · simp at h
  · rename_i d hds
    obtain rfl := Option.some.inj h
    rw [hds, Binding.overloads]
  · rename_i many _ _
    obtain rfl := Option.some.inj h
    rw [Binding.overloads, Binding.overloadsAll_eq_flatMap, List.flatMap_map]
    simp [Binding.overloads]

/-- A name is bound exactly when it was declared. -/
theorem isSome_standsFor (identity : String) (ds : List Decl) :
    (standsFor identity ds).isSome = !ds.isEmpty := by
  cases ds with
  | nil => rfl
  | cons first rest => rw [standsFor, accepted]; split <;> simp_all

/-- What a declared name stands for is of the sort of the first declaration, up to overloading. -/
theorem standsFor_cons (identity : String) (first : Decl) (rest : List Decl) :
    (standsFor identity (first :: rest) = some (.decl first) ∧ accepted (first :: rest) = [first]) ∨
      first.isFunction = true ∧ accepted (first :: rest) ≠ [first] ∧
      standsFor identity (first :: rest) =
        some (.overloaded identity ((accepted (first :: rest)).map .decl)) := by
  rw [standsFor]
  cases hmore : rest.filter first.shares with
  | nil => exact .inl (by simp [accepted, hmore])
  | cons second more =>
    have hsecond : second ∈ rest.filter first.shares := by
      simp [hmore]
    have hboth := (List.mem_filter.mp hsecond).2
    exact .inr (by simp [accepted, hmore, (Bool.and_eq_true_iff.mp hboth).1])

end Ledger

/-- Functions, and only they, may be overloaded. -/
theorem Decl.isOverloadable_decl (d : Decl) : (Binding.decl d).isOverloadable = d.isFunction := by
  cases d <;> rfl

open Ledger in
/-- A declaration under a name is rejected, or the name then stands for one declaration more. -/
theorem Scope.declare_of_standsFor {s : Scope} {identity : String} {ds : List Decl} (d : Decl)
    (h : s.bindings[identity]? = standsFor identity ds) :
    if refuses ds d then
      (s.declare identity (.decl d)).2 = { s with rejected := s.rejected ++ [.decl d] }
    else
      ∃ b, standsFor identity (ds ++ [d]) = some b ∧
        (s.declare identity (.decl d)).2 = { s with bindings := s.bindings.insert identity b } := by
  unfold Scope.declare
  cases ds with
  | nil =>
    rw [h]
    exact ⟨.decl d, rfl, rfl⟩
  | cons first rest =>
    have hnext := accepted_concat (first :: rest) d
    cases hboth : first.shares d with
    | false =>
      -- a first function may be bound alone or in a set, which makes no difference to a newcomer
      -- that is not a function
      obtain ⟨hb, -⟩ | ⟨hfirst, -, hb⟩ := standsFor_cons identity first rest
      · have hnot : ¬ (first.isFunction = true ∧ d.isFunction = true) := fun h => by
          simp [Decl.shares, h] at hboth
        rw [h, hb]
        simp [refuses, hboth, Binding.combine?, Decl.isOverloadable_decl, hnot]
      · have hd : d.isFunction = false := by simpa [Decl.shares, hfirst] using hboth
        rw [h, hb]
        simp [refuses, hboth, Binding.combine?, Decl.isOverloadable_decl, hd]
    | true =>
      simp only [refuses, hboth, Bool.not_true, Bool.false_eq_true, if_false] at hnext ⊢
      obtain ⟨hfirst, hd⟩ := Bool.and_eq_true_iff.mp hboth
      obtain ⟨hb, halone⟩ | ⟨-, hset, hb⟩ := standsFor_cons identity first rest
      · rw [halone] at hnext
        rw [h, hb]
        refine ⟨.overloaded identity [.decl first, .decl d], ?_, ?_⟩
        · rw [standsFor, hnext]
          rfl
        · simp [Binding.combine?, Decl.isOverloadable_decl, hfirst, hd, Binding.overloads]
      · rw [h, hb]
        refine ⟨.overloaded identity ((accepted (first :: rest)).map .decl ++ [.decl d]), ?_, ?_⟩
        · rw [standsFor, hnext]
          cases rest.filter first.shares <;> simp [accepted]
        · have hover : (Binding.overloaded identity
              ((accepted (first :: rest)).map .decl)).isOverloadable = true := rfl
          simp [Binding.combine?, Decl.isOverloadable_decl, hover, hd, Binding.overloads]

open Ledger in
/-- What is read in a scope after one more declaration of a name. -/
theorem Scope.read_declare {s : Scope} {identity : String} {ds : List Decl} (d : Decl)
    (h : s.bindings[identity]? = standsFor identity ds) :
    (s.declare identity (.decl d)).2.parent = s.parent ∧
      (∀ name, (s.declare identity (.decl d)).2.bindings[name]? =
        if identity = name then standsFor name (ds ++ [d]) else s.bindings[name]?) ∧
      (s.declare identity (.decl d)).2.rejected =
        if refuses ds d then s.rejected ++ [.decl d] else s.rejected := by
  have hcases := declare_of_standsFor d h
  cases hd : refuses ds d with
  | true =>
    rw [hd, if_pos rfl] at hcases
    rw [hcases]
    refine ⟨rfl, fun name => ?_, rfl⟩
    split
    · subst name
      rw [h, standsFor, standsFor, accepted_concat, hd, if_pos rfl]
    · rfl
  | false =>
    rw [hd, if_neg Bool.false_ne_true] at hcases
    obtain ⟨b, hb, hscope⟩ := hcases
    rw [hscope]
    refine ⟨rfl, fun name => ?_, rfl⟩
    rw [Std.TreeMap.getElem?_insert]
    split <;> split <;> simp_all

namespace Ledger

/-! ### Ledgers -/

/-- Open a scope. -/
def addScope (l : Ledger) (parent : Option ScopeId) : Ledger :=
  { l with parents := l.parents ++ [parent] }

/-- The number of declarations of one sort. -/
def number (l : Ledger) (kind : BindingKind) : Nat :=
  l.entries.countP fun e => e.decl.kind = kind

/-- Write a declaration down. -/
def write (l : Ledger) (scope : ScopeId) (identity : String) (d : Decl) : Ledger :=
  { l with entries := l.entries ++ [⟨scope, identity, d⟩] }

/-- Write down a declaration of something new; its handle counts the declarations of its sort. -/
def declare {kind : NodeKind} (l : Ledger) (scope : ScopeId) (identity : String)
    (make : Handle kind → Decl) : Ledger :=
  l.write scope identity (make ⟨l.number (make default).kind⟩)

/-- Write down parameters from left to right. -/
def declareVars (l : Ledger) (scope : ScopeId) (parameters : List (String × Pattern)) : Ledger :=
  parameters.foldl (fun l parameter => l.declare scope parameter.1 .var) l

/-- Write down what a call makes. A property that comes with a scope of its own is declared after
its parameters. -/
def record (l : Ledger) : Call → Ledger
  | .scope parent => l.addScope parent
  | .var s node => l.declare s node.identity .var
  | .native s node => l.declare s node.identity .native
  | .enum s identity _ _ => l.declare s identity .enum
  | .entity s node => l.declare s node.identity .entity
  | .state s node => l.declare s node.identity .state
  | .function s node => l.declare s node.identity .function
  | .declareState s identity _ parameters _ =>
    ((l.addScope (some s)).declareVars ⟨l.parents.length⟩ parameters).declare s identity .state
  | .declareFunction s identity _ parameters =>
    ((l.addScope (some s)).declareVars ⟨l.parents.length⟩ parameters).declare s identity .function
  | .body _ _ => l

/-- The ledger of the intrinsic types. -/
def start : Ledger :=
  Program.intrinsics.foldl (fun l node => l.declare Program.globalScope node.identity .native)
    (addScope {} none)

/-- The ledger of some calls. -/
def ofCalls (calls : List Call) : Ledger := calls.foldl record start

/-- Declaring parameters adds no scope. -/
theorem parents_declareVars (l : Ledger) (s : ScopeId) (parameters : List (String × Pattern)) :
    (l.declareVars s parameters).parents = l.parents := by
  induction parameters generalizing l with
  | nil => rfl
  | cons parameter rest ih => exact ih (l.declare s parameter.1 .var)

/-- Scopes stay. -/
theorem length_parents_le_foldl (l : Ledger) (calls : List Call) :
    l.parents.length ≤ (calls.foldl record l).parents.length := by
  induction calls generalizing l with
  | nil => exact Nat.le_refl _
  | cons call rest ih =>
    refine Nat.le_trans ?_ (ih (l.record call))
    cases call <;> simp [record, declare, write, addScope, parents_declareVars]

/-- The parent of a scope. -/
def parent (l : Ledger) (s : ScopeId) : Option ScopeId := l.parents[s.index]?.join

/-- What was declared in a scope under a name, in order. -/
def under (l : Ledger) (s : ScopeId) (identity : String) : List Decl :=
  (l.entries.filter fun e => e.scope = s ∧ e.identity = identity).map Entry.decl

/-- What was declared in a scope and refused, over all names and in order. -/
def rejectedIn (l : Ledger) (s : ScopeId) : List Decl :=
  (l.entries.filter fun e => e.scope = s ∧ e.decl ∈ refused (l.under s e.identity)).map Entry.decl

section Write

variable {l : Ledger}

/-- A declaration is listed under a name exactly if it was written down under it. -/
theorem mem_under {s : ScopeId} {identity : String} {d : Decl} :
    d ∈ l.under s identity ↔ ⟨s, identity, d⟩ ∈ l.entries := by
  simp only [under, List.mem_map, List.mem_filter, decide_eq_true_eq]
  constructor
  · rintro ⟨e, ⟨he, rfl, rfl⟩, rfl⟩
    exact he
  · intro h
    exact ⟨_, ⟨h, rfl, rfl⟩, rfl⟩

/-- What is listed under a name comes in the order of the ledger. -/
theorem under_sublist (s : ScopeId) (identity : String) :
    (l.under s identity).Sublist (l.entries.map Entry.decl) :=
  List.filter_sublist.map _

/-- What is refused was declared. -/
theorem refused_subset (ds : List Decl) : refused ds ⊆ ds := fun _ hd =>
  (accepted_append_refused_perm ds).subset (List.mem_append_right _ hd)

/-- What is accepted was declared. -/
theorem accepted_subset (ds : List Decl) : accepted ds ⊆ ds := fun _ hd =>
  (accepted_append_refused_perm ds).subset (List.mem_append_left _ hd)

/-- What is written down is listed last, under its own name in its own scope. -/
theorem under_write (s t : ScopeId) (identity name : String) (d : Decl) :
    (l.write t name d).under s identity =
      if t = s ∧ name = identity then l.under s identity ++ [d] else l.under s identity := by
  rw [under, write, List.filter_append, List.map_append]
  split
  · simp [under, *]
  · simp [under, *]

/-- Something new is the last to be refused, if it is refused at all. -/
theorem rejectedIn_write (s t : ScopeId) (name : String) {d : Decl}
    (hd : d ∉ l.entries.map Entry.decl) :
    (l.write t name d).rejectedIn s =
      if t = s ∧ refuses (l.under t name) d then l.rejectedIn s ++ [d] else l.rejectedIn s := by
  have hlast : d ∈ refused (l.under t name ++ [d]) ↔ refuses (l.under t name) d = true := by
    have hnot : d ∉ refused (l.under t name) := fun h =>
      hd ((under_sublist t name).subset (refused_subset _ h))
    rw [refused_concat]
    split <;> simp_all
  have hold (e : Entry) (he : e ∈ l.entries) :
      e.decl ∈ refused ((l.write t name d).under s e.identity) ↔
        e.decl ∈ refused (l.under s e.identity) := by
    have hne : e.decl ≠ d := fun h => hd (h ▸ List.mem_map_of_mem he)
    rw [under_write]
    split
    · rw [refused_concat]
      split <;> simp [hne]
    · rfl
  have hfilter : (l.entries.filter fun e =>
      e.scope = s ∧ e.decl ∈ refused ((l.write t name d).under s e.identity)) =
        l.entries.filter fun e => e.scope = s ∧ e.decl ∈ refused (l.under s e.identity) := by
    apply List.filter_congr
    intro e he
    simp only [hold e he]
  rw [rejectedIn, show (l.write t name d).entries = l.entries ++ [⟨t, name, d⟩] from rfl,
    List.filter_append, hfilter, List.map_append, ← rejectedIn]
  by_cases ht : t = s
  · subst ht
    simp only [List.filter_cons, List.filter_nil, under_write, if_true, true_and, hlast]
    cases refuses (l.under t name) d <;> simp
  · simp [ht]

end Write

end Ledger

end EntityLang
