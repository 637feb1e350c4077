import EntityLang.Proofs.Program.Construction

/-!
# What calls leave in place

A call adds nodes and declares them in a scope. All nodes that were there before read as before, but
for the body that a call may give to a function, and so do all scopes but the one that the call
declares in.
-/

namespace EntityLang

namespace Table

variable {kind : NodeKind} {α : Type} [Inhabited α]

/-- Every handle of the first table has the same node in the second one. -/
def Extends (t u : Table kind α) : Prop :=
  ∀ h, h.index < t.size → h.index < u.size ∧ u.get h = t.get h

/-- Every table extends itself. -/
theorem extends_refl (t : Table kind α) : t.Extends t := fun _ hh => ⟨hh, rfl⟩

/-- Extensions of tables compose. -/
theorem Extends.trans {t u v : Table kind α} (h : t.Extends u) (h' : u.Extends v) :
    t.Extends v := by
  intro k hk
  obtain ⟨hu, hget⟩ := h k hk
  obtain ⟨hv, hget'⟩ := h' k hu
  exact ⟨hv, hget'.trans hget⟩

/-- A table with one more node extends the table. -/
theorem extends_push (t : Table kind α) (a : α) : t.Extends (t.push a) :=
  fun _ hh => ⟨lt_size_push t hh, get_push_of_lt hh a⟩

/-- A table with more nodes extends the table. -/
theorem extends_pushAll (nodes : List α) (t : Table kind α) : t.Extends (t.pushAll nodes).2 := by
  induction nodes generalizing t with
  | nil => exact extends_refl t
  | cons a rest ih => exact (extends_push t a).trans (ih (t.push a))

end Table

/-- The scope that a call declares in. -/
def Call.target? : Call → Option ScopeId
  | .scope _ | .body _ _ => none
  | .var s _ | .native s _ | .enum s _ _ _ | .entity s _ | .state s _ | .function s _
  | .declareState s _ _ _ _ | .declareFunction s _ _ _ => some s

/-- A function with its body forgotten. -/
def FunctionProperty.signature (f : FunctionProperty) : FunctionProperty := { f with body := none }

namespace Program

/-- The second program has the nodes of the first one, and its scopes too, which are the same
outside of `target`. -/
structure Grows (p q : Program) (target : ScopeId → Prop) : Prop where
  size : p.scopes.size ≤ q.scopes.size := by exact Nat.le_refl _
  scope : ∀ s, s.index < p.scopes.size → ¬ target s → q.scope s = p.scope s := by
    exact fun _ _ _ => rfl
  vars : p.vars.Extends q.vars := by exact Table.extends_refl _
  natives : p.natives.Extends q.natives := by exact Table.extends_refl _
  enums : p.enums.Extends q.enums := by exact Table.extends_refl _
  enumValues : p.enumValues.Extends q.enumValues := by exact Table.extends_refl _
  entities : p.entities.Extends q.entities := by exact Table.extends_refl _
  states : p.states.Extends q.states := by exact Table.extends_refl _
  functions : ∀ h, h.index < p.functions.size →
    h.index < q.functions.size ∧ (q.function h).signature = (p.function h).signature := by
    exact fun _ hh => ⟨hh, rfl⟩

section Grows

variable {p q r : Program} {T U V : ScopeId → Prop}

/-- What the second step changes has to be in the joint target only if it was there at first. -/
theorem Grows.trans (h : p.Grows q T) (h' : q.Grows r U) (hT : ∀ s, T s → V s)
    (hU : ∀ s, s.index < p.scopes.size → U s → V s) : p.Grows r V where
  size := h.size.trans h'.size
  scope s hs hV := by
    rw [h'.scope s (Nat.lt_of_lt_of_le hs h.size) fun hs' => hV (hU s hs hs')]
    exact h.scope s hs fun hs' => hV (hT s hs')
  vars := h.vars.trans h'.vars
  natives := h.natives.trans h'.natives
  enums := h.enums.trans h'.enums
  enumValues := h.enumValues.trans h'.enumValues
  entities := h.entities.trans h'.entities
  states := h.states.trans h'.states
  functions k hk := by
    obtain ⟨hq, hsignature⟩ := h.functions k hk
    obtain ⟨hr, hsignature'⟩ := h'.functions k hq
    exact ⟨hr, hsignature'.trans hsignature⟩

/-- A program that has grown inside some scopes has grown inside more of them. -/
theorem Grows.mono (h : p.Grows q T) (hT : ∀ s, T s → V s) : p.Grows q V :=
  { h with scope := fun s hs hV => h.scope s hs fun hs' => hV (hT s hs') }

/-- Declared patterns stay while a program grows. -/
theorem Grows.declPattern (h : p.Grows q T) {d : Decl} (hd : p.HasNode d) :
    q.declPattern d = p.declPattern d := by
  cases d with
  | var k => exact congrArg Variable.pattern (h.vars k hd).2
  | state k => exact congrArg StateProperty.pattern (h.states k hd).2
  | function k => exact (congrArg FunctionProperty.pattern (h.functions k hd).2 :)
  | _ => rfl

/-- Parameters stay while a program grows. -/
theorem Grows.parameters (h : p.Grows q T) {f : FunctionId} (hf : f.index < p.functions.size) :
    (q.function f).parameters = (p.function f).parameters :=
  (congrArg FunctionProperty.parameters (h.functions f hf).2 :)

end Grows

section Calls

variable (p : Program)

/-- Declaring changes one scope and no node. -/
theorem grows_declare (s : ScopeId) (b : Binding) : p.Grows (p.declare s b).2 (· = s) where
  size := by simp [declare]
  scope _ _ ht := Table.get_modify_of_ne ht

/-- A new scope changes none of the others. -/
theorem grows_addScope (parent : Option ScopeId) :
    p.Grows (p.addScope parent).2 fun _ => False where
  size := by simp [addScope]
  scope _ hs _ := Table.get_push_of_lt hs _

/-- A new body changes no scope and no signature. -/
theorem grows_setBody (h : FunctionId) (b : Block) : p.Grows (p.setBody h b) fun _ => False where
  functions k hk := by
    refine ⟨by simpa [setBody] using hk, ?_⟩
    exact Table.view_modify FunctionProperty.signature (fun f => { f with body := some b })
      (fun _ => rfl) p.functions h k

/-- Nodes are added first and then declared. -/
theorem Grows.declare {p q : Program} (h : p.Grows q fun _ => False) (s : ScopeId) (b : Binding) :
    p.Grows (q.declare s b).2 (· = s) :=
  h.trans (q.grows_declare s b) (fun _ hfalse => hfalse.elim) fun _ _ ht => ht

/-- A new variable changes no scope but the one it is declared in. -/
theorem grows_addVar (s : ScopeId) (node : Variable) : p.Grows (p.addVar s node).2 (· = s) :=
  Grows.declare (q := { p with vars := p.vars.push node }) { vars := Table.extends_push _ _ } s _

/-- A new native type changes no scope but the one it is declared in. -/
theorem grows_addNative (s : ScopeId) (node : NativeType) :
    p.Grows (p.addNative s node).2 (· = s) :=
  Grows.declare (q := { p with natives := p.natives.push node })
    { natives := Table.extends_push _ _ } s _

/-- A new enum changes no scope but the one it is declared in. -/
theorem grows_addEnum (s : ScopeId) (identity : String) (values : List (String × Span))
    (span : Span) : p.Grows (p.addEnum s identity values span).2 (· = s) :=
  Grows.declare (q := { p with enumValues := _, enums := p.enums.push _ })
    { enumValues := Table.extends_pushAll _ _, enums := Table.extends_push _ _ } s _

/-- A new entity changes no scope but the one it is declared in. -/
theorem grows_addEntity (s : ScopeId) (node : Entity) : p.Grows (p.addEntity s node).2 (· = s) :=
  Grows.declare (q := { p with entities := p.entities.push node })
    { entities := Table.extends_push _ _ } s _

/-- A new state changes no scope but the one it is declared in. -/
theorem grows_addState (s : ScopeId) (node : StateProperty) :
    p.Grows (p.addState s node).2 (· = s) :=
  Grows.declare (q := { p with states := p.states.push node })
    { states := Table.extends_push _ _ } s _

/-- A new function changes no scope but the one it is declared in. -/
theorem grows_addFunction (s : ScopeId) (node : FunctionProperty) :
    p.Grows (p.addFunction s node).2 (· = s) :=
  Grows.declare (q := { p with functions := p.functions.push node })
    { functions := fun h hh => ⟨Table.lt_size_push _ hh,
        congrArg FunctionProperty.signature (Table.get_push_of_lt hh _)⟩ } s _

/-- New parameters change no scope but the one they are declared in. -/
theorem grows_addVars (s : ScopeId) (parameters : List (String × Pattern)) :
    p.Grows (p.addVars s parameters).2 (· = s) := by
  induction parameters generalizing p with
  | nil => exact {}
  | cons parameter rest ih =>
    exact (p.grows_addVar s _).trans (ih _) (fun _ ht => ht) fun _ _ ht => ht

/-- The scope of a property is new, so its parameters change no scope that was there before. -/
theorem grows_addParameters (s : ScopeId) (parameters : List (String × Pattern)) :
    p.Grows ((p.addScope (some s)).2.addVars (p.addScope (some s)).1 parameters).2
      fun _ => False := by
  refine (p.grows_addScope (some s)).trans (grows_addVars _ _ parameters) (fun _ ht => ht) ?_
  rintro t ht rfl
  exact Nat.lt_irrefl _ ht

/-- A call changes no scope but the one that it declares in. -/
theorem grows_run (call : Call) : p.Grows (call.run p) (· ∈ call.target?) := by
  -- A call that declares in `s` has that scope as its target.
  have htarget {q : Program} {s : ScopeId} (h : p.Grows q (· = s)) : p.Grows q (· ∈ some s) :=
    h.mono fun _ ht => congrArg some ht.symm
  cases call with
  | scope parent => exact (p.grows_addScope parent).mono fun _ hfalse => hfalse.elim
  | var s node => exact htarget (p.grows_addVar s node)
  | native s node => exact htarget (p.grows_addNative s node)
  | enum s identity values span => exact htarget (p.grows_addEnum s identity values span)
  | entity s node => exact htarget (p.grows_addEntity s node)
  | state s node => exact htarget (p.grows_addState s node)
  | function s node => exact htarget (p.grows_addFunction s node)
  | declareState s identity pattern parameters initialValue =>
    exact htarget ((p.grows_addParameters s parameters).trans (grows_addState _ s _)
      (fun _ hfalse => hfalse.elim) fun _ _ ht => ht)
  | declareFunction s identity pattern parameters =>
    exact htarget ((p.grows_addParameters s parameters).trans (grows_addFunction _ s _)
      (fun _ hfalse => hfalse.elim) fun _ _ ht => ht)
  | body h block => exact (p.grows_setBody h block).mono fun _ hfalse => hfalse.elim

end Calls

end Program

end EntityLang
