import EntityLang.Proofs.Program.Shape

/-!
# What a step of resolving changes

Resolving writes patterns, initial values and bodies, and forgets rejected declarations. Each write
is seen in its own place only, and keeps the shape of the program.

A write to a handle out of range is lost. The node is blank then, and what resolving would write is
what a blank node holds.
-/

namespace EntityLang

namespace Table

variable {kind : NodeKind} {α β : Type} [Inhabited α]

/-- A view of the nodes that a change keeps reads the same after the change. -/
theorem view_modify (view : α → β) (g : α → α) (hg : ∀ a, view (g a) = view a)
    (t : Table kind α) (h k : Handle kind) : view ((t.modify h g).get k) = view (t.get k) := by
  rw [get_modify]
  split
  · exact hg _
  · rfl

/-- A change is not seen under another handle. -/
theorem get_modify_of_ne {g : α → α} {t : Table kind α} {h k : Handle kind} (hk : k ≠ h) :
    (t.modify h g).get k = t.get k := by
  rw [get_modify, if_neg fun hc => hk hc.1]

/-- A change is seen under its own handle, unless the node is blank. -/
theorem get_modify_self (g : α → α) (t : Table kind α) (h : Handle kind) :
    (t.modify h g).get h = g (t.get h) ∨ (t.get h = default ∧ (t.modify h g).get h = default) := by
  rw [get_modify]
  cases hh : t.get? h with
  | none => exact .inr ⟨get_eq_default hh, by simp [get_eq_default hh]⟩
  | some a => exact .inl (by simp)

/-- A change that does nothing to its node does nothing at all. -/
theorem modify_eq_self (g : α → α) (t : Table kind α) (h : Handle kind)
    (hg : g (t.get h) = t.get h) : t.modify h g = t := by
  obtain ⟨nodes⟩ := t
  apply congrArg Table.mk
  apply Array.ext_getElem?
  intro i
  rw [Array.getElem?_modify]
  split
  · rename_i hi
    subst hi
    cases hnode : nodes[h.index]? with
    | none => rfl
    | some a =>
      have hget : (Table.mk nodes : Table kind α).get h = a := by
        rw [get, get?, hnode, Option.getD_some]
      rw [hget] at hg
      rw [Option.map_some, hg]
  · rfl

end Table

namespace Program

section Patterns

variable (p : Program) (d : Decl) (x : Pattern)

/-- Writing a pattern keeps the shape of the program. -/
@[simp] theorem skeleton_setDeclPattern : (p.setDeclPattern d x).skeleton = p.skeleton := by
  cases d with
  | var h =>
    have hvars := Table.map_modify (f := Variable.skeleton) (g := fun v => { v with pattern := x })
      p.vars h fun _ _ => rfl
    simp only [setDeclPattern, setVarPattern, skeleton, hvars]
  | state h =>
    have hstates := Table.map_modify (f := StateProperty.skeleton)
      (g := fun v => { v with pattern := x }) p.states h fun _ _ => rfl
    simp only [setDeclPattern, setStatePattern, skeleton, hstates]
  | function h =>
    have hfunctions := Table.map_modify (f := FunctionProperty.skeleton)
      (g := fun v => { v with pattern := x }) p.functions h fun _ _ => rfl
    simp only [setDeclPattern, setFunctionPattern, skeleton, hfunctions]
  | _ => rfl

/-- Writing a pattern keeps what scopes had to reject. -/
@[simp] theorem rejected_setDeclPattern (s : ScopeId) :
    ((p.setDeclPattern d x).scope s).rejected = (p.scope s).rejected := by
  cases d <;> rfl

/-- Writing a pattern keeps initial values. -/
@[simp] theorem initialValue_setDeclPattern (h : StateId) :
    ((p.setDeclPattern d x).state h).initialValue = (p.state h).initialValue := by
  cases d with
  | state k =>
    exact Table.view_modify StateProperty.initialValue (fun v => { v with pattern := x })
      (fun _ => rfl) p.states k h
  | _ => rfl

/-- Writing a pattern keeps bodies. -/
@[simp] theorem body_setDeclPattern (h : FunctionId) :
    ((p.setDeclPattern d x).function h).body = (p.function h).body := by
  cases d with
  | function k =>
    exact Table.view_modify FunctionProperty.body (fun v => { v with pattern := x })
      (fun _ => rfl) p.functions k h
  | _ => rfl

/-- Other patterns stay as they are. -/
theorem declPattern_setDeclPattern_of_ne {d e : Decl} (he : e ≠ d) :
    (p.setDeclPattern d x).declPattern e = p.declPattern e := by
  have hhandle {kind : NodeKind} {h k : Handle kind} {mk : Handle kind → Decl}
      (hne : mk k ≠ mk h) : k ≠ h := fun hk => hne (hk ▸ rfl)
  cases d <;> cases e <;> try rfl
  · exact congrArg Variable.pattern (Table.get_modify_of_ne (hhandle he))
  · exact congrArg StateProperty.pattern (Table.get_modify_of_ne (hhandle he))
  · exact congrArg FunctionProperty.pattern (Table.get_modify_of_ne (hhandle he))

/-- The new pattern is there, provided that a pattern which was invalid is invalid again. -/
theorem declPattern_setDeclPattern_self (hx : p.declPattern d = .invalid → x = .invalid) :
    (p.setDeclPattern d x).declPattern d = x := by
  cases d with
  | var h =>
    obtain hg | ⟨hblank, hg⟩ := Table.get_modify_self (fun v => { v with pattern := x }) p.vars h
    · exact congrArg Variable.pattern hg
    · exact (congrArg Variable.pattern hg).trans (hx (congrArg Variable.pattern hblank)).symm
  | state h =>
    obtain hg | ⟨hblank, hg⟩ := Table.get_modify_self (fun v => { v with pattern := x }) p.states h
    · exact congrArg StateProperty.pattern hg
    · exact (congrArg StateProperty.pattern hg).trans
        (hx (congrArg StateProperty.pattern hblank)).symm
  | function h =>
    obtain hg | ⟨hblank, hg⟩ :=
      Table.get_modify_self (fun v => { v with pattern := x }) p.functions h
    · exact congrArg FunctionProperty.pattern hg
    · exact (congrArg FunctionProperty.pattern hg).trans
        (hx (congrArg FunctionProperty.pattern hblank)).symm
  | _ => exact (hx rfl).symm

/-- Nothing changes when a pattern is written over itself. -/
theorem setDeclPattern_self : p.setDeclPattern d (p.declPattern d) = p := by
  cases d with
  | var h =>
    have hvars := p.vars.modify_eq_self (fun v => { v with pattern := (p.var h).pattern }) h rfl
    exact congrArg (fun vars => { p with vars }) hvars
  | state h =>
    have hstates :=
      p.states.modify_eq_self (fun v => { v with pattern := (p.state h).pattern }) h rfl
    exact congrArg (fun states => { p with states }) hstates
  | function h =>
    have hfunctions :=
      p.functions.modify_eq_self (fun v => { v with pattern := (p.function h).pattern }) h rfl
    exact congrArg (fun functions => { p with functions }) hfunctions
  | _ => rfl

end Patterns

section Rejected

variable (p : Program) (s : ScopeId)

/-- Forgetting rejected declarations keeps the shape of the program. -/
@[simp] theorem skeleton_clearRejected : (p.clearRejected s).skeleton = p.skeleton := by
  have hscopes := Table.map_modify (f := Scope.skeleton) (g := fun v => { v with rejected := [] })
    p.scopes s fun _ _ => rfl
  simp only [clearRejected, skeleton, hscopes]

/-- Forgetting rejected declarations keeps declared patterns. -/
@[simp] theorem declPattern_clearRejected (d : Decl) :
    (p.clearRejected s).declPattern d = p.declPattern d := by
  cases d <;> rfl

/-- Afterwards nothing is rejected in the scope. -/
theorem rejected_clearRejected_self : ((p.clearRejected s).scope s).rejected = [] := by
  obtain hg | ⟨-, hg⟩ := Table.get_modify_self (fun v => { v with rejected := [] }) p.scopes s
  · exact congrArg Scope.rejected hg
  · exact congrArg Scope.rejected hg

/-- What is rejected in another scope stays. -/
theorem rejected_clearRejected_of_ne {s t : ScopeId} (ht : t ≠ s) :
    ((p.clearRejected s).scope t).rejected = (p.scope t).rejected :=
  congrArg Scope.rejected (Table.get_modify_of_ne ht)

/-- Nothing changes when there is nothing to forget. -/
theorem clearRejected_eq_self (hs : (p.scope s).rejected = []) : p.clearRejected s = p := by
  have hscopes := p.scopes.modify_eq_self (fun v => { v with rejected := [] }) s (by
    change { p.scope s with rejected := [] } = p.scope s
    rw [← hs])
  exact congrArg (fun scopes => { p with scopes }) hscopes

end Rejected

section Values

variable (p : Program) (h : StateId) (v : Option Expr)

/-- The shape stays if there was an initial value exactly when there is one now. -/
theorem skeleton_setInitialValue (hv : v.isSome = (p.state h).initialValue.isSome) :
    (p.setInitialValue h v).skeleton = p.skeleton := by
  have hstates : (p.states.modify h fun s => { s with initialValue := v }).map
      StateProperty.skeleton = p.states.map StateProperty.skeleton := by
    apply Table.map_modify
    intro a ha
    have hget : p.state h = a := by rw [state, Table.get, ha, Option.getD_some]
    rw [hget] at hv
    cases v <;> cases hi : a.initialValue <;> simp_all [StateProperty.skeleton]
  simp only [setInitialValue, skeleton, hstates]

/-- Writing an initial value keeps declared patterns. -/
@[simp] theorem declPattern_setInitialValue (d : Decl) :
    (p.setInitialValue h v).declPattern d = p.declPattern d := by
  cases d with
  | state k =>
    exact Table.view_modify StateProperty.pattern (fun s => { s with initialValue := v })
      (fun _ => rfl) p.states h k
  | _ => rfl

/-- Resolving does not read initial values. -/
theorem resolvesAlike_setInitialValue : (p.setInitialValue h v).ResolvesAlike p :=
  ⟨rfl, rfl, rfl, fun _ => rfl, p.declPattern_setInitialValue h v⟩

/-- Other initial values stay as they are. -/
theorem initialValue_setInitialValue_of_ne {h k : StateId} (hk : k ≠ h) :
    ((p.setInitialValue h v).state k).initialValue = (p.state k).initialValue :=
  congrArg StateProperty.initialValue (Table.get_modify_of_ne hk)

/-- The new initial value is there, provided that there was one exactly when there is one now. -/
theorem initialValue_setInitialValue_self (hv : v.isSome = (p.state h).initialValue.isSome) :
    ((p.setInitialValue h v).state h).initialValue = v := by
  obtain hg | ⟨hblank, hg⟩ :=
    Table.get_modify_self (fun s => { s with initialValue := v }) p.states h
  · exact congrArg StateProperty.initialValue hg
  · have hnone : (p.state h).initialValue = none := congrArg StateProperty.initialValue hblank
    rw [hnone, Option.isSome_none, Option.isSome_eq_false_iff, Option.isNone_iff_eq_none] at hv
    exact (congrArg StateProperty.initialValue hg).trans hv.symm

/-- Nothing changes when an initial value is written over itself. -/
theorem setInitialValue_self : p.setInitialValue h (p.state h).initialValue = p := by
  have hstates :=
    p.states.modify_eq_self (fun v => { v with initialValue := (p.state h).initialValue }) h rfl
  exact congrArg (fun states => { p with states }) hstates

end Values

section Bodies

variable (p : Program) (h : FunctionId) (b : Block)

/-- The shape stays if the function has a body of the same skeleton. -/
theorem skeleton_setBody (hb : (p.function h).body.map Block.skeleton = some b.skeleton) :
    (p.setBody h b).skeleton = p.skeleton := by
  have hfunctions : (p.functions.modify h fun f => { f with body := some b }).map
      FunctionProperty.skeleton = p.functions.map FunctionProperty.skeleton := by
    apply Table.map_modify
    intro a ha
    have hget : p.function h = a := by rw [function, Table.get, ha, Option.getD_some]
    rw [hget] at hb
    simp [FunctionProperty.skeleton, hb]
  simp only [setBody, skeleton, hfunctions]

/-- Writing a body keeps declared patterns. -/
@[simp] theorem declPattern_setBody (d : Decl) :
    (p.setBody h b).declPattern d = p.declPattern d := by
  cases d with
  | function k =>
    exact Table.view_modify FunctionProperty.pattern (fun f => { f with body := some b })
      (fun _ => rfl) p.functions h k
  | _ => rfl

/-- Resolving does not read bodies. -/
theorem resolvesAlike_setBody : (p.setBody h b).ResolvesAlike p :=
  ⟨rfl, rfl, rfl, Table.view_modify FunctionProperty.parameters (fun f => { f with body := some b })
    (fun _ => rfl) p.functions h, p.declPattern_setBody h b⟩

/-- Other bodies stay as they are. -/
theorem body_setBody_of_ne {h k : FunctionId} (hk : k ≠ h) :
    ((p.setBody h b).function k).body = (p.function k).body :=
  congrArg FunctionProperty.body (Table.get_modify_of_ne hk)

/-- The new body is there if there was one before. -/
theorem body_setBody_self (hb : (p.function h).body ≠ none) :
    ((p.setBody h b).function h).body = some b := by
  obtain hg | ⟨hblank, -⟩ :=
    Table.get_modify_self (fun f => { f with body := some b }) p.functions h
  · exact congrArg FunctionProperty.body hg
  · exact absurd (congrArg FunctionProperty.body hblank) hb

/-- Nothing changes when a body is written over itself. -/
theorem setBody_eq_self (hb : (p.function h).body = some b) : p.setBody h b = p := by
  have hfunctions := p.functions.modify_eq_self (fun f => { f with body := some b }) h (by
    change { p.function h with body := some b } = p.function h
    rw [← hb])
  exact congrArg (fun functions => { p with functions }) hfunctions

end Bodies

end Program

end EntityLang
