import EntityLang.Proofs.Program.Construction
import EntityLang.Proofs.Renaming.Check
import EntityLang.Proofs.Renaming.Walk

/-!
# Results do not depend on handles

Handles number the nodes of a program in the order in which they were declared. Resolving and
checking look at names and at equality of handles only, so what they find is the same for programs
that differ in their handles.

The order of declaration shows in one other place. A scope keeps the declarations that it rejected in
the order in which they came, and they are reported in that order. Programs that declare the same
names twice, but in another order, do not differ in their handles only, and their reports come in
another order too.
-/

namespace EntityLang

open Program

/-- A program under new handles is resolved to the same program under new handles, with the same
reports, or is walked without end as well; and a check finds the same in both. -/
theorem resolve_check_renamed {ρ : Renaming} {n : Nat} {p q : Program} (h : p.Renames ρ n q) :
    (∀ o, Walk.resolve p = some o → ∃ o', Walk.resolve q = some o' ∧ o'.reports = o.reports ∧
        o.program.Renames ρ n o'.program) ∧
      (Walk.resolve p = none → Walk.resolve q = none) ∧ q.check = p.check := by
  have hresolve := Walk.resolve_renames p q h
  refine ⟨fun o ho => ?_, fun hp => ?_, h.check_eq⟩
  · rw [ho] at hresolve
    generalize Walk.resolve q = x at hresolve ⊢
    cases hresolve with
    | some ho' => exact ⟨_, rfl, ho'.reports, ho'.program⟩
  · rw [hp] at hresolve
    generalize Walk.resolve q = x at hresolve ⊢
    cases hresolve
    rfl

/-! ### Two orders of declaration -/

namespace Reordered

/-- The name of a type. -/
def typeName (identity : String) : Pattern := .unresolved ⟨identity, .dummy⟩

/-- A name at a place. -/
def mention (identity : String) (place : Span) : Expr := .unresolved ⟨identity, place⟩ place

def tiny : Expr := mention "tiny" ⟨6, 10, 1, 7⟩

def comparison : Expr :=
  .binary .equal (mention "small" ⟨21, 26, 2, 7⟩) (mention "huge" ⟨30, 34, 2, 16⟩) ⟨21, 34, 2, 7⟩

def color : Call := .enum globalScope "Color" [("red", .dummy)] .dummy

def size : Call := .enum globalScope "Size" [("small", .dummy)] .dummy

def first : Call := .declareState globalScope "a" (typeName "Color") [] (some tiny)

def second : Call := .declareState globalScope "b" (typeName "Size") [] (some comparison)

def forward : Program := .build [color, size, first, second]

def backward : Program := .build [size, second, first, color]

/-- The node that a state gets. -/
def state (identity type : String) (own : ScopeId) (value : Expr) : StateProperty :=
  ⟨identity, typeName type, own, [], some value, .dummy⟩

/-- The handles of the one program in the other. -/
def exchange : Renaming where
  on
    | .scope => Equiv.swap ⟨1⟩ ⟨2⟩
    | .enum => Equiv.swap ⟨0⟩ ⟨1⟩
    | .enumValue => Equiv.swap ⟨0⟩ ⟨1⟩
    | .state => Equiv.swap ⟨0⟩ ⟨1⟩
    | _ => Equiv.refl _
  globalScope := by decide
  intrinsic _ _ := rfl

/-- Handles past those that are exchanged stay. -/
theorem swap_eq_self {kind : NodeKind} {i j m : Nat} (hi : i < m) (hj : j < m) (k : Handle kind)
    (hk : m ≤ k.index) : Equiv.swap (⟨i⟩ : Handle kind) ⟨j⟩ k = k := by
  apply Equiv.swap_apply_of_ne_of_ne <;> rintro rfl
  · exact absurd hi (Nat.not_lt.mpr hk)
  · exact absurd hj (Nat.not_lt.mpr hk)

/-- A state whose value the exchange leaves alone is renamed by renaming its scope. -/
theorem state_renames (identity type : String) (own : ScopeId) (value : Expr)
    (h : value.Renames exchange 2 value) :
    (state identity type own value).Renames exchange 2
      (state identity type (exchange.handle own) value) :=
  ⟨rfl, rfl, rfl, rfl, .some h, rfl⟩

/-- The states of the one program are those of the other one, exchanged. -/
theorem states_rename :
    forward.states.Renames exchange (StateProperty.Renames exchange 2) backward.states := by
  have ha : forward.states.get ⟨0⟩ = state "a" "Color" ⟨1⟩ tiny := rfl
  have ha' : backward.states.get ⟨1⟩ = state "a" "Color" ⟨2⟩ tiny := rfl
  have hb : forward.states.get ⟨1⟩ = state "b" "Size" ⟨2⟩ comparison := rfl
  have hb' : backward.states.get ⟨0⟩ = state "b" "Size" ⟨1⟩ comparison := rfl
  refine Table.renames_of_nodes (m := 2) rfl rfl (swap_eq_self (by decide) (by decide))
    (Fin.forall_fin_two.mpr ⟨?_, ?_⟩)
  · change StateProperty.Renames exchange 2 (forward.states.get ⟨0⟩) (backward.states.get ⟨1⟩)
    rw [ha, ha']
    exact state_renames "a" "Color" ⟨1⟩ tiny (.unresolved _ _)
  · change StateProperty.Renames exchange 2 (forward.states.get ⟨1⟩) (backward.states.get ⟨0⟩)
    rw [hb, hb']
    exact state_renames "b" "Size" ⟨2⟩ comparison
      (.binary (.unresolved _ _) (.unresolved _ _))

/-- The scopes of the one program are those of the other one, exchanged. -/
theorem scopes_rename :
    forward.scopes.Renames exchange (Scope.Renames exchange) backward.scopes := by
  refine Table.renames_of_nodes (m := 3) rfl rfl (swap_eq_self (by decide) (by decide))
    fun i => Scope.renames_of_toList ?_ ?_ ?_
  · revert i
    decide +kernel
  · revert i
    decide +kernel
  · revert i
    decide +kernel

/-- The native types of both programs are the same. -/
theorem natives_rename :
    forward.natives.Renames exchange (fun t u => u = t) backward.natives := by
  have hf : forward.natives = fresh.natives := rfl
  have hb : backward.natives = fresh.natives := rfl
  rw [hf, hb]
  exact Table.renames_of_nodes (m := 5) rfl rfl (fun _ _ => rfl) fun _ => rfl

/-- The two orders of declaration differ in handles only. -/
theorem forward_renames : forward.Renames exchange 2 backward where
  scopes := scopes_rename
  vars := Table.renames_of_nodes (m := 0) rfl rfl (fun _ _ => rfl) fun i => i.elim0
  natives := natives_rename
  enums := Table.renames_of_nodes (m := 2) rfl rfl (swap_eq_self (by decide) (by decide))
    (Fin.forall_fin_two.mpr ⟨⟨rfl, by decide⟩, ⟨rfl, by decide⟩⟩)
  enumValues := Table.renames_of_nodes (m := 2) rfl rfl (swap_eq_self (by decide) (by decide))
    (Fin.forall_fin_two.mpr ⟨rfl, rfl⟩)
  entities := Table.renames_of_nodes (m := 0) rfl rfl (fun _ _ => rfl) fun i => i.elim0
  states := states_rename
  functions := Table.renames_of_nodes (m := 0) rfl rfl (fun _ _ => rfl) fun i => i.elim0
  size := rfl
  phase := by
    have hf : forward.phase = .unresolved := rfl
    have hb : backward.phase = .unresolved := rfl
    rw [hf, hb]

/-- In both orders the two unknown names are reported alike, and the checks agree. -/
theorem resolve_check_renamed_reordered :
    forward.Renames exchange 2 backward ∧
      (Walk.resolve forward).map Outcome.reports =
        some [(Problem.unboundName "tiny").reportAt ⟨6, 10, 1, 7⟩,
          (Problem.unboundName "huge").reportAt ⟨30, 34, 2, 16⟩] ∧
      (∀ o, Walk.resolve forward = some o → ∃ o', Walk.resolve backward = some o' ∧
        o'.reports = o.reports ∧ o.program.Renames exchange 2 o'.program) ∧
      backward.check = forward.check :=
  have h := resolve_check_renamed forward_renames
  ⟨forward_renames, by decide +kernel, h.1, h.2.2⟩

end Reordered

/-! ### Two orders of rejected declarations -/

namespace Rejected

/-- Two declarations of a variable, at different places. -/
def twice (identity : String) (first second : Span) : List Call :=
  [.var globalScope ⟨identity, .int, first⟩, .var globalScope ⟨identity, .int, second⟩]

def left : List Call := twice "x" ⟨0, 1, 1, 1⟩ ⟨4, 5, 2, 1⟩

def right : List Call := twice "y" ⟨8, 9, 3, 1⟩ ⟨12, 13, 4, 1⟩

/-- The second declarations of two variables are reported in the order in which the variables were
declared. -/
theorem resolve_reports_in_declared_order :
    (Walk.resolve (.build (left ++ right))).map Outcome.reports =
        some [(Problem.redeclared "x").reportAt ⟨4, 5, 2, 1⟩,
          (Problem.redeclared "y").reportAt ⟨12, 13, 4, 1⟩] ∧
      (Walk.resolve (.build (right ++ left))).map Outcome.reports =
        some [(Problem.redeclared "y").reportAt ⟨12, 13, 4, 1⟩,
          (Problem.redeclared "x").reportAt ⟨4, 5, 2, 1⟩] := by
  decide +kernel

end Rejected

end EntityLang
