import EntityLang.Proofs.Outline.Names
import EntityLang.Proofs.Program.Reach

/-!
# Names in the outline of a scope

The outline of a declaration shows its pattern, its variables, its expressions, and the scopes of
the blocks in its body. The outline of a scope shows the declarations bound there. The scopes of
properties are not written out.

If scopes are written out inside each other no deeper than allowed, there is an outline, and it
holds a name exactly if one of the scopes that are written out binds a declaration that shows one.
-/

namespace EntityLang

open Relation (ReflTransGen)

namespace Program

variable (p : Program)

/-- The scopes of the blocks in the body of a function. -/
@[simp] def bodyScopes : Decl → List ScopeId
  | .function h => (p.function h).body.toList.flatMap Block.scopes
  | _ => []

/-- The parameters of a property and the variables of its body, each with the scope where it is to
be declared. -/
@[simp] def listed : Decl → List (ScopeId × VarId)
  | .state h => (p.state h).parameters.map fun v => ((p.state h).scope, v)
  | .function h => ((p.function h).parameters.map fun v => ((p.function h).scope, v)) ++
    (p.function h).body.toList.flatMap Block.variables
  | _ => []

/-- The outline of the declaration shows a name, apart from what is written of scopes. -/
def showsName (d : Decl) : Bool :=
  (p.declPattern d).unresolved?.isSome || (p.listed d).any (fun x => p.isNamed x.2) ||
    (p.ownExprs d).any fun e => (e.outline p).holdsName

/-- The outline of the declaration holds a name where `enter` writes scopes. -/
def writesName (enter : ScopeId → Option Json) (d : Decl) : Bool :=
  p.showsName d || (p.bodyScopes d).any fun c => (enter c).any Json.holdsName

end Program

section Outlines

variable (p : Program) (enter : ScopeId → Option Json)

/-- Sites hold the names in the outlines of their scopes and in their expressions. -/
theorem Site.any_holdsName (xs : List Site) : xs.any (Site.holdsName p enter) =
    ((xs.filterMap Site.entered?).any (fun c => (enter c).any Json.holdsName) ||
      (xs.filterMap Site.expr?).any fun e => (e.outline p).holdsName) := by
  induction xs with
  | nil => rfl
  | cons x rest ih =>
    cases x <;> simp [holdsName, entered?, expr?, ih, Bool.or_assoc, Bool.or_left_comm]

/-- The parameters of a property are outlined as variables. -/
theorem Program.any_holdsName_parameters (vs : List VarId) (s : ScopeId) :
    (vs.map p.varOutline).any Json.holdsName =
      (vs.map fun v => (s, v)).any fun x => p.isNamed x.2 := by
  induction vs with
  | nil => rfl
  | cons v rest ih => simp_all

/-- If its scopes have outlines, so has a block. -/
theorem Block.map_holdsName_outline_eq (b : Block) (h : ∀ c ∈ b.scopes, (enter c).isSome) :
    (b.outline p enter).map Json.holdsName =
      some (((b.scopes.any fun c => (enter c).any Json.holdsName) ||
          b.exprs.any fun e => (e.outline p).holdsName) ||
        b.variables.any fun x => p.isNamed x.2) := by
  have houtline := b.map_holdsName_outline p enter b.scope true fun o c hc =>
    h c ((mem_scopes_iff b.scope true b c).mpr ⟨o, hc⟩)
  rw [houtline, Site.any_holdsName]
  rfl

/-- If the scopes of its blocks have outlines, so has a declaration. -/
theorem Decl.map_holdsName_outline (d : Decl) (h : ∀ c ∈ p.bodyScopes d, (enter c).isSome) :
    (d.outline p enter).map Json.holdsName = some (p.writesName enter d) := by
  cases d with
  | state k =>
    simp [outline, Program.writesName, Program.showsName, Program.declPattern,
      p.any_holdsName_parameters _ (p.state k).scope, Bool.or_assoc]
  | function k =>
    cases hbody : (p.function k).body with
    | none =>
      simp [outline, Program.writesName, Program.showsName, Program.declPattern,
        p.any_holdsName_parameters _ (p.function k).scope, Statement.outlineOtherwise, hbody]
    | some b =>
      have hscopes : ∀ c ∈ b.scopes, (enter c).isSome := fun c hc =>
        h c (by simpa [hbody] using hc)
      obtain ⟨j, hj, hholds⟩ :=
        Option.map_eq_some_iff.mp (b.map_holdsName_outline_eq p enter hscopes)
      simp [outline, Program.writesName, Program.showsName, Program.declPattern,
        p.any_holdsName_parameters _ (p.function k).scope, Statement.outlineOtherwise, hbody, hj,
        hholds, Bool.or_assoc, Bool.or_left_comm, Bool.or_comm]
  | _ =>
    simp [outline, Program.writesName, Program.showsName, Program.declPattern, Program.isNamed,
      Pattern.unresolved?, Pattern.core]

mutual

/-- If the scopes of all blocks have outlines, so has what a name stands for. -/
theorem Binding.map_holdsName_outline : (b : Binding) →
    (∀ d ∈ b.overloads, ∀ c ∈ p.bodyScopes d, (enter c).isSome) →
    (b.outline p enter).map Json.holdsName = some (b.overloads.any (p.writesName enter))
  | .decl d, h => by
    rw [Binding.outline, d.map_holdsName_outline p enter (h d (by simp [Binding.overloads]))]
    simp [Binding.overloads]
  | .overloaded identity members, h => by
    obtain ⟨js, hjs, hholds⟩ := Option.map_eq_some_iff.mp
      (Binding.map_any_outlineAll members h)
    simp [Binding.outline, Binding.overloads, hjs, hholds]

/-- The members of an overload set. -/
theorem Binding.map_any_outlineAll : (members : List Binding) →
    (∀ d ∈ Binding.overloadsAll members, ∀ c ∈ p.bodyScopes d, (enter c).isSome) →
    (Binding.outlineAll p enter members).map (List.any · Json.holdsName) =
      some ((Binding.overloadsAll members).any (p.writesName enter))
  | [], _ => rfl
  | b :: rest, h => by
    obtain ⟨j, hj, hb⟩ := Option.map_eq_some_iff.mp
      (Binding.map_holdsName_outline b fun d hd => h d (List.mem_append_left _ hd))
    obtain ⟨js, hjs, hrest⟩ := Option.map_eq_some_iff.mp
      (Binding.map_any_outlineAll rest fun d hd => h d (List.mem_append_right _ hd))
    simp [Binding.outlineAll, Binding.overloadsAll, hj, hjs, hb, hrest]

end

/-- The outline of what a name stands for is a node. -/
theorem Binding.exists_node_of_outline {b : Binding} {j : Json} (h : b.outline p enter = some j) :
    ∃ kind fields, j = .node kind fields := by
  cases b with
  | decl d =>
    rw [Binding.outline] at h
    cases d with
    | function k =>
      obtain ⟨body, -, hj⟩ := Option.bind_eq_some_iff.mp h
      exact ⟨_, _, (Option.some.inj hj).symm⟩
    | _ => exact ⟨_, _, (Option.some.inj h).symm⟩
  | overloaded identity members =>
    rw [Binding.outline] at h
    obtain ⟨js, -, hj⟩ := Option.bind_eq_some_iff.mp h
    exact ⟨_, _, (Option.some.inj hj).symm⟩

/-- The fields for the names of a scope. The name `node` makes no exception, since what stands under
it is never a text. -/
theorem Binding.map_any_outlineNamed (named : List (String × Binding))
    (h : ∀ d ∈ (named.map Prod.snd).flatMap Binding.overloads, ∀ c ∈ p.bodyScopes d,
      (enter c).isSome) :
    (Binding.outlineNamed p enter named).map
        (List.any · (Json.fieldHoldsNode "UnresolvedIdentity")) =
      some (((named.map Prod.snd).flatMap Binding.overloads).any (p.writesName enter)) := by
  induction named with
  | nil => rfl
  | cons entry rest ih =>
    obtain ⟨identity, b⟩ := entry
    rw [List.map_cons, List.flatMap_cons] at h ⊢
    obtain ⟨j, hj, hb⟩ := Option.map_eq_some_iff.mp
      (Binding.map_holdsName_outline p enter b fun d hd => h d (List.mem_append_left _ hd))
    obtain ⟨fields, hfields, hrest⟩ := Option.map_eq_some_iff.mp
      (ih fun d hd => h d (List.mem_append_right _ hd))
    have hfield : Json.fieldHoldsNode "UnresolvedIdentity" (identity, j) = j.holdsName := by
      obtain ⟨kind, inner, rfl⟩ := Binding.exists_node_of_outline p enter hj
      exact Json.fieldHoldsNode_node _ _ _ _
    simp [Binding.outlineNamed, hj, hfields, hfield, hb, hrest]

end Outlines

namespace Program

/-- The outline of the first scope writes out the second one, as a scope of a block. -/
def WritesOut (p : Program) (s c : ScopeId) : Prop := ∃ d ∈ p.declared s, c ∈ p.bodyScopes d

/-- The outline of the program writes out the scope. -/
def Written (p : Program) (s : ScopeId) : Prop := ReflTransGen p.WritesOut globalScope s

variable {p : Program}

/-- Whatever an outline writes out is reachable. -/
theorem Written.reachable {s : ScopeId} (hs : p.Written s) : p.Reachable s := by
  induction hs with
  | refl => exact p.reachable_globalScope
  | tail _ hstep ih =>
    obtain ⟨d, hd, hc⟩ := hstep
    cases d with
    | function h =>
      obtain ⟨b, hb, hc⟩ := List.mem_flatMap.mp hc
      exact ih.enter hd (.block not_false (Option.mem_toList.mp hb) hc)
    | _ => exact absurd hc List.not_mem_nil

/-- If the scopes that a scope writes out have outlines, so has the scope. -/
theorem map_holdsName_scopeOutlineUpTo (p : Program) (depth : Nat) (s : ScopeId)
    (h : ∀ c, p.WritesOut s c → (p.scopeOutlineUpTo depth c).isSome) :
    (p.scopeOutlineUpTo (depth + 1) s).map Json.holdsName =
      some ((p.declared s).any (p.writesName (p.scopeOutlineUpTo depth))) := by
  have hdeclared : p.declared s =
      ((p.scope s).bindings.toList.map Prod.snd).flatMap Binding.overloads := by
    rw [declared, Scope.bindings_values_eq]
  rw [hdeclared]
  obtain ⟨fields, hfields, hholds⟩ := Option.map_eq_some_iff.mp
    (Binding.map_any_outlineNamed p (p.scopeOutlineUpTo depth) (p.scope s).bindings.toList
      fun d hd c hc => h c ⟨d, hdeclared ▸ hd, hc⟩)
  simp [scopeOutlineUpTo, hfields, hholds]

/-- One of the scopes that the outline of a scope writes out binds a declaration that shows a
name. -/
def ShowsFrom (p : Program) (s : ScopeId) : Prop :=
  ∃ t, ReflTransGen p.WritesOut s t ∧ ∃ d ∈ p.declared t, p.showsName d = true

/-- A name is shown by what the scope itself binds or from one of the next scopes on. -/
theorem showsFrom_iff (s : ScopeId) : p.ShowsFrom s ↔
    (∃ d ∈ p.declared s, p.showsName d = true) ∨ ∃ c, p.WritesOut s c ∧ p.ShowsFrom c := by
  constructor
  · rintro ⟨t, ht, hshows⟩
    obtain rfl | ⟨c, hstep, ht⟩ := ht.cases_head
    · exact .inl hshows
    · exact .inr ⟨c, hstep, t, ht, hshows⟩
  · rintro (hshows | ⟨c, hstep, t, ht, hshows⟩)
    · exact ⟨s, .refl, hshows⟩
    · exact ⟨t, .head hstep ht, hshows⟩

/-- A declaration is written with a name if it shows one, or if a scope in its body does. -/
theorem writesName_eq_true_iff (enter : ScopeId → Option Json) (d : Decl) :
    p.writesName enter d = true ↔
      p.showsName d = true ∨ ∃ c ∈ p.bodyScopes d, (enter c).any Json.holdsName = true := by
  rw [writesName, Bool.or_eq_true, List.any_eq_true]

/-- A scope whose rank is below the depth has an outline, and it holds a name exactly if one of the
scopes that it writes out binds a declaration that shows one. -/
theorem exists_scopeOutlineUpTo {rank : ScopeId → Nat}
    (hrank : ∀ s c, p.WritesOut s c → rank c < rank s) {depth : Nat} {s : ScopeId}
    (hs : rank s < depth) :
    ∃ j, p.scopeOutlineUpTo depth s = some j ∧ (j.holdsName = true ↔ p.ShowsFrom s) := by
  induction depth generalizing s with
  | zero => omega
  | succ depth ih =>
    -- A scope inside takes one level of the depth, and its rank is lower by one at least.
    have hinner : ∀ c, p.WritesOut s c → (p.scopeOutlineUpTo depth c).isSome ∧
        ((p.scopeOutlineUpTo depth c).any Json.holdsName = true ↔ p.ShowsFrom c) := by
      intro c hc
      have hlt := hrank s c hc
      obtain ⟨j, hj, hholds⟩ := ih (s := c) (by omega)
      rw [hj]
      exact ⟨rfl, hholds⟩
    obtain ⟨j, hj, hholds⟩ := Option.map_eq_some_iff.mp
      (p.map_holdsName_scopeOutlineUpTo depth s fun c hc => (hinner c hc).1)
    refine ⟨j, hj, ?_⟩
    rw [hholds, List.any_eq_true, showsFrom_iff]
    simp only [writesName_eq_true_iff]
    constructor
    · rintro ⟨d, hd, hshows | ⟨c, hc, hname⟩⟩
      · exact .inl ⟨d, hd, hshows⟩
      · exact .inr ⟨c, ⟨d, hd, hc⟩, (hinner c ⟨d, hd, hc⟩).2.mp hname⟩
    · rintro (⟨d, hd, hshows⟩ | ⟨c, ⟨d, hd, hc⟩, hfrom⟩)
      · exact ⟨d, hd, .inl hshows⟩
      · exact ⟨d, hd, .inr ⟨c, hc, (hinner c ⟨d, hd, hc⟩).2.mpr hfrom⟩⟩

end Program

end EntityLang
