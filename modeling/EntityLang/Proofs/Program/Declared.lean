import EntityLang.Program.Declare
import EntityLang.Program.Lookup

/-!
# Declarations and where they are seen

A variable, a state or a function has a declared pattern, and a state or a function has a scope of
its own. A declaration is visible from a scope if a scope on the chain binds it; whatever a lookup
finds is visible.
-/

namespace EntityLang

/-- What a scope binds, in the order of the names. -/
theorem Scope.bindings_values_eq (s : Scope) :
    s.bindings.values = s.bindings.toList.map Prod.snd := by
  have h : s.bindings.values = s.bindings.foldr (fun _ v l => v :: l) [] := rfl
  rw [h, Std.TreeMap.foldr_eq_foldr_toList]
  induction s.bindings.toList with
  | nil => rfl
  | cons a rest ih => simp [ih]

/-- A scope binds what some name stands for in it. -/
theorem Scope.mem_bindings_values_iff (s : Scope) (b : Binding) :
    b ∈ s.bindings.values ↔ ∃ identity : String, s.bindings[identity]? = some b := by
  simp [bindings_values_eq, Std.TreeMap.mem_toList_iff_getElem?_eq_some]

/-- The functions among some declarations. -/
theorem Decl.mem_filterMap_function?_iff {ds : List Decl} {f : FunctionId} :
    f ∈ ds.filterMap Decl.function? ↔ .function f ∈ ds := by
  rw [List.mem_filterMap]
  constructor
  · rintro ⟨d, hd, hf⟩
    cases d <;> simp_all [function?]
  · exact fun h => ⟨_, h, rfl⟩

/-- The first state among some declarations is one of them. -/
theorem Decl.mem_of_findSome?_state? {ds : List Decl} {h : StateId}
    (hfound : ds.findSome? Decl.state? = some h) : .state h ∈ ds := by
  obtain ⟨d, hd, hh⟩ := List.exists_of_findSome?_eq_some hfound
  cases d <;> simp_all [state?]

namespace Program

/-- The declared pattern of a variable, a state or a function; a type has none. -/
def declPattern (p : Program) : Decl → Pattern
  | .var h => (p.var h).pattern
  | .state h => (p.state h).pattern
  | .function h => (p.function h).pattern
  | .native _ | .enum _ | .entity _ => .invalid

/-- Replace the declared pattern of a variable, a state or a function. -/
def setDeclPattern (p : Program) : Decl → Pattern → Program
  | .var h, pattern => p.setVarPattern h pattern
  | .state h, pattern => p.setStatePattern h pattern
  | .function h, pattern => p.setFunctionPattern h pattern
  | .native _, _ | .enum _, _ | .entity _, _ => p

/-- The scope of a state or a function. -/
def ownScope? (p : Program) : Decl → Option ScopeId
  | .state h => some (p.state h).scope
  | .function h => some (p.function h).scope
  | .var _ | .native _ | .enum _ | .entity _ => none

/-- A declaration is bound in a scope exactly when it is a leaf of some binding there. -/
theorem mem_declared_iff (p : Program) (s : ScopeId) (d : Decl) :
    d ∈ p.declared s ↔ ∃ identity b, p.boundIn identity s = some b ∧ d ∈ b.overloads := by
  simp only [declared, boundIn, List.mem_flatMap, Scope.mem_bindings_values_iff]
  constructor
  · rintro ⟨b, ⟨identity, hb⟩, hd⟩
    exact ⟨identity, b, hb, hd⟩
  · rintro ⟨identity, b, hb, hd⟩
    exact ⟨b, ⟨identity, hb⟩, hd⟩

/-- A scope on the chain of `s` binds the declaration. -/
def Visible (p : Program) (s : ScopeId) (d : Decl) : Prop := ∃ t ∈ p.chain s, d ∈ p.declared t

/-- What a name stands for is visible. -/
theorem visible_of_fetch {p : Program} {s : ScopeId} {identity : String} {b : Binding} {d : Decl}
    (h : p.fetch s identity = some b) (hd : d ∈ b.overloads) : p.Visible s d := by
  obtain ⟨t, ht, hb⟩ := List.exists_of_findSome?_eq_some h
  exact ⟨t, ht, (mem_declared_iff p t d).mpr ⟨identity, b, hb, hd⟩⟩

/-- The declarations that a name stands for are visible. -/
theorem visible_of_mem_fetchOverloads {p : Program} {s : ScopeId} {identity : String} {d : Decl}
    (h : d ∈ p.fetchOverloads s identity) : p.Visible s d := by
  unfold fetchOverloads at h
  split at h
  · exact visible_of_fetch ‹_› h
  · simp at h

/-- The properties that a name stands for are visible. -/
theorem visible_of_mem_fetchProperty {p : Program} {s : ScopeId} {identity : String} {d : Decl}
    (h : d ∈ p.fetchProperty s identity) : p.Visible s d := by
  unfold fetchProperty at h
  split at h
  · rename_i b hb
    obtain ⟨t, ht, hb⟩ := List.exists_of_findSome?_eq_some hb
    obtain ⟨hb, -⟩ := Option.filter_eq_some_iff.mp hb
    exact ⟨t, ht, (mem_declared_iff p t d).mpr ⟨identity, b, hb, h⟩⟩
  · simp at h

/-- The enums bound in a scope are declared there. -/
theorem mem_declared_of_mem_enumsIn {p : Program} {t : ScopeId} {e : EnumId}
    (h : e ∈ p.enumsIn t) : .enum e ∈ p.declared t := by
  obtain ⟨b, hb, he⟩ := List.mem_filterMap.mp h
  refine List.mem_flatMap.mpr ⟨b, hb, ?_⟩
  split at he
  · rw [Option.some.inj he]
    simp [Binding.overloads]
  · simp at he

/-- The value of a name is a value of its enum. -/
theorem mem_values_of_enumValueNamed {p : Program} {e : EnumId} {identity : String}
    {v : EnumValueId} (h : p.enumValueNamed e identity = some v) : v ∈ (p.enum e).values :=
  List.mem_of_find?_eq_some h

/-- An enum whose name stands for it is visible. -/
theorem visible_of_isVisibleEnum {p : Program} {s : ScopeId} {e : EnumId}
    (h : p.isVisibleEnum s e = true) : p.Visible s (.enum e) := by
  unfold isVisibleEnum at h
  split at h
  · rename_i d hfetch
    exact visible_of_fetch hfetch (by simpa [Binding.overloads, eq_comm] using h)
  · simp at h

/-- The values in reach are values of visible enums. -/
theorem exists_of_mem_enumValuesInReach {p : Program} {s : ScopeId} {identity : String}
    {v : EnumValueId} (h : v ∈ p.enumValuesInReach s identity) :
    ∃ e, p.Visible s (.enum e) ∧ p.enumValueNamed e identity = some v := by
  obtain ⟨e, he, hv⟩ := List.mem_filterMap.mp h
  exact ⟨e, visible_of_isVisibleEnum (List.mem_filter.mp he).2, hv⟩

end Program

end EntityLang
