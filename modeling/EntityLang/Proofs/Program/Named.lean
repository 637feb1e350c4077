import EntityLang.Proofs.Expr.Resolved
import EntityLang.Proofs.Program.Recorded

/-!
# What is found under a name has that name

A scope is a table from names to declarations, and every declaration has a name of its own. The two
agree in every program that is built by calls. Where they agree, whatever takes the place of a name
in an expression has that name, also if it is one of several overloads, a property that is hidden by
a variable, or a value of an enum.
-/

namespace EntityLang

namespace Program

/-- Whatever a scope binds to a name has that name, and so has each of its overloads. -/
def KeyedByName (p : Program) : Prop :=
  ∀ s identity b, p.boundIn identity s = some b →
    p.identity b = identity ∧ ∀ d ∈ b.overloads, p.declIdentity d = identity

section Lookup

variable {p : Program} {s : ScopeId} {identity : String} {d : Decl}

/-- What a name stands for has that name. -/
theorem KeyedByName.fetch (hp : p.KeyedByName) {b : Binding} (h : p.fetch s identity = some b)
    (hd : d ∈ b.overloads) : p.declIdentity d = identity := by
  obtain ⟨t, -, hb⟩ := List.exists_of_findSome?_eq_some h
  exact (hp t identity b hb).2 d hd

/-- The declarations that a name stands for have that name. -/
theorem KeyedByName.fetchOverloads (hp : p.KeyedByName) (h : d ∈ p.fetchOverloads s identity) :
    p.declIdentity d = identity := by
  unfold Program.fetchOverloads at h
  split at h
  · exact hp.fetch ‹_› h
  · simp at h

/-- The properties that a name stands for have that name. -/
theorem KeyedByName.fetchProperty (hp : p.KeyedByName) (h : d ∈ p.fetchProperty s identity) :
    p.declIdentity d = identity := by
  unfold Program.fetchProperty at h
  split at h
  · rename_i b hb
    obtain ⟨t, -, hb⟩ := List.exists_of_findSome?_eq_some hb
    obtain ⟨hb, -⟩ := Option.filter_eq_some_iff.mp hb
    exact (hp t identity b hb).2 d h
  · simp at h

/-- The value of a name has that name. -/
theorem identity_of_enumValueNamed {e : EnumId} {v : EnumValueId}
    (h : p.enumValueNamed e identity = some v) : (p.enumValue v).identity = identity := by
  simpa using List.find?_some h

end Lookup

/-- Names are kept by every program that is built. -/
theorem Built.keyedByName {p : Program} (h : p.Built) : p.KeyedByName := by
  obtain ⟨l, hmatches⟩ := h.exists_matches
  intro s identity b hb
  rw [hmatches.bound] at hb
  have hname : ∀ d ∈ b.overloads, p.declIdentity d = identity := by
    intro d hd
    rw [Ledger.overloads_standsFor hb] at hd
    exact hmatches.identity _ (Ledger.mem_under.mp (Ledger.accepted_subset _ hd))
  refine ⟨?_, hname⟩
  cases b with
  | decl d => exact hname d (by simp [Binding.overloads])
  | overloaded own members =>
    -- a set of overloads was named when the second of them was declared
    unfold Ledger.standsFor at hb
    split at hb
    · simp at hb
    · simp at hb
    · exact (Binding.overloaded.inj (Option.some.inj hb)).1.symm

end Program

namespace Expr

/-- Whatever a node refers to has this name. -/
def RefersBy (p : Program) (identity : String) (e : Expr) : Prop :=
  (∀ d ∈ e.handle?, p.declIdentity d = identity) ∧
    ∀ v ∈ e.enumValue?, (p.enumValue v).identity = identity

section RefersBy

variable {p : Program} {identity : String}

/-- The invalid expression refers to nothing. -/
theorem refersBy_invalid (span : Span) : (invalid span).RefersBy p identity := by
  simp [RefersBy, handle?, enumValue?]

/-- An enum value refers to something of its own name. -/
theorem refersBy_enumValue {v : EnumValueId} (h : (p.enumValue v).identity = identity)
    (span : Span) : (enumValue v span).RefersBy p identity := by
  simp [RefersBy, handle?, enumValue?, h]

/-- A node that is no value of an enum refers to a declaration at most. -/
theorem refersBy_of_handle {e : Expr} {d : Decl} (hhandle : e.handle? = some d)
    (hvalue : e.enumValue? = none) (hd : p.declIdentity d = identity) :
    e.RefersBy p identity := by
  simp [RefersBy, hhandle, hvalue, hd]

end RefersBy

end Expr

namespace Program

variable {p : Program} (hp : p.KeyedByName) (s : ScopeId) (identity : String) (span : Span)
include hp

/-- A bare name is resolved to something of that name. -/
theorem refersBy_resolveName (hint : Option Pattern) :
    (p.resolveName s hint identity span).value.RefersBy p identity := by
  obtain ⟨h, hfetch, heq⟩ | ⟨v, e, -, hv, heq⟩ | heq := p.resolveName_value s identity span hint <;>
    rw [heq]
  · exact Expr.refersBy_of_handle rfl rfl (hp.fetch hfetch (by simp [Binding.overloads]))
  · exact Expr.refersBy_enumValue (identity_of_enumValueNamed hv) span
  · exact Expr.refersBy_invalid span

omit hp in
/-- A qualified value is resolved to something of its name. -/
theorem refersBy_resolveQualified (enumName : String) (e : EnumId) :
    (p.resolveQualified enumName e identity span).value.RefersBy p identity := by
  obtain ⟨v, hv, heq⟩ | heq := p.resolveQualified_value identity span enumName e <;> rw [heq]
  · exact Expr.refersBy_enumValue (identity_of_enumValueNamed hv) span
  · exact Expr.refersBy_invalid span

/-- The name of a property is resolved to something of that name. -/
theorem refersBy_resolveProperty (subject : Expr) :
    (p.resolveProperty s subject identity span).value.RefersBy p identity := by
  obtain ⟨h, hh, heq⟩ | ⟨h, hh, heq⟩ | heq := p.resolveProperty_value s identity span subject <;>
    rw [heq]
  · exact Expr.refersBy_of_handle rfl rfl (hp.fetchProperty hh)
  · exact Expr.refersBy_of_handle rfl rfl (hp.fetchProperty hh)
  · exact Expr.refersBy_invalid span

/-- The name of a callee is resolved to something of that name. -/
theorem refersBy_resolveCall (args : List Expr) :
    (p.resolveCall s identity args span).value.RefersBy p identity := by
  obtain ⟨f, hf, heq⟩ | heq := p.resolveCall_value s identity span args <;> rw [heq]
  · exact Expr.refersBy_of_handle rfl rfl (hp.fetchOverloads hf)
  · exact Expr.refersBy_invalid span

end Program

end EntityLang
