import EntityLang.Proofs.Checking.Halt
import EntityLang.Proofs.Program.Acyclic

/-!
# Broken programs

A program is broken if something that the global scope reaches cannot have come out of resolving: a
pattern or a node of an expression is still a name, or an overload set holds something that is no
function. If no property is found again inside itself, a check gives up exactly on broken programs,
whatever else it has to report.
-/

namespace EntityLang

namespace Program

/-- Something that the global scope reaches is broken. -/
inductive Broken (p : Program) : Prop
  /-- The pattern of a variable, a state or a function that is bound is a name. -/
  | pattern {s : ScopeId} {d : Decl} (hs : p.Reachable s) (hd : d ∈ p.declared s)
    (hname : (p.declPattern d).isUnresolved = true)
  /-- The pattern of a variable that a statement declares is a name. -/
  | declaration {s c : ScopeId} {h : FunctionId} {b : Block} {v : VarId} (hs : p.Reachable s)
    (hh : .function h ∈ p.declared s) (hb : (p.function h).body = some b)
    (hv : .declare c v ∈ b.sites (p.function h).scope true)
    (hname : (p.var v).pattern.isUnresolved = true)
  /-- A part of an initial value or of a body is a name, or indexes or calls a name. -/
  | name {s : ScopeId} {d : Decl} {e x : Expr} (hs : p.Reachable s) (hd : d ∈ p.declared s)
    (he : e ∈ p.ownExprs d) (hx : x ∈ e.subexprs) (hname : x.mention?.isSome = true)
  /-- A member of an overload set is no function. -/
  | member {s : ScopeId} {identity own : String} {members : List Binding} {m : Binding}
    (hs : p.Reachable s) (hb : p.boundIn identity s = some (.overloaded own members))
    (hm : m ∈ members) (hfunction : ¬ ∃ h, m = .decl (.function h))

/-- No reachable property is found again in its own scope or body. -/
def Acyclic (p : Program) : Prop :=
  ∀ d, p.Behind (fun _ => False) globalScope d → ∀ t, p.Enters (fun _ => False) d t →
    ¬ p.Behind (fun _ => False) t d

variable {p : Program}

/-- A pattern that is a name is a reason to halt. -/
theorem exists_leftover?_of_isUnresolved {x : Pattern} (hx : x.isUnresolved = true) :
    ∃ c, x.leftover? = some c := by
  obtain ⟨name, hname⟩ := Option.isSome_iff_exists.mp hx
  exact ⟨_, by rw [Pattern.leftover?, hname]; rfl⟩

/-- In a broken program there is a reason to halt. -/
theorem Broken.exists_cause (h : p.Broken) : ∃ c, p.Leftover c ∨ p.Misgrouped c := by
  cases h with
  | @pattern s d hs hd hname =>
    obtain ⟨c, hc⟩ := exists_leftover?_of_isUnresolved hname
    exact ⟨c, .inl ⟨s, hs, d, hd, .inl hc⟩⟩
  | @declaration s c h b v hs hh hb hv hname =>
    obtain ⟨cause, hcause⟩ := exists_leftover?_of_isUnresolved hname
    have hsite := (p.declare_mem_declSites_iff s _ c v).mpr ⟨h, rfl, b, hb, hv⟩
    exact ⟨cause, .inl ⟨s, hs, _, hh, .inr ⟨_, hsite, hcause⟩⟩⟩
  | @name s d e x hs hd he hx hname =>
    obtain ⟨t, expected, hsite⟩ := (p.mem_ownExprs_iff s d e).mp he
    have hsome : e.subexprs.findSome? Expr.leftover? ≠ none := by
      rw [Ne, Expr.findSome?_leftover?_eq_none_iff]
      intro hresolved
      simp [hresolved x hx] at hname
    obtain ⟨c, hc⟩ := Option.ne_none_iff_exists'.mp hsome
    exact ⟨c, .inl ⟨s, hs, d, hd, .inr ⟨_, hsite, hc⟩⟩⟩
  | @member s identity own members m hs hb hm hfunction =>
    exact ⟨_, .inr ⟨s, hs, identity, _, hb, m, hm, hfunction, rfl⟩⟩

/-- Where a name is left, the program is broken, and the reason is an internal error. -/
theorem Leftover.broken {c : Halt} (h : p.Leftover c) : p.Broken ∧ ∃ err, c = .broken err := by
  obtain ⟨s, hs, d, hd, hc | ⟨x, hx, hc⟩⟩ := h
  · obtain ⟨name, hname, rfl⟩ := Option.map_eq_some_iff.mp hc
    exact ⟨.pattern hs hd (Option.isSome_of_eq_some hname), _, rfl⟩
  · cases x with
    | enter o t => simp [Site.leftover?] at hc
    | eval t expected e =>
      obtain ⟨x, hpart, hc⟩ := List.exists_of_findSome?_eq_some hc
      have hown := (p.mem_ownExprs_iff s d e).mpr ⟨t, expected, hx⟩
      have hname : x.mention?.isSome = true := by
        rw [Option.isSome_iff_ne_none, Ne, ← Expr.leftover?_eq_none_iff, hc]
        simp
      exact ⟨.name hs hd hown hpart hname, Expr.exists_of_leftover? hc⟩
    | declare t v =>
      obtain ⟨h, rfl, b, hb, hv⟩ := (p.declare_mem_declSites_iff s d t v).mp hx
      obtain ⟨name, hname, rfl⟩ := Option.map_eq_some_iff.mp hc
      exact ⟨.declaration hs hd hb hv (Option.isSome_of_eq_some hname), _, rfl⟩

/-- Where an overload set is malformed, the program is broken, and the reason is an internal
error. -/
theorem Misgrouped.broken {c : Halt} (h : p.Misgrouped c) : p.Broken ∧ ∃ err, c = .broken err := by
  obtain ⟨s, hs, identity, b, hb, hmalformed⟩ := h
  cases b with
  | decl d => exact hmalformed.elim
  | overloaded own members =>
    obtain ⟨m, hm, hfunction, rfl⟩ := hmalformed
    exact ⟨.member hs hb hm hfunction, _, rfl⟩

section Acyclic

variable (hp : p.Acyclic)
include hp

/-- A reachable property has a node: without one it would lead back to the global scope. -/
theorem Acyclic.mem_properties {d : Decl} (hd : p.Behind (fun _ => False) globalScope d)
    {t : ScopeId} (ht : p.ownScope? d = some t) : d ∈ p.properties := by
  by_contra hnot
  refine hp d hd globalScope (.own ?_) hd
  cases d with
  | state h =>
    have hblank : p.state h = default := by
      apply Table.get_eq_default
      rw [← Option.not_isSome_iff_eq_none, Table.isSome_get?]
      exact fun hnode => hnot (Program.mem_properties (d := .state h) hnode ht)
    rw [ownScope?, hblank]
    rfl
  | function h =>
    have hblank : p.function h = default := by
      apply Table.get_eq_default
      rw [← Option.not_isSome_iff_eq_none, Table.isSome_get?]
      exact fun hnode => hnot (Program.mem_properties (d := .function h) hnode ht)
    rw [ownScope?, hblank]
    rfl
  | _ => simp [ownScope?] at ht

/-- From a reachable scope into the scopes behind it, the properties behind become fewer. -/
theorem Acyclic.countBehind_lt {s : ScopeId} (hs : p.Reachable s) {d : Decl}
    (hd : d ∈ p.declared s) {t : ScopeId} (ht : p.Enters (fun _ => False) d t) :
    p.countBehind (fun _ => False) t < p.countBehind (fun _ => False) s := by
  have hbehind : p.Behind (fun _ => False) globalScope d := ⟨s, hs, hd⟩
  have hproperty : d ∈ p.properties := by
    cases ht with
    | own ht => exact hp.mem_properties hbehind ht
    | block => exact hp.mem_properties hbehind rfl
  exact Program.countBehind_lt hd hproperty ht (hp d hbehind t ht)

end Acyclic

/-- In a program as a parser builds it, every scope comes before the scopes that it leads to. -/
theorem ParserShaped.acyclic (hp : p.ParserShaped) : p.Acyclic := by
  have hlt {s t : ScopeId} (h : p.Leads (fun _ => False) s t) : s.index < t.index := by
    obtain ⟨d, hd, ht⟩ := h
    cases ht with
    | own ht => exact hp.built.sound.parent _ _ (hp.parent_own hd ht)
    | block _ hb hc =>
      have hbetween := hp.index_lt_of_block hd hb hc
      omega
  have hle {s t : ScopeId} (h : p.Reaches (fun _ => False) s t) : s.index ≤ t.index := by
    induction h with
    | refl => exact Nat.le_refl _
    | tail _ hstep ih =>
      have hstep := hlt hstep
      omega
  rintro d ⟨s, -, hd⟩ t ht ⟨u, hu, hback⟩
  obtain rfl := hp.built.sound.once s u d (.inl hd) (.inl hback)
  have hst := hlt ⟨d, hd, ht⟩
  have hts := hle hu
  omega

end Program

/-- If no reachable property is found again inside itself, the check of a program gives up with an
internal error exactly when the program is broken, and finishes exactly when it is not. -/
theorem check_fails_iff_broken {p : Program} (hp : p.Acyclic) :
    ((∃ err, p.check = .halted (.broken err)) ↔ p.Broken) ∧
      ((∃ ds, p.check = .found ds) ↔ ¬ p.Broken) := by
  have hdepth : p.countBehind (fun _ => False) Program.globalScope < p.propertyCount + 1 :=
    Nat.lt_succ_of_le (p.countBehind_le _ _)
  have hcause {c : Halt} (hc : p.check.cause? = some c) : p.Broken ∧ ∃ err, c = .broken err :=
    (Program.exists_of_checkScopeUpTo (p.countBehind fun _ => False)
      (fun _ hs _ hd _ => hp.countBehind_lt hs hd) hdepth p.reachable_globalScope hc).elim
      Program.Leftover.broken Program.Misgrouped.broken
  have hfinishes (h : p.check.cause? = none) : ¬ p.Broken := by
    intro hbroken
    obtain ⟨c, hleftover | hmisgrouped⟩ := hbroken.exists_cause
    · exact Program.not_leftover_of_check h c hleftover
    · exact Program.not_misgrouped_of_check h c hmisgrouped
  rw [← Findings.cause?_eq_none_iff]
  simp only [← Findings.cause?_eq_some_iff]
  cases hc : p.check.cause? with
  | none => simpa using hfinishes hc
  | some c =>
    obtain ⟨hbroken, err, rfl⟩ := hcause hc
    simpa using hbroken

/-- A state with a value that does not fit, and a variable whose pattern is still a name. -/
def halfResolved : Program :=
  .build [.declareState Program.globalScope "a" .int [] (some (.literal (.string "x") .dummy)),
    .var Program.globalScope ⟨"z", .unresolved ⟨"int", .dummy⟩, .dummy⟩]

/-- The report on the state does not keep the check from giving up at the variable. -/
theorem check_fails_iff_broken_halfResolved :
    halfResolved.Acyclic ∧
    (∃ d, halfResolved.checkDecl (halfResolved.checkScopeUpTo 1) (.state ⟨0⟩) = .found [d]) ∧
    halfResolved.Broken ∧ ∃ err, halfResolved.check = .halted (.broken err) := by
  have hshaped : halfResolved.ParserShaped := ⟨by decide +kernel, _, by decide +kernel, rfl⟩
  have hbroken : halfResolved.Broken :=
    .pattern (d := .var ⟨0⟩) (Program.reachable_globalScope _) (by decide +kernel)
      (by decide +kernel)
  have hreport : ∃ d ∈ [Problem.reportAt (.stateValue "a") .dummy],
      halfResolved.checkDecl (halfResolved.checkScopeUpTo 1) (.state ⟨0⟩) = .found [d] := by
    decide +kernel
  obtain ⟨d, -, hd⟩ := hreport
  exact ⟨hshaped.acyclic, ⟨d, hd⟩, hbroken, (check_fails_iff_broken hshaped.acyclic).1.mpr hbroken⟩

end EntityLang
