import EntityLang.Proofs.Program.Intact
import EntityLang.Proofs.Program.SymbolTable
import Mathlib.Data.Set.Card

/-!
# Values of enums under their bare names

A bare name may be a value of any enum whose own name stands for it. The search for such values goes
along the chain of a scope, through everything that is bound there, and looks up the name of each
enum that it meets. It finds one value for each enum that has a value of the name and is not hidden,
and none twice, because an enum is bound in one scope at most and its values are its own. So the
number of values that it finds is a number of enums.
-/

namespace EntityLang

/-- A pattern asks for an enum exactly if the enum is its core. -/
theorem Pattern.enum?_eq_some_iff {q : Pattern} {e : EnumId} :
    q.enum? = some e ↔ q.core = .enum e := by
  unfold Pattern.enum?
  split
  · rename_i h hcore
    simp [hcore]
  · rename_i hother
    exact iff_of_false (by simp) (hother e)

namespace Program

/-- The name of the enum stands for it when it is used in the scope. -/
def SeesEnum (p : Program) (s : ScopeId) (e : EnumId) : Prop :=
  p.fetch s (p.enum e).identity = some (.decl (.enum e))

/-- The value is the first one of the enum that has the name. -/
def FirstNamed (p : Program) (e : EnumId) (identity : String) (v : EnumValueId) : Prop :=
  (p.enumValue v).identity = identity ∧ ∃ before after,
    (p.enum e).values = before ++ v :: after ∧
      ∀ w ∈ before, (p.enumValue w).identity ≠ identity

/-- The enum has a value of the name. -/
def HasValue (p : Program) (e : EnumId) (identity : String) : Prop :=
  ∃ v ∈ (p.enum e).values, (p.enumValue v).identity = identity

/-- The enum can be seen from the scope and has a value of the name. -/
def Offers (p : Program) (s : ScopeId) (identity : String) (e : EnumId) : Prop :=
  p.SeesEnum s e ∧ p.HasValue e identity

/-- The hint asks for an enum that has a value of the name. -/
def AsksFor (p : Program) (hint : Option Pattern) (identity : String) : Prop :=
  ∃ q ∈ hint, ∃ e, q.core = .enum e ∧ p.HasValue e identity

section Lookup

variable {p : Program} {s : ScopeId} {e : EnumId} {identity : String} {v : EnumValueId}

/-- The test for visible enums decides whether the scope sees the enum. -/
theorem isVisibleEnum_iff : p.isVisibleEnum s e = true ↔ p.SeesEnum s e := by
  unfold isVisibleEnum SeesEnum
  split
  · rename_i d hfetch
    simp [hfetch]
  · rename_i hother
    refine iff_of_false (by simp) fun hfetch => ?_
    exact hother _ hfetch

/-- A search by name finds the first value of that name. -/
theorem enumValueNamed_eq_some_iff : p.enumValueNamed e identity = some v ↔
    p.FirstNamed e identity v := by
  simp [enumValueNamed, FirstNamed, List.find?_eq_some_iff_append]

/-- A search by name finds something exactly if there is a value of that name. -/
theorem isSome_enumValueNamed_iff : (p.enumValueNamed e identity).isSome = true ↔
    p.HasValue e identity := by
  simp [enumValueNamed, HasValue]

/-- A hint selects no value exactly if it asks for no enum that has one. -/
theorem hintedValue_eq_none_iff {hint : Option Pattern} :
    p.hintedValue hint identity = none ↔ ¬ p.AsksFor hint identity := by
  simp only [hintedValue, AsksFor, ← Pattern.enum?_eq_some_iff, ← isSome_enumValueNamed_iff]
  cases hint with
  | none => simp
  | some q =>
    cases hq : q.enum? with
    | none => simp [hq]
    | some e => simp [hq]

/-- An enum that can be seen is bound in a scope of the chain. -/
theorem SeesEnum.mem_enumsIn (h : p.SeesEnum s e) : e ∈ (p.chain s).flatMap p.enumsIn := by
  obtain ⟨t, ht, hbound⟩ := List.exists_of_findSome?_eq_some h
  refine List.mem_flatMap.mpr ⟨t, ht, List.mem_filterMap.mpr ⟨.decl (.enum e), ?_, rfl⟩⟩
  exact (Scope.mem_bindings_values_iff _ _).mpr ⟨_, hbound⟩

/-- The search finds the first values of the name of all enums that can be seen. -/
theorem mem_enumValuesInReach_iff : v ∈ p.enumValuesInReach s identity ↔
    ∃ e, p.SeesEnum s e ∧ p.FirstNamed e identity v := by
  simp only [enumValuesInReach, List.mem_filterMap, List.mem_filter, isVisibleEnum_iff,
    enumValueNamed_eq_some_iff]
  constructor
  · rintro ⟨e, ⟨-, hsees⟩, hfirst⟩
    exact ⟨e, hsees, hfirst⟩
  · rintro ⟨e, hsees, hfirst⟩
    exact ⟨e, ⟨hsees.mem_enumsIn, hsees⟩, hfirst⟩

end Lookup

section Built

/-- Parameters are no enums. -/
theorem enums_addVars (p : Program) (s : ScopeId) (parameters : List (String × Pattern)) :
    (p.addVars s parameters).2.enums = p.enums ∧
      (p.addVars s parameters).2.enumValues = p.enumValues := by
  induction parameters generalizing p with
  | nil => exact ⟨rfl, rfl⟩
  | cons parameter rest ih => exact ih (p.addVar s ⟨parameter.1, parameter.2, .dummy⟩).2

/-- Without new enums all values stay with their enums. -/
theorem OwnsValues.congr {p q : Program} (hp : p.OwnsValues)
    (h : q.enums = p.enums ∧ q.enumValues = p.enumValues) : q.OwnsValues := by
  unfold OwnsValues enum enumValue
  rw [h.1, h.2]
  exact hp

/-- In every program that is built the values of an enum are its own. -/
theorem Built.ownsValues {p : Program} (hp : p.Built) : p.OwnsValues := by
  refine hp.induction intact_fresh.ownsValues fun q call hq _ => ?_
  cases call with
  | enum s identity values span => exact hq.addEnum s identity values span
  | declareState s identity pattern parameters initialValue =>
    exact hq.congr (enums_addVars (q.addScope (some s)).2 q.scopes.next parameters)
  | declareFunction s identity pattern parameters =>
    exact hq.congr (enums_addVars (q.addScope (some s)).2 q.scopes.next parameters)
  | _ => exact hq

/-- Along a chain the scopes were made earlier and earlier. -/
theorem Sound.pairwise_chainUpTo {p : Program} (hp : p.Sound) (bound : Nat) (s : ScopeId) :
    (p.chainUpTo bound s).Pairwise (fun t u => u.index < t.index) ∧
      ∀ t ∈ p.chainUpTo bound s, t.index ≤ s.index := by
  -- The bound on the whole chain is what the induction hands on to the scopes inside.
  induction bound generalizing s with
  | zero => simp [chainUpTo]
  | succ bound ih =>
    rw [chainUpTo]
    cases hparent : (p.scope s).parent with
    | none => simp
    | some u =>
      obtain ⟨hpairwise, hle⟩ := ih u
      have hlt := hp.parent s u hparent
      have hbelow (t : ScopeId) (ht : t ∈ p.chainUpTo bound u) : t.index < s.index :=
        Nat.lt_of_le_of_lt (hle t ht) hlt
      refine ⟨List.pairwise_cons.mpr ⟨hbelow, hpairwise⟩, fun t ht => ?_⟩
      rcases List.mem_cons.mp ht with rfl | ht
      · exact Nat.le_refl _
      · exact Nat.le_of_lt (hbelow t ht)

/-- The enums bound in a scope are some of the declarations there, in order. -/
theorem map_enumsIn_sublist (p : Program) (t : ScopeId) :
    ((p.enumsIn t).map Decl.enum).Sublist (p.declared t) := by
  unfold enumsIn declared
  induction (p.scope t).bindings.values with
  | nil => simp
  | cons b rest ih =>
    rw [List.filterMap_cons, List.flatMap_cons]
    split
    · exact ih.trans (List.sublist_append_right _ _)
    · rename_i e he
      split at he
      · obtain rfl := Option.some.inj he
        exact ih.cons_cons _
      · simp at he

/-- No enum is met twice along a chain. -/
theorem Built.nodup_enumsIn {p : Program} (hp : p.Built) (s : ScopeId) :
    ((p.chain s).flatMap p.enumsIn).Nodup := by
  have hsound := hp.sound
  obtain ⟨l, hmatches⟩ := hp.exists_matches
  rw [List.nodup_flatMap]
  constructor
  · intro t _
    exact ((hmatches.nodup_declared t).sublist (map_enumsIn_sublist _ t)).of_map
  · -- An enum that two scopes bind would be declared in both.
    refine (hsound.pairwise_chainUpTo _ s).1.imp fun {t u} hlt e ht hu => ?_
    have heq := hsound.once t u (.enum e) (.inl (mem_declared_of_mem_enumsIn ht))
      (.inl (mem_declared_of_mem_enumsIn hu))
    rw [heq] at hlt
    exact Nat.lt_irrefl _ hlt

end Built

section Count

variable {p : Program} (s : ScopeId) (identity : String)

/-- The enums of the values in reach are those enums met along the chain that can be seen and have a
value of the name. -/
theorem OwnsValues.map_owner (hp : p.OwnsValues) :
    (p.enumValuesInReach s identity).map (fun v => (p.enumValue v).owner) =
      (((p.chain s).flatMap p.enumsIn).filter (p.isVisibleEnum s)).filter
        fun e => (p.enumValueNamed e identity).isSome := by
  -- Going from an enum to its value and back to the owner keeps the enum, if it has a value.
  have howner (e : EnumId) : (p.enumValueNamed e identity).map (fun v => (p.enumValue v).owner) =
      Option.guard (fun e => (p.enumValueNamed e identity).isSome) e := by
    cases hvalue : p.enumValueNamed e identity with
    | none => simp [Option.guard, hvalue]
    | some v =>
      have hmem := mem_values_of_enumValueNamed hvalue
      simp [Option.guard, hvalue, (hp e v hmem).2]
  rw [enumValuesInReach, List.map_filterMap, funext howner, List.filterMap_eq_filter]

variable (hp : p.Built)
include hp

/-- No two values in reach belong to one enum. -/
theorem Built.nodup_map_owner :
    ((p.enumValuesInReach s identity).map fun v => (p.enumValue v).owner).Nodup := by
  rw [hp.ownsValues.map_owner]
  exact ((hp.nodup_enumsIn s).filter _).filter _

/-- The enums that the values in reach belong to are those that offer the name. -/
theorem Built.mem_map_owner_iff {e : EnumId} :
    e ∈ (p.enumValuesInReach s identity).map (fun v => (p.enumValue v).owner) ↔
      p.Offers s identity e := by
  rw [hp.ownsValues.map_owner, List.mem_filter, List.mem_filter, isVisibleEnum_iff,
    isSome_enumValueNamed_iff, Offers]
  exact ⟨fun h => ⟨h.1.2, h.2⟩, fun h => ⟨⟨h.1.mem_enumsIn, h.1⟩, h.2⟩⟩

/-- There are as many values in reach as there are enums that offer one. -/
theorem Built.ncard_offers :
    {e | p.Offers s identity e}.Finite ∧
      {e | p.Offers s identity e}.ncard = (p.enumValuesInReach s identity).length := by
  have hset : {e | p.Offers s identity e} =
      (((p.enumValuesInReach s identity).map fun v => (p.enumValue v).owner).toFinset : Set _) := by
    ext e
    rw [Set.mem_ofPred_eq, Finset.mem_coe, List.mem_toFinset, hp.mem_map_owner_iff]
  rw [hset, Set.ncard_coe_finset, List.toFinset_card_of_nodup (hp.nodup_map_owner s identity),
    List.length_map]
  exact ⟨Finset.finite_toSet _, rfl⟩

/-- One enum offers the name exactly if one value is in reach. -/
theorem Built.existsUnique_offers_iff :
    (∃! e, p.Offers s identity e) ↔ (p.enumValuesInReach s identity).length = 1 := by
  rw [← (hp.ncard_offers s identity).2, Set.ncard_eq_one]
  simp only [Set.eq_singleton_iff_unique_mem]
  rfl

/-- Several enums offer the name exactly if several values are in reach. -/
theorem Built.exists_ne_offers_iff :
    (∃ e e', e ≠ e' ∧ p.Offers s identity e ∧ p.Offers s identity e') ↔
      1 < (p.enumValuesInReach s identity).length := by
  obtain ⟨hfinite, hcount⟩ := hp.ncard_offers s identity
  rw [← hcount, Set.one_lt_ncard_iff hfinite]
  constructor
  · rintro ⟨e, e', hne, he, he'⟩
    exact ⟨e, e', he, he', hne⟩
  · rintro ⟨e, e', he, he', hne⟩
    exact ⟨e, e', hne, he, he'⟩

end Count

/-- A bare name that stands for nothing and that no hint asks for is read as the value in reach if
there is exactly one. -/
theorem resolveName_of_unbound (p : Program) {s : ScopeId} {hint : Option Pattern}
    {identity : String} (span : Span) (hfetch : p.fetch s identity = none)
    (hhint : ¬ p.AsksFor hint identity) :
    let values := p.enumValuesInReach s identity
    (∃ v, values = [v] ∧ p.resolveName s hint identity span = pure (.enumValue v span)) ∨
      (values = [] ∧ p.resolveName s hint identity span = poison (.unboundName identity) span) ∨
      (1 < values.length ∧ p.resolveName s hint identity span =
        poison (.ambiguousValue identity values.length) span) := by
  intro values
  have hhinted := hintedValue_eq_none_iff.mpr hhint
  cases hvalues : p.enumValuesInReach s identity with
  | nil => exact .inr (.inl ⟨hvalues, by simp [resolveName, hfetch, hhinted, hvalues]⟩)
  | cons v rest =>
    cases rest with
    | nil => exact .inl ⟨v, hvalues, by simp [resolveName, hfetch, hhinted, hvalues]⟩
    | cons w rest =>
      refine .inr (.inr ⟨by simp [values, hvalues], ?_⟩)
      simp [resolveName, hfetch, hhinted, hvalues, values]

/-- The search for values of a name finds, in every program that is built, the first value of the
name of each enum that can be seen from the scope, and finds none twice.

So a bare name that stands for nothing and that no hint asks for becomes a value exactly if a single
enum offers one, and then it is the first such value of that enum. It is reported as ambiguous
exactly if different enums offer values, and the message tells how many enums do. -/
theorem enum_values_once_each {p : Program} (hp : p.Built) (s : ScopeId) (identity : String) :
    (p.enumValuesInReach s identity).Nodup ∧
      (∀ v, v ∈ p.enumValuesInReach s identity ↔
        ∃ e, p.SeesEnum s e ∧ p.FirstNamed e identity v) ∧
      ∀ (hint : Option Pattern) (place span : Span), p.fetch s identity = none →
        ¬ p.AsksFor hint identity →
        let out := (Expr.unresolved ⟨identity, place⟩ span).resolve p s hint
        let count := {e | p.Offers s identity e}.ncard
        ((∃ v, out.value = .enumValue v span) ↔ ∃! e, p.Offers s identity e) ∧
        (∀ v, out.value = .enumValue v span →
          out.reports = [] ∧ ∃ e, p.SeesEnum s e ∧ p.FirstNamed e identity v) ∧
        ((∃ d ∈ out.reports, d.kind = .ambiguousIdentity) ↔
          ∃ e e', e ≠ e' ∧ p.Offers s identity e ∧ p.Offers s identity e') ∧
        ((∃ d ∈ out.reports, d.kind = .ambiguousIdentity) →
          out.value = .invalid span ∧ out.reports = [⟨.ambiguousIdentity,
            s!"`{identity}` is a value of {count} different enums; qualify it with the enum name.",
            span⟩]) := by
  refine ⟨(hp.nodup_map_owner s identity).of_map, fun v => mem_enumValuesInReach_iff, ?_⟩
  intro hint place span hfetch hhint out count
  rw [hp.existsUnique_offers_iff, hp.exists_ne_offers_iff]
  have hcount : count = (p.enumValuesInReach s identity).length := (hp.ncard_offers s identity).2
  obtain ⟨v, hvalues, heq⟩ | ⟨hvalues, heq⟩ | ⟨hlength, heq⟩ :=
    p.resolveName_of_unbound span hfetch hhint
  · have hout : out = ⟨.enumValue v span, []⟩ := heq
    have hv := mem_enumValuesInReach_iff.mp (hvalues ▸ List.mem_singleton_self v)
    simp [hout, hvalues, hv]
  · have hout : out = ⟨.invalid span, [(Problem.unboundName identity).reportAt span]⟩ := heq
    simp [hout, hvalues, Problem.reportAt, Problem.kind]
  · have hout : out = ⟨.invalid span, [(Problem.ambiguousValue identity count).reportAt span]⟩ := by
      rw [hcount]
      exact heq
    rw [hout]
    refine ⟨?_, ?_, ?_, fun _ => ⟨rfl, rfl⟩⟩
    · simp [Nat.ne_of_gt hlength]
    · simp
    · simp [hlength, Problem.reportAt, Problem.kind]

/-- An enum that names a value twice, one of the same name that is rejected, one that is hidden by a
variable in a scope inside, and one in that scope. All of them have a value `Red`. -/
def palette : Program :=
  .build [.enum globalScope "Color" [("Red", .dummy), ("Green", .dummy), ("Red", .dummy)] .dummy,
    .enum globalScope "Color" [("Red", .dummy)] .dummy,
    .enum globalScope "Shade" [("Red", .dummy)] .dummy,
    .scope (some globalScope),
    .var ⟨1⟩ ⟨"Shade", .int, .dummy⟩,
    .enum ⟨1⟩ "Light" [("Red", .dummy), ("Off", .dummy)] .dummy]

/-- From the scope inside, two of the four enums offer a value `Red`. -/
theorem enum_values_once_each_palette :
    palette.Built ∧ palette.fetch ⟨1⟩ "Red" = none ∧ ¬ palette.AsksFor none "Red" ∧
      palette.enumValuesInReach ⟨1⟩ "Red" = [⟨5⟩, ⟨0⟩] ∧
      (∃ e e', e ≠ e' ∧ palette.Offers ⟨1⟩ "Red" e ∧ palette.Offers ⟨1⟩ "Red" e') ∧
      ((Expr.unresolved ⟨"Red", .dummy⟩ .dummy).resolve palette ⟨1⟩ none).reports =
        [⟨.ambiguousIdentity,
          "`Red` is a value of 2 different enums; qualify it with the enum name.", .dummy⟩] := by
  have hbuilt : palette.Built := ⟨_, by decide +kernel, rfl⟩
  have hfetch : palette.fetch ⟨1⟩ "Red" = none :=
    Option.isNone_iff_eq_none.mp (by decide +kernel)
  have hhint : ¬ palette.AsksFor none "Red" := by simp [AsksFor]
  have hreports : ((Expr.unresolved ⟨"Red", .dummy⟩ .dummy).resolve palette ⟨1⟩ none).reports =
      [⟨.ambiguousIdentity,
        "`Red` is a value of 2 different enums; qualify it with the enum name.", .dummy⟩] := by
    decide +kernel
  obtain ⟨-, -, hresolve⟩ := enum_values_once_each hbuilt ⟨1⟩ "Red"
  obtain ⟨-, -, hambiguous, -⟩ := hresolve none .dummy .dummy hfetch hhint
  refine ⟨hbuilt, hfetch, hhint, by decide +kernel, hambiguous.mp ?_, hreports⟩
  rw [hreports]
  exact ⟨_, List.mem_singleton_self _, rfl⟩

end Program

end EntityLang
