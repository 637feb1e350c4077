import EntityLang.Proofs.Renaming.Expr

/-!
# Renaming and resolving expressions

Resolving an expression commutes with a renaming. Names are looked up alike, an overload is accepted
in the one program exactly when it is accepted in the other, and the reports are the same to the
letter.
-/

namespace EntityLang

/-- Two computations give related values and the same reports. -/
def Reported.Related {α β : Type} (R : α → β → Prop) (x : Reported α) (y : Reported β) : Prop :=
  R x.value y.value ∧ y.reports = x.reports

namespace Reported

variable {α α' β β' : Type} {R : α → α' → Prop} {S : β → β' → Prop}

/-- Related values without reports are related. -/
theorem related_pure {a : α} {a' : α'} (h : R a a') :
    Related R (pure a : Reported α) (pure a' : Reported α') :=
  ⟨h, rfl⟩

/-- Computations in turn are related one by one. -/
theorem Related.bind {x : Reported α} {y : Reported α'} (h : Related R x y)
    {f : α → Reported β} {g : α' → Reported β'} (hf : ∀ a a', R a a' → Related S (f a) (g a')) :
    Related S (x >>= f) (y >>= g) := by
  obtain ⟨hvalue, hreports⟩ := hf x.value y.value h.1
  refine ⟨hvalue, ?_⟩
  rw [reports_bind, reports_bind, h.2, hreports]

/-- Related values with the same report are related. -/
theorem related_failure {a : α} {a' : α'} (h : R a a') (problem : Problem) (span : Span) :
    Related R (failure a problem span) (failure a' problem span) :=
  ⟨h, rfl⟩

end Reported

section

variable (ρ : Renaming) (hint : Option Pattern)

/-- The hint for an operand is renamed with the hint. -/
theorem UnaryOp.operandHint_rename (op : UnaryOp) :
    op.operandHint (hint.map (Pattern.rename ρ)) =
      (op.operandHint hint).map (Pattern.rename ρ) := by
  cases op <;> simp [UnaryOp.operandHint]

/-- The hint for a left operand is renamed with the hint. -/
theorem BinaryOp.leftHint_rename (op : BinaryOp) :
    op.leftHint (hint.map (Pattern.rename ρ)) = (op.leftHint hint).map (Pattern.rename ρ) := by
  cases op <;> simp [BinaryOp.leftHint, BinaryOp.isArithmetic, BinaryOp.isLogical]

/-- The hint for a right operand is renamed with the hint and the pattern on the left. -/
theorem BinaryOp.rightHint_rename (op : BinaryOp) (left : Pattern) :
    op.rightHint (hint.map (Pattern.rename ρ)) (left.rename ρ) =
      (op.rightHint hint left).map (Pattern.rename ρ) := by
  cases op <;> simp [BinaryOp.rightHint, BinaryOp.isArithmetic, BinaryOp.isLogical]

end

/-- The functions among renamed declarations are the renamed functions. -/
theorem filterMap_function?_rename (ρ : Renaming) (ds : List Decl) :
    (ds.map (Decl.rename ρ)).filterMap Decl.function? =
      (ds.filterMap Decl.function?).map ρ.handle := by
  rw [List.filterMap_map, List.map_filterMap]
  congr 1
  exact funext fun d => d.function?_rename ρ

/-- What means nothing is reported alike. -/
theorem Program.poison_related {ρ : Renaming} {n : Nat} (problem : Problem) (span : Span) :
    Reported.Related (Expr.Renames ρ n) (poison problem span) (poison problem span) :=
  ⟨.invalid span, rfl⟩

namespace Program.Renames

variable {ρ : Renaming} {n : Nat} {p q : Program} (hp : p.Renames ρ n q)
include hp

/-! ### Names -/

/-- The values that an enum has exist. -/
theorem enumValueNamed_lt {e : EnumId} {identity : String} {v : EnumValueId}
    (hv : p.enumValueNamed e identity = some v) : v.index < n :=
  (hp.enum_eq e).2 v (List.mem_of_find?_eq_some hv)

/-- The enum values in reach are below the bound. -/
theorem enumValuesInReach_lt {s : ScopeId} {identity : String} {v : EnumValueId}
    (hv : v ∈ p.enumValuesInReach s identity) : v.index < n := by
  obtain ⟨e, -, he⟩ := List.mem_filterMap.mp hv
  exact hp.enumValueNamed_lt he

/-- The value that a hint selects is the same in both programs, and it exists. -/
theorem hintedValue_eq (hint : Option Pattern) (identity : String) :
    q.hintedValue (hint.map (Pattern.rename ρ)) identity =
        (p.hintedValue hint identity).map ρ.handle ∧
      ∀ v ∈ p.hintedValue hint identity, v.index < n := by
  have henum : (hint.map (Pattern.rename ρ)).bind Pattern.enum? =
      (hint.bind Pattern.enum?).map ρ.handle := by
    cases hint <;> simp
  rw [hintedValue, hintedValue, henum]
  cases hint.bind Pattern.enum? with
  | none => exact ⟨rfl, by simp⟩
  | some e => exact ⟨hp.enumValueNamed_eq e identity, fun v hv => hp.enumValueNamed_lt hv⟩

/-- A bare name is resolved to related expressions, with the same reports. -/
theorem resolveName_related (s : ScopeId) (hint : Option Pattern) (identity : String)
    (span : Span) :
    Reported.Related (Expr.Renames ρ n) (p.resolveName s hint identity span)
      (q.resolveName (ρ.handle s) (hint.map (Pattern.rename ρ)) identity span) := by
  obtain ⟨hhinted, hlt⟩ := hp.hintedValue_eq hint identity
  rw [resolveName, resolveName, hp.fetch_eq, hhinted]
  cases hvalue : p.hintedValue hint identity with
  | some v =>
    have hv : (Expr.enumValue v span).Renames ρ n (.enumValue (ρ.handle v) span) :=
      .enumValue (hlt v hvalue) span
    cases p.fetch s identity with
    | none => exact Reported.related_pure hv
    | some b =>
      cases b with
      | decl d =>
        cases d with
        | var h => exact Reported.related_pure (.var h span)
        | _ => exact Reported.related_pure hv
      | overloaded own members => exact Reported.related_pure hv
  | none =>
    cases p.fetch s identity with
    | some b =>
      cases b with
      | decl d =>
        cases d with
        | var h => exact Reported.related_pure (.var h span)
        | _ => exact poison_related _ span
      | overloaded own members => exact poison_related _ span
    | none =>
      simp only [Option.map_none, hp.enumValuesInReach_eq]
      cases hvalues : p.enumValuesInReach s identity with
      | nil => exact poison_related _ span
      | cons v rest =>
        cases rest with
        | nil =>
          have hv : v ∈ p.enumValuesInReach s identity := hvalues ▸ List.mem_singleton_self v
          exact Reported.related_pure (.enumValue (hp.enumValuesInReach_lt hv) span)
        | cons w rest =>
          simp only [List.map_cons, List.length_cons, List.length_map]
          exact poison_related _ span

/-- A qualifier in front of a name is the renamed enum, under the same name. -/
theorem qualifier?_eq (s : ScopeId) {e e' : Expr} (he : e.Renames ρ n e') :
    q.qualifier? (ρ.handle s) e' = (p.qualifier? s e).map fun (name, k) => (name, ρ.handle k) := by
  cases he with
  | unresolved name span =>
    rw [qualifier?, qualifier?, hp.fetch_eq]
    cases p.fetch s name.identity with
    | none => rfl
    | some b =>
      cases b with
      | decl d => cases d <;> rfl
      | overloaded own members => rfl
  | _ => rfl

/-- A qualified value is resolved to related expressions, with the same reports. -/
theorem resolveQualified_related (enumName : String) (e : EnumId) (identity : String)
    (span : Span) :
    Reported.Related (Expr.Renames ρ n) (p.resolveQualified enumName e identity span)
      (q.resolveQualified enumName (ρ.handle e) identity span) := by
  rw [resolveQualified, resolveQualified, hp.enumValueNamed_eq]
  cases hv : p.enumValueNamed e identity with
  | none => exact poison_related _ span
  | some v => exact Reported.related_pure (.enumValue (hp.enumValueNamed_lt hv) span)

/-! ### Properties and calls -/

/-- The name of a property is resolved to related expressions, with the same reports. -/
theorem resolveProperty_related (s : ScopeId) {subject subject' : Expr}
    (hs : subject.Renames ρ n subject') (identity : String) (span : Span) :
    Reported.Related (Expr.Renames ρ n) (p.resolveProperty s subject identity span)
      (q.resolveProperty (ρ.handle s) subject' identity span) := by
  have hparameters (k : FunctionId) : (q.function (ρ.handle k)).parameters.isEmpty =
      (p.function k).parameters.isEmpty := by
    rw [(hp.function_renames k).parameters, List.isEmpty_map]
  rw [resolveProperty, resolveProperty, hp.fetchProperty_eq, hp.fetch_eq]
  cases p.fetchProperty s identity with
  | nil =>
    cases p.fetch s identity with
    | none => exact poison_related _ span
    | some other =>
      simp only [Option.map_some, Binding.kind_rename, List.map_nil]
      exact poison_related _ span
  | cons d ds =>
    have hstate : ((d :: ds).map (Decl.rename ρ)).findSome? Decl.state? =
        ((d :: ds).findSome? Decl.state?).map ρ.handle := by
      rw [List.findSome?_map, List.map_findSome?]
      congr 1
      exact funext fun d => d.state?_rename ρ
    have hbare : (((d :: ds).map (Decl.rename ρ)).filterMap Decl.function?).find?
          (fun k => (q.function k).parameters.isEmpty) =
        (((d :: ds).filterMap Decl.function?).find?
          fun k => (p.function k).parameters.isEmpty).map ρ.handle := by
      rw [filterMap_function?_rename, List.find?_map]
      congr 2
      exact funext hparameters
    rw [List.map_cons] at hstate hbare ⊢
    simp only [hstate, hbare]
    cases (d :: ds).findSome? Decl.state? with
    | some k => exact Reported.related_pure (.property hs)
    | none =>
      cases ((d :: ds).filterMap Decl.function?).find?
          fun k => (p.function k).parameters.isEmpty with
      | some k => exact Reported.related_pure (.property hs)
      | none => exact poison_related _ span

/-- Renamed parameters accept related arguments exactly if the parameters accept the arguments. -/
theorem acceptedBy_eq {args args' : List Expr} (h : Expr.RenamesAll ρ n args args')
    (vs : List VarId) : Expr.acceptedBy q args' (vs.map ρ.handle) = Expr.acceptedBy p args vs := by
  induction args generalizing args' vs with
  | nil =>
    cases h
    cases vs <;> rfl
  | cons e rest ih =>
    cases h with
    | cons he hrest =>
      cases vs with
      | nil => rfl
      | cons v vs =>
        rw [List.map_cons, Expr.acceptedBy, Expr.acceptedBy, he.pattern_eq hp, hp.varPattern_eq,
          Pattern.fits_rename, ih hrest]

/-- Arguments that are read under the patterns of the parameters stay related. -/
theorem coerceArguments_renames {args args' : List Expr} (h : Expr.RenamesAll ρ n args args')
    (vs : List VarId) :
    Expr.RenamesAll ρ n (p.coerceArguments args vs)
      (q.coerceArguments args' (vs.map ρ.handle)) := by
  induction args generalizing args' vs with
  | nil =>
    cases h
    cases vs <;> exact .nil
  | cons e rest ih =>
    cases h with
    | cons he hrest =>
      cases vs with
      | nil => exact .cons he hrest
      | cons v vs =>
        rw [List.map_cons, coerceArguments, coerceArguments, hp.varPattern_eq]
        exact .cons (he.coerce _) (ih hrest vs)

/-- A function accepts arguments exactly when it accepts them under new handles, and takes them
alike. -/
theorem acceptArguments_cases {args args' : List Expr} (h : Expr.RenamesAll ρ n args args')
    (k : FunctionId) :
    (p.acceptArguments args k = none ∧ q.acceptArguments args' (ρ.handle k) = none) ∨
      ∃ taken taken', p.acceptArguments args k = some (k, taken) ∧
        q.acceptArguments args' (ρ.handle k) = some (ρ.handle k, taken') ∧
        Expr.RenamesAll ρ n taken taken' := by
  have hcoerced := hp.coerceArguments_renames h (p.function k).parameters
  rw [acceptArguments, acceptArguments, (hp.function_renames k).parameters,
    hp.acceptedBy_eq hcoerced]
  cases Expr.acceptedBy p _ (p.function k).parameters with
  | false => exact .inl ⟨rfl, rfl⟩
  | true => exact .inr ⟨_, _, rfl, rfl, hcoerced⟩

/-- The same overload is the first to accept arguments. -/
theorem firstAccepting_cases {args args' : List Expr} (h : Expr.RenamesAll ρ n args args')
    (ks : List FunctionId) :
    (ks.findSome? (p.acceptArguments args) = none ∧
        (ks.map ρ.handle).findSome? (q.acceptArguments args') = none) ∨
      ∃ k taken taken', ks.findSome? (p.acceptArguments args) = some (k, taken) ∧
        (ks.map ρ.handle).findSome? (q.acceptArguments args') = some (ρ.handle k, taken') ∧
        Expr.RenamesAll ρ n taken taken' := by
  induction ks with
  | nil => exact .inl ⟨rfl, rfl⟩
  | cons k rest ih =>
    rw [List.map_cons, List.findSome?_cons, List.findSome?_cons]
    obtain ⟨hleft, hright⟩ | ⟨taken, taken', hleft, hright, htaken⟩ :=
      hp.acceptArguments_cases h k <;> rw [hleft, hright]
    · exact ih
    · exact .inr ⟨k, taken, taken', rfl, rfl, htaken⟩

/-- A call is resolved to related expressions, with the same reports. -/
theorem resolveCall_related (s : ScopeId) (identity : String) {args args' : List Expr}
    (hargs : Expr.RenamesAll ρ n args args') (span : Span) :
    Reported.Related (Expr.Renames ρ n) (p.resolveCall s identity args span)
      (q.resolveCall (ρ.handle s) identity args' span) := by
  rw [resolveCall, resolveCall, hp.fetchOverloads_eq]
  cases p.fetchOverloads s identity with
  | nil => exact poison_related _ span
  | cons d ds =>
    have hfunctions := filterMap_function?_rename ρ (d :: ds)
    rw [List.map_cons] at hfunctions ⊢
    simp only [hfunctions, Decl.kind_rename, hargs.length_eq]
    cases (d :: ds).filterMap Decl.function? with
    | nil => exact poison_related _ span
    | cons k ks =>
      have hfirst := hp.firstAccepting_cases hargs (k :: ks)
      rw [List.map_cons] at hfirst ⊢
      obtain ⟨hleft, hright⟩ | ⟨f, taken, taken', hleft, hright, htaken⟩ := hfirst <;>
        simp only [hleft, hright]
      · exact poison_related _ span
      · exact Reported.related_pure (.call htaken)

end Program.Renames

section Resolve

variable {ρ : Renaming} {n : Nat} {p q : Program}

namespace Expr

mutual

/-- Resolving commutes with renaming, and the reports are the same. -/
theorem Renames.resolve (hp : p.Renames ρ n q) (s : ScopeId) (hint : Option Pattern) :
    {e e' : Expr} → e.Renames ρ n e' →
    Reported.Related (Renames ρ n) (e.resolve p s hint)
      (e'.resolve q (ρ.handle s) (hint.map (Pattern.rename ρ)))
  | _, _, .unresolved name span => by
    rw [Expr.resolve, Expr.resolve]
    exact hp.resolveName_related s hint name.identity span
  | _, _, .var h span => Reported.related_pure (.var h span)
  | _, _, .enumValue hv span => Reported.related_pure (.enumValue hv span)
  | _, _, .literal value span => by
    rw [Expr.resolve, Expr.resolve, Literal.coerce_rename]
    exact Reported.related_pure (.literal _ span)
  | _, _, .list h => by
    rw [Expr.resolve, Expr.resolve]
    exact (h.resolve hp s).bind fun _ _ h => Reported.related_pure (.list h)
  | _, _, .instances h => by
    rw [Expr.resolve, Expr.resolve]
    exact (h.resolve hp s).bind fun _ _ h => Reported.related_pure (.instances h)
  | .unary op _ _, .unary _ _ _, .unary h => by
    rw [Expr.resolve, Expr.resolve, op.operandHint_rename ρ hint]
    exact (h.resolve hp s _).bind fun _ _ h => Reported.related_pure (.unary h)
  | .binary op _ _ _, .binary _ _ _ _, .binary hl hr => by
    rw [Expr.resolve, Expr.resolve, op.leftHint_rename ρ hint]
    refine (hl.resolve hp s _).bind fun lhs lhs' hl => ?_
    rw [hl.pattern_eq hp, op.rightHint_rename ρ hint]
    exact (hr.resolve hp s _).bind fun _ _ hr => Reported.related_pure (.binary hl hr)
  | .property subject target span, .property subject' _ _, .property h => by
    have hbound (bound : PropertyRef) := (h.resolve hp s none).bind fun _ _ h =>
      Reported.related_pure (@Renames.property ρ n _ _ bound span h)
    cases target with
    | unresolved name =>
      rw [PropertyRef.rename, Expr.resolve, Expr.resolve]
      simp only [hp.qualifier?_eq s h]
      cases p.qualifier? s subject with
      | some qualifier => exact hp.resolveQualified_related _ _ _ _
      | none =>
        exact (h.resolve hp s none).bind fun _ _ h => hp.resolveProperty_related s h name.identity span
    | state k => exact hbound (.state k)
    | function k => exact hbound (.function k)
  | _, _, .select hs hr => by
    rw [Expr.resolve, Expr.resolve]
    refine (hs.resolve hp s none).bind fun subject subject' hs => ?_
    rw [hs.pattern_eq hp]
    exact (hr.resolve hp s (some _) hint).bind fun _ _ hr => Reported.related_pure (.select hs hr)
  | .call callee _ span, .call _ _ _, .call h => by
    rw [Expr.resolve, Expr.resolve]
    refine (h.resolve hp s).bind fun args args' hargs => ?_
    cases callee with
    | unresolved name => exact hp.resolveCall_related s name.identity hargs span
    | function k => exact Reported.related_pure (.call hargs)
  | _, _, .cond hr ho => by
    rw [Expr.resolve, Expr.resolve]
    have hrules := hr.resolve hp s (some .bool) hint
    rw [Option.map_some, Pattern.rename_bool] at hrules
    exact hrules.bind fun _ _ hr => (ho.resolve hp s hint).bind fun _ _ ho =>
      Reported.related_pure (.cond hr ho)
  | _, _, .index hs hi => by
    rw [Expr.resolve, Expr.resolve]
    have hposition := hi.resolve hp s (some .int)
    rw [Option.map_some, Pattern.rename_int] at hposition
    exact (hs.resolve hp s none).bind fun _ _ hs => hposition.bind fun _ _ hi =>
      Reported.related_pure (.index hs hi)
  | _, _, .invalid span => Reported.related_pure (.invalid span)

/-- Lists of related expressions are resolved to related lists, with the same reports. -/
theorem RenamesAll.resolve (hp : p.Renames ρ n q) (s : ScopeId) :
    {es es' : List Expr} → RenamesAll ρ n es es' →
    Reported.Related (RenamesAll ρ n) (resolveAll p s es) (resolveAll q (ρ.handle s) es')
  | _, _, .nil => Reported.related_pure .nil
  | _, _, .cons he hrest => by
    rw [resolveAll, resolveAll]
    exact (he.resolve hp s none).bind fun _ _ he => (hrest.resolve hp s).bind fun _ _ hrest =>
      Reported.related_pure (.cons he hrest)

/-- Related rules are resolved to related rules, with the same reports. -/
theorem RenamesRules.resolve (hp : p.Renames ρ n q) (s : ScopeId)
    (head result : Option Pattern) : {rules rules' : List (Rule Expr)} →
    RenamesRules ρ n rules rules' →
    Reported.Related (RenamesRules ρ n) (resolveRules p s head result rules)
      (resolveRules q (ρ.handle s) (head.map (Pattern.rename ρ)) (result.map (Pattern.rename ρ))
        rules')
  | _, _, .nil => Reported.related_pure .nil
  | _, _, .cons hh hr hrest => by
    rw [resolveRules, resolveRules]
    exact (hh.resolve hp s head).bind fun _ _ hh => (hr.resolve hp s result).bind fun _ _ hr =>
      (hrest.resolve hp s head result).bind fun _ _ hrest =>
        Reported.related_pure (.cons hh hr hrest)

/-- Related expressions that may be absent are resolved alike, with the same reports. -/
theorem RenamesOption.resolve (hp : p.Renames ρ n q) (s : ScopeId) (hint : Option Pattern) :
    {o o' : Option Expr} → RenamesOption ρ n o o' →
    Reported.Related (RenamesOption ρ n) (resolveOption p s hint o)
      (resolveOption q (ρ.handle s) (hint.map (Pattern.rename ρ)) o')
  | _, _, .none => Reported.related_pure .none
  | _, _, .some h => by
    rw [resolveOption, resolveOption]
    exact (h.resolve hp s hint).bind fun _ _ h => Reported.related_pure (.some h)

end

end Expr

end Resolve

end EntityLang
