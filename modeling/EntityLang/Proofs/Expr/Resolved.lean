import EntityLang.Proofs.Expr.Parts
import EntityLang.Proofs.Pattern.Order
import EntityLang.Proofs.Program.Declared
import EntityLang.Proofs.Program.FirstFit

/-!
# Resolved expressions

Whatever an expression was, resolving leaves no name in it, and every handle it puts there is one
that is visible from the scope or belongs to an enum that is. In general, an expression that refers
to nothing but what is known refers to nothing else once it is resolved, if what is known is closed
under the ways that lead on from it.

The first lemmas say once what each kind of name can become.
-/

namespace EntityLang

namespace Program

variable (p : Program) (s : ScopeId) (identity : String) (span : Span)

/-- A bare name becomes the variable that it stands for, the value with this name of the hinted enum
or of a visible one, or the invalid expression. -/
theorem resolveName_value (hint : Option Pattern) :
    (∃ h, p.fetch s identity = some (.decl (.var h)) ∧
        (p.resolveName s hint identity span).value = .var h span) ∨
      (∃ v e, (hint.bind Pattern.enum? = some e ∨ p.Visible s (.enum e)) ∧
        p.enumValueNamed e identity = some v ∧
          (p.resolveName s hint identity span).value = .enumValue v span) ∨
        (p.resolveName s hint identity span).value = .invalid span := by
  unfold resolveName
  split
  · rename_i h hfetch
    exact .inl ⟨h, hfetch, rfl⟩
  · split
    · rename_i v hvalue
      unfold hintedValue at hvalue
      split at hvalue
      · rename_i e he
        exact .inr (.inl ⟨v, e, .inl he, hvalue, rfl⟩)
      · simp at hvalue
    · split
      · exact .inr (.inr rfl)
      · split
        · rename_i v hreach
          obtain ⟨e, he, hv⟩ := exists_of_mem_enumValuesInReach (hreach ▸ List.mem_singleton_self v)
          exact .inr (.inl ⟨v, e, .inr he, hv, rfl⟩)
        · exact .inr (.inr rfl)
        · exact .inr (.inr rfl)

/-- A qualified value becomes the value with this name of the enum or the invalid expression. -/
theorem resolveQualified_value (enumName : String) (e : EnumId) :
    (∃ v, p.enumValueNamed e identity = some v ∧
        (p.resolveQualified enumName e identity span).value = .enumValue v span) ∨
      (p.resolveQualified enumName e identity span).value = .invalid span := by
  unfold resolveQualified
  split
  · rename_i v hvalue
    exact .inl ⟨v, hvalue, rfl⟩
  · exact .inr rfl

/-- An enum that qualifies a value is visible. -/
theorem visible_of_qualifier? {p : Program} {s : ScopeId} {subject : Expr} {enumName : String}
    {e : EnumId} (h : p.qualifier? s subject = some (enumName, e)) : p.Visible s (.enum e) := by
  unfold qualifier? at h
  split at h
  · split at h
    · rename_i hfetch
      obtain ⟨-, rfl⟩ := Prod.mk.inj (Option.some.inj h)
      exact visible_of_fetch hfetch (by simp [Binding.overloads])
    · simp at h
  · simp at h

/-- A property becomes a state or a function that the name stands for, or the invalid expression. -/
theorem resolveProperty_value (subject : Expr) :
    (∃ h, .state h ∈ p.fetchProperty s identity ∧
        (p.resolveProperty s subject identity span).value = .property subject (.state h) span) ∨
      (∃ h, .function h ∈ p.fetchProperty s identity ∧
        (p.resolveProperty s subject identity span).value = .property subject (.function h) span) ∨
        (p.resolveProperty s subject identity span).value = .invalid span := by
  unfold resolveProperty
  split
  · split <;> exact .inr (.inr rfl)
  · split
    · rename_i h hstate
      exact .inl ⟨h, Decl.mem_of_findSome?_state? hstate, rfl⟩
    · dsimp only
      split
      · rename_i h hfunction
        have hmem := List.mem_of_find?_eq_some hfunction
        exact .inr (.inl ⟨h, Decl.mem_filterMap_function?_iff.mp hmem, rfl⟩)
      · exact .inr (.inr rfl)

/-- A call becomes a call of a function that the name stands for, with its arguments read under the
patterns of the parameters, or the invalid expression. -/
theorem resolveCall_value (args : List Expr) :
    (∃ f, .function f ∈ p.fetchOverloads s identity ∧
        (p.resolveCall s identity args span).value =
          .call (.function f) (p.coerceArguments args (p.function f).parameters) span) ∨
      (p.resolveCall s identity args span).value = .invalid span := by
  obtain ⟨f, ⟨before, after, hsplit, -, -⟩, heq⟩ | ⟨-, d, -, -, heq⟩ :=
    p.resolveCall_cases s identity args span
  · have hf : f ∈ p.functionsNamed s identity := by simp [hsplit]
    exact .inl ⟨f, Decl.mem_filterMap_function?_iff.mp hf, by rw [heq]; rfl⟩
  · exact .inr (by rw [heq])

end Program

/-- Declarations, enums and enum values that may come up. -/
structure Known where
  decl : Decl → Prop
  enum : EnumId → Prop
  value : EnumValueId → Prop

/-- If the core of the pattern is an enum, it is known. -/
def Pattern.KnownIn (K : Known) (x : Pattern) : Prop := ∀ e ∈ x.enum?, K.enum e

/-- Everything that a part of the expression refers to is known. -/
def Expr.KnownIn (K : Known) (e : Expr) : Prop :=
  e.Everywhere fun x => (∀ d ∈ x.handle?, K.decl d) ∧ ∀ v ∈ x.enumValue?, K.value v

namespace Known

/-- If there is a hint, it is known. -/
def Hint (K : Known) (hint : Option Pattern) : Prop := ∀ x ∈ hint, x.KnownIn K

/-- What is seen from the scope is known, and what leads on from there. -/
structure Closed (K : Known) (p : Program) (s : ScopeId) : Prop where
  /-- Names stand for what is known. -/
  visible : ∀ d, p.Visible s d → K.decl d
  visibleEnum : ∀ e, p.Visible s (.enum e) → K.enum e
  /-- The enums that declared patterns ask for are known. -/
  pattern : ∀ d, K.decl d → (p.declPattern d).KnownIn K
  /-- An enum is known with its values, and a value with its enum. -/
  values : ∀ e, K.enum e → ∀ v ∈ (p.enum e).values, K.value v
  owner : ∀ v, K.value v → K.enum (p.enumValue v).owner

/-- Some declarations, and all enums with their values. -/
def ofDecls (A : Decl → Prop) : Known := ⟨A, fun _ => True, fun _ => True⟩

/-- Where all enums are known, the scope has to see nothing but known declarations. -/
theorem closed_ofDecls {A : Decl → Prop} {p : Program} {s : ScopeId}
    (h : ∀ d, p.Visible s d → A d) : (ofDecls A).Closed p s :=
  ⟨h, fun _ _ => trivial, fun _ _ _ _ => trivial, fun _ _ _ _ => trivial, fun _ _ => trivial⟩

/-- Where all enums are known, only the handles of declarations count. -/
theorem knownIn_ofDecls {A : Decl → Prop} {e : Expr} : e.KnownIn (ofDecls A) ↔ e.HandlesIn A :=
  ⟨fun h x hx => (h x hx).1, fun h x hx => ⟨h x hx, fun _ _ => trivial⟩⟩

/-- Where all enums are known, so is every hint. -/
theorem hint_ofDecls (A : Decl → Prop) (hint : Option Pattern) : (ofDecls A).Hint hint :=
  fun _ _ _ _ => trivial

section Hints

variable {K : Known}

/-- A native type is known, since it is no enum. -/
theorem native_hint (h : NativeId) : K.Hint (some (.native h)) := by
  simp [Hint, Pattern.KnownIn, Pattern.enum?, Pattern.core]

/-- No hint is a known hint. -/
theorem no_hint : K.Hint none := by simp [Hint]

/-- The hint for an operand is known if the hint for the whole is. -/
theorem Hint.operand {hint : Option Pattern} (h : K.Hint hint) (op : UnaryOp) :
    K.Hint (op.operandHint hint) := by
  cases op with
  | not => exact native_hint _
  | negate => exact h

/-- The hint for a left operand is known if the hint for the whole is. -/
theorem Hint.left {hint : Option Pattern} (h : K.Hint hint) (op : BinaryOp) :
    K.Hint (op.leftHint hint) := by
  unfold BinaryOp.leftHint
  split
  · exact h
  · split
    · exact native_hint _
    · exact no_hint

/-- The hint for a right operand is known if the hint for the whole and the left pattern are. -/
theorem Hint.right {hint : Option Pattern} (h : K.Hint hint) (op : BinaryOp) {left : Pattern}
    (hleft : left.KnownIn K) : K.Hint (op.rightHint hint left) := by
  unfold BinaryOp.rightHint
  split
  · exact h
  · split
    · exact native_hint _
    · rintro x ⟨⟩
      exact hleft

end Hints

end Known

namespace Expr

/-- The core of an inferred pattern is invalid, or comes from a literal, from a declaration that a
part of the expression refers to, or from the enum of a value in it. -/
theorem pattern_induction {C : Pattern → Prop} (hcore : ∀ {x y}, x.core = y.core → C x → C y)
    (p : Program) {e : Expr} (invalid : C .invalid) (literal : ∀ value : Literal, C value.pattern)
    (decl : ∀ x ∈ e.subexprs, ∀ d ∈ x.handle?, C (p.declPattern d))
    (value : ∀ x ∈ e.subexprs, ∀ v ∈ x.enumValue?, C (.enum (p.enumValue v).owner)) :
    C (e.pattern p) := by
  induction e using induction_children with
  | node e ih =>
    have hparts {x : Expr} (hx : x ∈ e.children) {y : Expr} (hy : y ∈ x.subexprs) :
        y ∈ e.subexprs := by
      rw [subexprs_eq e]
      exact List.mem_cons_of_mem _ (List.mem_flatMap.mpr ⟨x, hx, hy⟩)
    have child {x : Expr} (hx : x ∈ e.children) : C (x.pattern p) :=
      ih x hx (fun y hy => decl y (hparts hx hy)) fun y hy => value y (hparts hx hy)
    have hself : e ∈ e.subexprs := subexprs_eq e ▸ List.mem_cons_self
    have handle {d : Decl} (hd : e.handle? = some d) : C (p.declPattern d) := decl e hself d hd
    have hbool : C .bool := literal (.bool true)
    have hresults (rules : List (Rule Expr)) (hrules : ∀ r ∈ rules, r.result ∈ e.children) :
        ∀ x ∈ resultPatterns p rules, C x := by
      rw [resultPatterns_eq_map, List.forall_mem_map]
      exact fun r hr => child (hrules r hr)
    have hunify {xs : List Pattern} (hxs : ∀ x ∈ xs, C x) {c : Pattern}
        (hc : Pattern.unifyAll xs = some c) : C c := by
      obtain ⟨x, hx, hxc⟩ := Pattern.core_of_unifyAll hc
      exact hcore hxc.symm (hxs x hx)
    cases e with
    | var h span => exact handle rfl
    | enumValue v span => exact value _ hself v rfl
    | literal x span => exact literal x
    | unary op operand span =>
      cases op with
      | not => exact hbool
      | negate => exact child (x := operand) (by simp [children])
    | binary op lhs rhs span =>
      rw [Expr.pattern]
      split
      · exact child (x := lhs) (by simp [children])
      · exact hbool
    | property subject target span =>
      cases target with
      | unresolved name => exact invalid
      | state h => exact handle rfl
      | function h => exact handle rfl
    | select subject rules span =>
      have hr := hresults rules fun r hr => List.mem_cons_of_mem _ (result_mem_rules hr)
      rw [Expr.pattern]
      cases hunified : Pattern.unifyAll (resultPatterns p rules) with
      | none => exact invalid
      | some x => exact hunify hr hunified
    | call callee args span =>
      cases callee with
      | unresolved name => exact invalid
      | function f => exact handle rfl
    | cond rules otherwise span =>
      have hr := hresults rules fun r hr => List.mem_append_left _ (result_mem_rules hr)
      cases otherwise with
      | none =>
        simp only [Expr.pattern]
        cases hunified : Pattern.unifyAll (resultPatterns p rules) with
        | none => exact invalid
        | some x => exact hcore (Pattern.core_toOptional x).symm (hunify hr hunified)
      | some o =>
        simp only [Expr.pattern]
        have ho := child (x := o) (List.mem_append_right _ (by simp))
        cases hunified : Pattern.unifyAll (resultPatterns p rules ++ [o.pattern p]) with
        | none => exact invalid
        | some x =>
          refine hunify (List.forall_mem_append.mpr ⟨hr, ?_⟩) hunified
          simpa using ho
    | _ => exact invalid

/-- The pattern of a known expression is known. -/
theorem KnownIn.pattern {K : Known} {p : Program} {s : ScopeId} (hK : K.Closed p s) {e : Expr}
    (he : e.KnownIn K) : (e.pattern p).KnownIn K := by
  have hcore {x y : Pattern} (hxy : x.core = y.core) (hx : x.KnownIn K) : y.KnownIn K := by
    rwa [Pattern.KnownIn, Pattern.enum?, ← hxy]
  refine pattern_induction (C := Pattern.KnownIn K) hcore p ?_ ?_ ?_ ?_
  · simp [Pattern.KnownIn, Pattern.enum?, Pattern.core]
  · intro value
    cases value <;> exact fun _ => Known.native_hint _ _ rfl _
  · exact fun x hx d hd => hK.pattern d ((he x hx).1 d hd)
  · rintro x hx v hv _ ⟨⟩
    exact hK.owner v ((he x hx).2 v hv)

/-- No part is a name, and everything that a part refers to is known. -/
def Bound (K : Known) (e : Expr) : Prop :=
  e.Everywhere fun x =>
    x.mention? = none ∧ (∀ d ∈ x.handle?, K.decl d) ∧ ∀ v ∈ x.enumValue?, K.value v

/-- An expression is bound when it is resolved and known. -/
theorem bound_iff {K : Known} {e : Expr} : e.Bound K ↔ e.IsResolved ∧ e.KnownIn K :=
  ⟨fun h => ⟨fun x hx => (h x hx).1, fun x hx => (h x hx).2⟩,
    fun h x hx => ⟨h.1 x hx, h.2 x hx⟩⟩

/-- Reading a bound expression under a hint keeps it bound. -/
theorem Bound.coerce {K : Known} {e : Expr} (he : e.Bound K) (hint : Pattern) :
    (e.coerce hint).Bound K := by
  induction e using induction_children with
  | node e ih =>
    cases e with
    | literal value span => simp [Expr.coerce, Bound, mention?, handle?, enumValue?]
    | unary op operand span =>
      have hoperand := ih operand (by simp [children]) (he.child (by simp [children]))
      cases op with
      | not => simpa [Expr.coerce] using he
      | negate => simpa [Expr.coerce, Bound, mention?, handle?, enumValue?] using hoperand
    | binary op lhs rhs span =>
      have hlhs := ih lhs (by simp [children]) (he.child (by simp [children]))
      have hrhs := ih rhs (by simp [children]) (he.child (by simp [children]))
      by_cases hop : op.isArithmetic
      · simpa [Expr.coerce, hop, Bound, mention?, handle?, enumValue?] using And.intro hlhs hrhs
      · simpa [Expr.coerce, hop] using he
    | select subject rules span =>
      simp only [Bound, everywhere_select] at he
      simp only [Expr.coerce, coerceResults_eq_map, Bound, everywhere_select, List.mem_map,
        forall_exists_index, and_imp, forall_apply_eq_imp_iff₂]
      refine ⟨by simp [mention?, handle?, enumValue?], he.2.1, fun r hr => ⟨(he.2.2 r hr).1, ?_⟩⟩
      exact ih r.result (List.mem_cons_of_mem _ (result_mem_rules hr)) (he.2.2 r hr).2
    | cond rules otherwise span =>
      simp only [Bound, everywhere_cond] at he
      simp only [Expr.coerce, coerceResults_eq_map, coerceOption_eq_map, Bound, everywhere_cond,
        List.mem_map, forall_exists_index, and_imp, forall_apply_eq_imp_iff₂]
      refine ⟨by simp [mention?, handle?, enumValue?], fun r hr => ⟨(he.2.1 r hr).1, ?_⟩, ?_⟩
      · exact ih r.result (List.mem_append_left _ (result_mem_rules hr)) (he.2.1 r hr).2
      · intro x hx
        obtain ⟨y, hy, rfl⟩ := Option.map_eq_some_iff.mp hx
        exact ih y (List.mem_append_right _ (by simpa using hy)) (he.2.2 y hy)
    | _ => simpa only [Expr.coerce] using he

/-- Reading bound arguments under the patterns of parameters keeps them bound. -/
theorem bound_coerceArguments {K : Known} (p : Program) (args : List Expr)
    (parameters : List VarId) (h : ∀ x ∈ args, x.Bound K) :
    ∀ x ∈ p.coerceArguments args parameters, x.Bound K := by
  induction args generalizing parameters with
  | nil => simp [Program.coerceArguments]
  | cons arg args ih =>
    cases parameters with
    | nil => exact h
    | cons v vs =>
      rw [List.forall_mem_cons] at h
      rw [Program.coerceArguments, List.forall_mem_cons]
      exact ⟨h.1.coerce _, ih vs h.2⟩

/-- Resolving a known expression under a known hint leaves no name, and leads to nothing unknown. -/
theorem resolve_bound {p : Program} {s : ScopeId} {K : Known} (hK : K.Closed p s) {e : Expr}
    (he : e.KnownIn K) {hint : Option Pattern} (hhint : K.Hint hint) :
    (e.resolve p s hint).value.Bound K := by
  induction e using induction_children generalizing hint with
  | node e ih =>
    have child {x : Expr} (hx : x ∈ e.children) {hint : Option Pattern} (hhint : K.Hint hint) :
        (x.resolve p s hint).value.Bound K := ih x hx (he.child hx) hhint
    have inferred {x : Expr} (hx : x ∈ e.children) {hint : Option Pattern} (hhint : K.Hint hint) :
        ((x.resolve p s hint).value.pattern p).KnownIn K :=
      (bound_iff.mp (child hx hhint)).2.pattern hK
    cases e with
    | unresolved name span =>
      rw [resolve]
      obtain ⟨h, hh, heq⟩ | ⟨v, e, henum, hv, heq⟩ | heq := Program.resolveName_value p s
        name.identity span hint <;>
        rw [heq] <;> simp [Bound, mention?, handle?, enumValue?]
      · exact hK.visible _ (Program.visible_of_fetch hh (by simp [Binding.overloads]))
      · refine hK.values e ?_ v (Program.mem_values_of_enumValueNamed hv)
        rcases henum with hhinted | hvisible
        · obtain ⟨x, hx, he⟩ := Option.bind_eq_some_iff.mp hhinted
          exact hhint x hx e he
        · exact hK.visibleEnum e hvisible
    | var h span => simpa [resolve, Bound, KnownIn, mention?] using he
    | enumValue h span => simpa [resolve, Bound, KnownIn, mention?] using he
    | list items span =>
      simp only [resolve, Reported.value_bind, Reported.value_pure, resolveAll_value, Bound,
        everywhere_list, List.forall_mem_map]
      exact ⟨by simp [mention?, handle?, enumValue?], fun x hx => child hx Known.no_hint⟩
    | instances items span =>
      simp only [resolve, Reported.value_bind, Reported.value_pure, resolveAll_value, Bound,
        everywhere_instances, List.forall_mem_map]
      exact ⟨by simp [mention?, handle?, enumValue?], fun x hx => child hx Known.no_hint⟩
    | unary op operand span =>
      simp only [resolve, Reported.value_bind, Reported.value_pure, Bound, everywhere_unary]
      exact ⟨by simp [mention?, handle?, enumValue?],
        child (by simp [children]) (hhint.operand op)⟩
    | binary op lhs rhs span =>
      have hlhs : lhs ∈ (binary op lhs rhs span).children := by simp [children]
      simp only [resolve, Reported.value_bind, Reported.value_pure, Bound, everywhere_binary]
      exact ⟨by simp [mention?, handle?, enumValue?], child hlhs (hhint.left op),
        child (by simp [children]) (hhint.right op (inferred hlhs (hhint.left op)))⟩
    | property subject target span =>
      have hsubject := child (x := subject) (by simp [children]) Known.no_hint
      have hself := he.self
      cases target with
      | unresolved name =>
        simp only [resolve]
        split
        · rename_i enumName e hqualifier
          obtain ⟨v, hv, heq⟩ | heq :=
            Program.resolveQualified_value p name.identity span enumName e <;>
            rw [heq] <;> simp [Bound, mention?, handle?, enumValue?]
          exact hK.values e (hK.visibleEnum e (Program.visible_of_qualifier? hqualifier)) v
            (Program.mem_values_of_enumValueNamed hv)
        · rw [Reported.value_bind]
          obtain ⟨h, hh, heq⟩ | ⟨h, hh, heq⟩ | heq := Program.resolveProperty_value p s
            name.identity span (subject.resolve p s none).value <;>
            rw [heq] <;> simp only [Bound, everywhere_property, everywhere_invalid]
          · have hknown := hK.visible _ (Program.visible_of_mem_fetchProperty hh)
            exact ⟨by simpa [mention?, handle?, enumValue?] using hknown, hsubject⟩
          · have hknown := hK.visible _ (Program.visible_of_mem_fetchProperty hh)
            exact ⟨by simpa [mention?, handle?, enumValue?] using hknown, hsubject⟩
          · simp [mention?, handle?, enumValue?]
      | state h | function h =>
        simp only [resolve, Reported.value_bind, Reported.value_pure, Bound, everywhere_property]
        exact ⟨by simpa [mention?, handle?, enumValue?] using hself, hsubject⟩
    | select subject rules span =>
      have hsubject : subject ∈ (select subject rules span).children := by simp [children]
      have hinferred := inferred hsubject Known.no_hint
      simp only [resolve, Reported.value_bind, Reported.value_pure, resolveRules_value, Bound,
        everywhere_select, List.forall_mem_map]
      refine ⟨by simp [mention?, handle?, enumValue?], child hsubject Known.no_hint,
        fun r hr => ⟨?_, ?_⟩⟩
      · exact child (List.mem_cons_of_mem _ (head_mem_rules hr)) (by rintro x ⟨⟩; exact hinferred)
      · exact child (List.mem_cons_of_mem _ (result_mem_rules hr)) hhint
    | call callee args span =>
      have hargs : ∀ x ∈ (resolveAll p s args).value, x.Bound K := by
        rw [resolveAll_value, List.forall_mem_map]
        exact fun x hx => child hx Known.no_hint
      have hself := he.self
      cases callee with
      | unresolved name =>
        rw [resolve, Reported.value_bind]
        obtain ⟨f, hf, heq⟩ | heq := Program.resolveCall_value p s name.identity span
          (resolveAll p s args).value <;>
          dsimp only <;> rw [heq] <;> simp only [Bound, everywhere_call, everywhere_invalid]
        · have hknown := hK.visible _ (Program.visible_of_mem_fetchOverloads hf)
          exact ⟨by simpa [mention?, handle?, enumValue?] using hknown,
            bound_coerceArguments p _ _ hargs⟩
        · simp [mention?, handle?, enumValue?]
      | function f =>
        simp only [resolve, Reported.value_bind, Reported.value_pure, Bound, everywhere_call]
        exact ⟨by simpa [mention?, handle?, enumValue?] using hself, hargs⟩
    | cond rules otherwise span =>
      simp only [resolve, Reported.value_bind, Reported.value_pure, resolveRules_value,
        resolveOption_value, Bound, everywhere_cond, List.forall_mem_map]
      refine ⟨by simp [mention?, handle?, enumValue?], fun r hr => ⟨?_, ?_⟩, ?_⟩
      · exact child (List.mem_append_left _ (head_mem_rules hr)) (Known.native_hint _)
      · exact child (List.mem_append_left _ (result_mem_rules hr)) hhint
      · intro x hx
        obtain ⟨y, hy, rfl⟩ := Option.map_eq_some_iff.mp hx
        exact child (List.mem_append_right _ (by simpa using hy)) hhint
    | index subject position span =>
      simp only [resolve, Reported.value_bind, Reported.value_pure, Bound, everywhere_index]
      exact ⟨by simp [mention?, handle?, enumValue?], child (by simp [children]) Known.no_hint,
        child (by simp [children]) (Known.native_hint _)⟩
    | literal value span | invalid span =>
      simp [resolve, Bound, mention?, handle?, enumValue?]

/-- Resolving leads to visible declarations only. -/
theorem HandlesIn.resolve {p : Program} {s : ScopeId} {A : Decl → Prop}
    (hvisible : ∀ d, p.Visible s d → A d) {e : Expr} (he : e.HandlesIn A) (hint : Option Pattern) :
    (e.resolve p s hint).value.HandlesIn A :=
  Known.knownIn_ofDecls.mp (bound_iff.mp (resolve_bound (Known.closed_ofDecls hvisible)
    (Known.knownIn_ofDecls.mpr he) (Known.hint_ofDecls A hint))).2

/-- Resolving leaves no name. -/
theorem resolve_isResolved (p : Program) (s : ScopeId) (hint : Option Pattern) (e : Expr) :
    (e.resolve p s hint).value.IsResolved :=
  (bound_iff.mp (resolve_bound (K := .ofDecls fun _ => True)
    (Known.closed_ofDecls fun _ _ => trivial) (Known.knownIn_ofDecls.mpr fun _ _ _ _ => trivial)
    (Known.hint_ofDecls _ hint))).1

end Expr

end EntityLang
