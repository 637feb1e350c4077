import EntityLang.Proofs.Expr.Resolved
import Mathlib.Data.List.Find

/-!
# What resolving reads

Resolving an expression in a scope reads a program through its lookups from that scope, through the
declared patterns of the declarations that the expression or a lookup refers to, through the enums
that hints and lookups lead to, and through the patterns of the parameters of visible functions. Two
programs that agree on what is known of these resolve the expression alike; an expression without
names does not even read the parameters.
-/

namespace EntityLang

/-- A search depends on the members of the list only. -/
theorem findSome?_congr {α β : Type} {f g : α → Option β} {as : List α}
    (h : ∀ a ∈ as, f a = g a) : as.findSome? f = as.findSome? g := by
  induction as with
  | nil => rfl
  | cons a rest ih =>
    rw [List.forall_mem_cons] at h
    rw [List.findSome?_cons, List.findSome?_cons, h.1, ih h.2]

/-- The programs agree on what is known in the scope `s`. -/
structure Known.Agree (K : Known) (p q : Program) (s : ScopeId) : Prop where
  fetch : ∀ identity, p.fetch s identity = q.fetch s identity
  fetchProperty : ∀ identity, p.fetchProperty s identity = q.fetchProperty s identity
  enumValuesInReach : ∀ identity, p.enumValuesInReach s identity = q.enumValuesInReach s identity
  enumValueNamed : ∀ e, K.enum e → ∀ identity,
    p.enumValueNamed e identity = q.enumValueNamed e identity
  owner : ∀ v, K.value v → (p.enumValue v).owner = (q.enumValue v).owner
  parameters : ∀ f, p.Visible s (.function f) →
    (p.function f).parameters = (q.function f).parameters
  pattern : ∀ d, K.decl d → p.declPattern d = q.declPattern d

namespace Program

/-- Every name used in the scope `s` means the same in both programs. -/
structure SameLookup (p q : Program) (s : ScopeId) : Prop where
  fetch : ∀ identity, p.fetch s identity = q.fetch s identity
  fetchProperty : ∀ identity, p.fetchProperty s identity = q.fetchProperty s identity
  enumValuesInReach : ∀ identity, p.enumValuesInReach s identity = q.enumValuesInReach s identity
  enumValueNamed : ∀ e identity, p.enumValueNamed e identity = q.enumValueNamed e identity
  owner : ∀ v, (p.enumValue v).owner = (q.enumValue v).owner
  parameters : ∀ f, (p.function f).parameters = (q.function f).parameters

/-- The scope `s` looks the same in both programs: names mean the same, and what is visible has the
same patterns. -/
structure SameView (p q : Program) (s : ScopeId) : Prop where
  lookup : p.SameLookup q s
  pattern : ∀ d, p.Visible s d → p.declPattern d = q.declPattern d

/-- The parameters of the functions visible from `s` have the same patterns in both programs. -/
def SameParameters (p q : Program) (s : ScopeId) : Prop :=
  ∀ f, p.Visible s (.function f) → ∀ v ∈ (p.function f).parameters,
    (p.var v).pattern = (q.var v).pattern

/-- Programs in which a scope looks the same agree on what is visible from it and on all enums. -/
theorem SameView.agree {p q : Program} {s : ScopeId} (h : p.SameView q s) :
    (Known.ofDecls (p.Visible s)).Agree p q s where
  fetch := h.lookup.fetch
  fetchProperty := h.lookup.fetchProperty
  enumValuesInReach := h.lookup.enumValuesInReach
  enumValueNamed e _ := h.lookup.enumValueNamed e
  owner v _ := h.lookup.owner v
  parameters f _ := h.lookup.parameters f
  pattern := h.pattern

/-- Arguments are read alike under parameters of the same patterns. -/
theorem coerceArguments_congr {p q : Program} (args : List Expr) (parameters : List VarId)
    (h : ∀ v ∈ parameters, (p.var v).pattern = (q.var v).pattern) :
    p.coerceArguments args parameters = q.coerceArguments args parameters := by
  induction args generalizing parameters with
  | nil => simp [coerceArguments]
  | cons arg args ih =>
    cases parameters with
    | nil => rfl
    | cons v vs =>
      rw [List.forall_mem_cons] at h
      rw [coerceArguments, coerceArguments, h.1, ih vs h.2]

end Program

namespace Expr

variable {p q : Program} {K : Known}

/-- The pattern of an expression depends on the patterns of its handles and the enums of its values
only. -/
theorem pattern_congr (howner : ∀ v, K.value v → (p.enumValue v).owner = (q.enumValue v).owner)
    (hpattern : ∀ d, K.decl d → p.declPattern d = q.declPattern d) {e : Expr} (he : e.KnownIn K) :
    e.pattern p = e.pattern q := by
  induction e using induction_children with
  | node e ih =>
    have child {x : Expr} (hx : x ∈ e.children) : x.pattern p = x.pattern q :=
      ih x hx (he.child hx)
    have handle {d : Decl} (hd : e.handle? = some d) : p.declPattern d = q.declPattern d :=
      hpattern d (he.self.1 d hd)
    have hresults (rules : List (Rule Expr)) (hrules : ∀ r ∈ rules, r.result ∈ e.children) :
        resultPatterns p rules = resultPatterns q rules := by
      rw [resultPatterns_eq_map, resultPatterns_eq_map]
      exact List.map_congr_left fun r hr => child (hrules r hr)
    cases e with
    | var h span => exact handle rfl
    | enumValue v span => rw [pattern, pattern, howner v (he.self.2 v rfl)]
    | unary op operand span =>
      cases op with
      | not => rfl
      | negate => exact child (x := operand) (by simp [children])
    | binary op lhs rhs span =>
      rw [pattern, pattern, child (x := lhs) (by simp [children])]
    | property subject target span =>
      cases target with
      | unresolved name => rfl
      | state h => exact handle rfl
      | function h => exact handle rfl
    | select subject rules span =>
      rw [pattern, pattern,
        hresults rules fun r hr => List.mem_cons_of_mem _ (result_mem_rules hr)]
    | call callee args span =>
      cases callee with
      | unresolved name => rfl
      | function f => exact handle rfl
    | cond rules otherwise span =>
      have hr := hresults rules fun r hr => List.mem_append_left _ (result_mem_rules hr)
      cases otherwise with
      | none => simp only [pattern, hr]
      | some e =>
        have he := child (x := e) (List.mem_append_right _ (by simp))
        simp only [pattern, hr, he]
    | _ => rfl

/-- Known arguments are accepted alike by parameters of the same patterns. -/
theorem acceptedBy_congr (howner : ∀ v, K.value v → (p.enumValue v).owner = (q.enumValue v).owner)
    (hpattern : ∀ d, K.decl d → p.declPattern d = q.declPattern d) (args : List Expr)
    (hargs : ∀ x ∈ args, x.KnownIn K) (parameters : List VarId)
    (h : ∀ v ∈ parameters, (p.var v).pattern = (q.var v).pattern) :
    acceptedBy p args parameters = acceptedBy q args parameters := by
  induction args generalizing parameters with
  | nil => cases parameters <;> rfl
  | cons arg args ih =>
    cases parameters with
    | nil => rfl
    | cons v vs =>
      rw [List.forall_mem_cons] at h hargs
      rw [acceptedBy, acceptedBy, pattern_congr howner hpattern hargs.1, h.1, ih hargs.2 vs h.2]

end Expr

namespace Known.Agree

variable {K : Known} {p q : Program} {s : ScopeId} (h : K.Agree p q s)
include h

/-- A bare name is resolved alike. -/
theorem resolveName {hint : Option Pattern} (hhint : K.Hint hint) (identity : String)
    (span : Span) : p.resolveName s hint identity span = q.resolveName s hint identity span := by
  have hvalue : p.hintedValue hint identity = q.hintedValue hint identity := by
    unfold Program.hintedValue
    split
    · rename_i e he
      obtain ⟨x, hx, he⟩ := Option.bind_eq_some_iff.mp he
      exact h.enumValueNamed e (hhint x hx e he) identity
    · rfl
  unfold Program.resolveName
  rw [h.fetch, hvalue, h.enumValuesInReach]

/-- The same subjects are names of enums. -/
theorem qualifier? (subject : Expr) : p.qualifier? s subject = q.qualifier? s subject := by
  unfold Program.qualifier?
  simp only [h.fetch]

/-- A value of a known enum is resolved alike. -/
theorem resolveQualified {e : EnumId} (he : K.enum e) (enumName identity : String) (span : Span) :
    p.resolveQualified enumName e identity span = q.resolveQualified enumName e identity span := by
  unfold Program.resolveQualified
  rw [h.enumValueNamed e he]

/-- The name of a property is resolved alike. -/
theorem resolveProperty (subject : Expr) (identity : String) (span : Span) :
    p.resolveProperty s subject identity span = q.resolveProperty s subject identity span := by
  have hfind : ((p.fetchProperty s identity).filterMap Decl.function?).find? (fun f =>
        (p.function f).parameters.isEmpty) =
      ((p.fetchProperty s identity).filterMap Decl.function?).find? fun f =>
        (q.function f).parameters.isEmpty := by
    apply List.find?_congr
    intro f hf
    have hmem := Decl.mem_filterMap_function?_iff.mp hf
    rw [h.parameters f (Program.visible_of_mem_fetchProperty hmem)]
  unfold Program.resolveProperty
  rw [← h.fetchProperty, ← h.fetch]
  split
  · rfl
  · dsimp only
    rw [hfind]

/-- A call with known arguments resolves alike where the parameters have the same patterns. -/
theorem resolveCall (hparameters : p.SameParameters q s) (identity : String) (args : List Expr)
    (hargs : ∀ x ∈ args, x.Bound K) (span : Span) :
    p.resolveCall s identity args span = q.resolveCall s identity args span := by
  have haccept (f : FunctionId) (hf : p.Visible s (.function f)) :
      p.acceptArguments args f = q.acceptArguments args f := by
    have hsame := hparameters f hf
    have hcoerced := Program.coerceArguments_congr args _ hsame
    have haccepted := Expr.acceptedBy_congr h.owner h.pattern
      (p.coerceArguments args (p.function f).parameters)
      (fun x hx => (Expr.bound_iff.mp (Expr.bound_coerceArguments p _ _ hargs x hx)).2) _ hsame
    unfold Program.acceptArguments
    dsimp only
    rw [← h.parameters f hf, ← hcoerced, haccepted]
  unfold Program.resolveCall
  have hoverloads : q.fetchOverloads s identity = p.fetchOverloads s identity := by
    simp only [Program.fetchOverloads, h.fetch]
  rw [hoverloads]
  split
  · rfl
  · rename_i first rest hfetch
    split
    · rfl
    · have hfind : ((first :: rest).filterMap Decl.function?).findSome? (p.acceptArguments args) =
          ((first :: rest).filterMap Decl.function?).findSome? (q.acceptArguments args) := by
        apply findSome?_congr
        intro f hf
        have hmem := Decl.mem_filterMap_function?_iff.mp hf
        exact haccept f (Program.visible_of_mem_fetchOverloads (hfetch ▸ hmem))
      rw [hfind]

end Known.Agree

namespace Expr

/-- Programs that agree on what is known resolve a known expression alike. -/
theorem resolve_congr {K : Known} {p q : Program} {s : ScopeId} (hagree : K.Agree p q s)
    (hK : K.Closed p s) {e : Expr} (he : e.KnownIn K) (hcalls : e.IsResolved ∨ p.SameParameters q s)
    {hint : Option Pattern} (hhint : K.Hint hint) : e.resolve p s hint = e.resolve q s hint := by
  induction e using induction_children generalizing hint with
  | node e ih =>
    have child {x : Expr} (hx : x ∈ e.children) {hint : Option Pattern} (hhint : K.Hint hint) :
        x.resolve p s hint = x.resolve q s hint :=
      ih x hx (he.child hx) (hcalls.imp (fun h => h.child hx) id) hhint
    have bound {x : Expr} (hx : x ∈ e.children) {hint : Option Pattern} (hhint : K.Hint hint) :
        (x.resolve p s hint).value.Bound K := resolve_bound hK (he.child hx) hhint
    -- Hints that are inferred from a resolved child are known, and the same in both programs.
    have known {x : Expr} (hx : x ∈ e.children) {hint : Option Pattern} (hhint : K.Hint hint) :
        ((x.resolve p s hint).value.pattern p).KnownIn K :=
      (bound_iff.mp (bound hx hhint)).2.pattern hK
    have inferred {x : Expr} (hx : x ∈ e.children) {hint : Option Pattern} (hhint : K.Hint hint) :
        (x.resolve p s hint).value.pattern p = (x.resolve q s hint).value.pattern q := by
      rw [← child hx hhint]
      exact pattern_congr hagree.owner hagree.pattern (bound_iff.mp (bound hx hhint)).2
    have hall (items : List Expr) (hitems : ∀ x ∈ items, x ∈ e.children) :
        resolveAll p s items = resolveAll q s items := by
      induction items with
      | nil => rfl
      | cons x rest ihr =>
        rw [List.forall_mem_cons] at hitems
        rw [resolveAll, resolveAll, child hitems.1 Known.no_hint, ihr hitems.2]
    have hrules (rules : List (Rule Expr)) {headHint resultHint : Option Pattern}
        (hhead : K.Hint headHint) (hresult : K.Hint resultHint)
        (hparts : ∀ r ∈ rules, r.head ∈ e.children ∧ r.result ∈ e.children) :
        resolveRules p s headHint resultHint rules =
          resolveRules q s headHint resultHint rules := by
      induction rules with
      | nil => rfl
      | cons r rest ihr =>
        rw [List.forall_mem_cons] at hparts
        rw [resolveRules, resolveRules, child hparts.1.1 hhead, child hparts.1.2 hresult,
          ihr hparts.2]
    cases e with
    | unresolved name span => exact hagree.resolveName hhint name.identity span
    | list items span => rw [resolve, resolve, hall items fun x hx => hx]
    | instances items span => rw [resolve, resolve, hall items fun x hx => hx]
    | unary op operand span =>
      rw [resolve, resolve, child (x := operand) (by simp [children]) (hhint.operand op)]
    | binary op lhs rhs span =>
      have hleft : lhs ∈ (binary op lhs rhs span).children := by simp [children]
      have hlhs := child hleft (hhint.left op)
      have hrhs := child (x := rhs) (by simp [children])
        (hhint.right op (known hleft (hhint.left op)))
      have hpattern := inferred hleft (hhint.left op)
      rw [hpattern] at hrhs
      rw [hlhs] at hpattern
      apply Reported.ext
      · simp [resolve, hlhs, hpattern, hrhs]
      · simp [resolve, hlhs, hpattern, hrhs]
    | property subject target span =>
      have hsubject := child (x := subject) (by simp [children]) Known.no_hint
      cases target with
      | unresolved name =>
        rw [resolve, resolve, ← hagree.qualifier?]
        split
        · rename_i enumName e hqualifier
          exact hagree.resolveQualified
            (hK.visibleEnum e (Program.visible_of_qualifier? hqualifier)) enumName _ span
        · simp only [hagree.resolveProperty, hsubject]
      | state h => simp only [resolve, hsubject]
      | function h => simp only [resolve, hsubject]
    | select subject rules span =>
      have hs : subject ∈ (select subject rules span).children := by simp [children]
      have hsubject := child hs Known.no_hint
      have hpattern := inferred hs Known.no_hint
      have hhead : K.Hint (some ((subject.resolve q s none).value.pattern q)) := by
        rintro x ⟨⟩
        rw [← hpattern]
        exact known hs Known.no_hint
      have hr := hrules rules hhead hhint fun r hr =>
        ⟨List.mem_cons_of_mem _ (head_mem_rules hr), List.mem_cons_of_mem _ (result_mem_rules hr)⟩
      rw [hsubject] at hpattern
      apply Reported.ext
      · simp [resolve, hsubject, hpattern, hr]
      · simp [resolve, hsubject, hpattern, hr]
    | call callee args span =>
      have hargs := hall args fun x hx => hx
      cases callee with
      | unresolved name =>
        have hbound : ∀ x ∈ (resolveAll p s args).value, x.Bound K := by
          rw [resolveAll_value, List.forall_mem_map]
          exact fun x hx => bound hx Known.no_hint
        have hparameters : p.SameParameters q s :=
          hcalls.resolve_left fun h => by simpa [mention?] using h.self
        have hcall := hagree.resolveCall hparameters name.identity _ hbound span
        rw [hargs] at hcall
        apply Reported.ext
        · simp [resolve, hargs, hcall]
        · simp [resolve, hargs, hcall]
      | function f => simp only [resolve, hargs]
    | cond rules otherwise span =>
      have hr := hrules rules (Known.native_hint Intrinsic.bool) hhint fun r hr =>
        ⟨List.mem_append_left _ (head_mem_rules hr), List.mem_append_left _ (result_mem_rules hr)⟩
      have ho : resolveOption p s hint otherwise = resolveOption q s hint otherwise := by
        cases otherwise with
        | none => rfl
        | some x =>
          have hx : x ∈ (cond rules (some x) span).children := List.mem_append_right _ (by simp)
          rw [resolveOption, resolveOption, child hx hhint]
      rw [resolve, resolve, hr, ho]
    | index subject position span =>
      rw [resolve, resolve, child (x := subject) (by simp [children]) Known.no_hint,
        child (x := position) (by simp [children]) (Known.native_hint _)]
    | _ => rfl

end Expr

/-! ### Programs that are read alike throughout -/

namespace Program

/-- The programs agree on all that resolving an expression reads: scopes, enums, declared patterns and
parameters. -/
structure ResolvesAlike (p q : Program) : Prop where
  scopes : p.scopes = q.scopes
  enums : p.enums = q.enums
  enumValues : p.enumValues = q.enumValues
  parameters (f : FunctionId) : (p.function f).parameters = (q.function f).parameters
  declPattern (d : Decl) : p.declPattern d = q.declPattern d

namespace ResolvesAlike

variable {p q : Program} (h : p.ResolvesAlike q)
include h

/-- Scopes have the same ancestors. -/
theorem chain_eq : p.chain = q.chain := by
  have hscope (t : ScopeId) : p.scope t = q.scope t := congrArg (fun x => x.get t) h.scopes
  have hchain (bound : Nat) (t : ScopeId) : p.chainUpTo bound t = q.chainUpTo bound t := by
    induction bound generalizing t with
    | zero => rfl
    | succ bound ih => simp [chainUpTo, hscope, ih]
  funext t
  rw [chain, chain, hchain, h.scopes]

/-- A name is bound to the same in each scope. -/
theorem boundIn_eq : p.boundIn = q.boundIn := by
  funext identity t
  rw [boundIn, boundIn, scope, scope, h.scopes]

/-- Names mean the same. -/
theorem fetch_eq (s : ScopeId) (identity : String) : p.fetch s identity = q.fetch s identity := by
  rw [fetch, fetch, h.chain_eq, h.boundIn_eq]

/-- Names of properties mean the same. -/
theorem fetchProperty_eq (s : ScopeId) (identity : String) :
    p.fetchProperty s identity = q.fetchProperty s identity := by
  rw [fetchProperty, fetchProperty, h.chain_eq, h.boundIn_eq]

/-- Enums have the same values. -/
theorem enumValueNamed_eq (e : EnumId) (identity : String) :
    p.enumValueNamed e identity = q.enumValueNamed e identity := by
  unfold enumValueNamed enum enumValue
  rw [h.enums, h.enumValues]

/-- The same enum values are in reach. -/
theorem enumValuesInReach_eq (s : ScopeId) (identity : String) :
    p.enumValuesInReach s identity = q.enumValuesInReach s identity := by
  have hvisible : p.isVisibleEnum s = q.isVisibleEnum s := by
    funext e
    simp only [isVisibleEnum, enum, h.enums, h.fetch_eq]
  have henums : p.enumsIn = q.enumsIn := by
    funext t
    simp only [enumsIn, scope, h.scopes]
  simp only [enumValuesInReach, h.chain_eq, hvisible, henums, h.enumValueNamed_eq]

/-- Nothing that is known differs. -/
theorem agree (s : ScopeId) : (Known.ofDecls fun _ => True).Agree p q s where
  fetch := h.fetch_eq s
  fetchProperty := h.fetchProperty_eq s
  enumValuesInReach := h.enumValuesInReach_eq s
  enumValueNamed e _ := h.enumValueNamed_eq e
  owner v _ := by rw [enumValue, enumValue, h.enumValues]
  parameters f _ := h.parameters f
  pattern d _ := h.declPattern d

/-- The same patterns are inferred. -/
theorem pattern_eq (e : Expr) : e.pattern p = e.pattern q :=
  Expr.pattern_congr (h.agree globalScope).owner (h.agree globalScope).pattern
    (Known.knownIn_ofDecls.mpr fun _ _ _ _ => trivial)

/-- Expressions are resolved alike. -/
theorem resolve_eq (s : ScopeId) (hint : Option Pattern) (e : Expr) :
    e.resolve p s hint = e.resolve q s hint :=
  Expr.resolve_congr (h.agree s) (Known.closed_ofDecls fun _ _ => trivial)
    (Known.knownIn_ofDecls.mpr fun _ _ _ _ => trivial)
    (.inr fun _ _ v _ => h.declPattern (.var v)) (Known.hint_ofDecls _ hint)

end ResolvesAlike

end Program

end EntityLang
