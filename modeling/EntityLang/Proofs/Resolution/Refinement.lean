import EntityLang.Proofs.Expr.Visits
import EntityLang.Proofs.Program.Named

/-!
# Resolving refines an expression

Resolving puts something in the place of names, reads integers as numbers, and leaves everything
else as it was. Every node of the result stands where a node of the expression stood, and is what
resolving that node made of it, read once more under the hints of calls around it. So it is enough
to say what a node may become, its children apart: they have positions of their own.
-/

namespace EntityLang

/-- A hint leaves a literal as it is, or reads an integer as a number. -/
theorem Literal.coerce_cases (hint : Option Pattern) (value : Literal) :
    value.coerce hint = value ∨ ∃ i, value = .int i ∧ value.coerce hint = .number (.ofInt64 i) := by
  cases value with
  | int i =>
    rw [Literal.coerce]
    split
    · exact .inr ⟨i, rfl, rfl⟩
    · exact .inl rfl
  | _ => exact .inl rfl

namespace Expr

/-- A node with blanks in the places of its children. What is left are its kind and place, its
operator, handle or literal, how many children it has, the places of its rules, and whether there is
an expression for the case that no rule applies. -/
def shell : Expr → Expr
  | .list items span => .list (items.map fun _ => default) span
  | .instances items span => .instances (items.map fun _ => default) span
  | .unary op _ span => .unary op default span
  | .binary op _ _ span => .binary op default default span
  | .property _ target span => .property default target span
  | .select _ rules span =>
    .select default (rules.map fun r => ⟨default, default, r.span⟩) span
  | .call callee args span => .call callee (args.map fun _ => default) span
  | .cond rules otherwise span =>
    .cond (rules.map fun r => ⟨default, default, r.span⟩) (otherwise.map fun _ => default) span
  | .index _ _ span => .index default default span
  | leaf => leaf

/-- The shell of an expression has its place. -/
theorem span_shell (e : Expr) : e.shell.span = e.span := by
  cases e <;> rfl

/-- What a node may become when it is resolved, its children apart. -/
inductive Becomes : Expr → Expr → Prop
  /-- A node that is not a name keeps everything but its children. -/
  | kept {x y : Expr} (hname : x.mention? = none) (hshell : y.shell = x.shell) : Becomes x y
  /-- An integer is read as a number. -/
  | number (i : Int64) (span : Span) :
    Becomes (.literal (.int i) span) (.literal (.number (.ofInt64 i)) span)
  /-- A bare name becomes a variable, a value of an enum, or invalid. -/
  | nameVar (name : Mention) (h : VarId) (span : Span) :
    Becomes (.unresolved name span) (.var h span)
  | nameValue (name : Mention) (v : EnumValueId) (span : Span) :
    Becomes (.unresolved name span) (.enumValue v span)
  | nameInvalid (name : Mention) (span : Span) : Becomes (.unresolved name span) (.invalid span)
  /-- The name of a property is bound, or the whole becomes a value of an enum, or invalid. -/
  | propertyState (subject subject' : Expr) (name : Mention) (h : StateId) (span : Span) :
    Becomes (.property subject (.unresolved name) span) (.property subject' (.state h) span)
  | propertyFunction (subject subject' : Expr) (name : Mention) (h : FunctionId) (span : Span) :
    Becomes (.property subject (.unresolved name) span) (.property subject' (.function h) span)
  | propertyValue (subject : Expr) (name : Mention) (v : EnumValueId) (span : Span) :
    Becomes (.property subject (.unresolved name) span) (.enumValue v span)
  | propertyInvalid (subject : Expr) (name : Mention) (span : Span) :
    Becomes (.property subject (.unresolved name) span) (.invalid span)
  /-- The name of a function is bound, and the arguments are as many as before, or the whole becomes
  invalid. -/
  | callFunction {args args' : List Expr} (name : Mention) (f : FunctionId) (span : Span)
    (hargs : args'.length = args.length) :
    Becomes (.call (.unresolved name) args span) (.call (.function f) args' span)
  | callInvalid (name : Mention) (args : List Expr) (span : Span) :
    Becomes (.call (.unresolved name) args span) (.invalid span)

/-- Whatever a node becomes stays at its place. -/
theorem Becomes.span_eq {x y : Expr} (h : x.Becomes y) : y.span = x.span := by
  cases h with
  | kept hname hshell => rw [← span_shell y, hshell, span_shell]
  | _ => rfl

section Hints

/-- Hints change nothing about a node itself, except that integers become numbers. -/
theorem shell_coerce (e : Expr) (q : Pattern) : (e.coerce q).shell = e.shell ∨
    ∃ i span, e = .literal (.int i) span ∧ e.coerce q = .literal (.number (.ofInt64 i)) span := by
  cases e with
  | literal value span =>
    rw [Expr.coerce]
    obtain hsame | ⟨i, rfl, hnumber⟩ := value.coerce_cases (some q)
    · exact .inl (by rw [hsame])
    · exact .inr ⟨i, span, rfl, by rw [hnumber]⟩
  | unary op operand span => cases op <;> exact .inl rfl
  | binary op lhs rhs span =>
    rw [Expr.coerce]
    split <;> exact .inl rfl
  | select subject rules span =>
    left
    simp [Expr.coerce, shell, coerceResults_eq_map]
  | cond rules otherwise span =>
    left
    simp [Expr.coerce, shell, coerceResults_eq_map, coerceOption_eq_map, Function.comp_def]
  | _ => exact .inl rfl

/-- What a node may become may be read under a hint. -/
theorem Becomes.coerce {x y : Expr} (h : x.Becomes y) (q : Pattern) : x.Becomes (y.coerce q) := by
  cases h with
  | kept hname hshell =>
    obtain hsame | ⟨i, span, rfl, hnumber⟩ := shell_coerce y q
    · exact .kept hname (hsame.trans hshell)
    · -- only an integer has the shell of an integer
      obtain rfl : x = .literal (.int i) span := by
        cases x <;> simp_all [shell]
      rw [hnumber]
      exact .number i span
  | number i span => exact .number i span
  | nameVar name h span => exact .nameVar name h span
  | nameValue name v span => exact .nameValue name v span
  | nameInvalid name span => exact .nameInvalid name span
  | propertyState subject subject' name h span => exact .propertyState subject subject' name h span
  | propertyFunction subject subject' name h span =>
    exact .propertyFunction subject subject' name h span
  | propertyValue subject name v span => exact .propertyValue subject name v span
  | propertyInvalid subject name span => exact .propertyInvalid subject name span
  | callFunction name f span hargs => exact .callFunction name f span hargs
  | callInvalid name args span => exact .callInvalid name args span

/-- What an expression becomes may be read again. -/
theorem Becomes.reread {x y z : Expr} (h : x.Becomes y) (hyz : y.Reread z) : x.Becomes z := by
  induction hyz with
  | refl => exact h
  | tail _ hstep ih =>
    obtain ⟨q, rfl⟩ := hstep
    exact ih.coerce q

/-- Hints do not change what a node refers to. -/
theorem RefersBy.coerce {p : Program} {identity : String} {e : Expr} (h : e.RefersBy p identity)
    (q : Pattern) : (e.coerce q).RefersBy p identity := by
  cases e with
  | unary op operand span => cases op <;> exact h
  | binary op lhs rhs span =>
    rw [Expr.coerce]
    split <;> exact h
  | _ => exact h

/-- An expression refers by the name still when it is read again. -/
theorem RefersBy.reread {p : Program} {identity : String} {e e' : Expr}
    (h : e.RefersBy p identity) (he : e.Reread e') : e'.RefersBy p identity := by
  induction he with
  | refl => exact h
  | tail _ hstep ih =>
    obtain ⟨q, rfl⟩ := hstep
    exact ih.coerce q

end Hints

section Resolve

variable (p : Program) (s : ScopeId) (hint : Option Pattern)

/-- What resolving makes of a node is something that the node may become. -/
theorem becomes_resolve (e : Expr) : e.Becomes (e.resolve p s hint).value := by
  cases e with
  | unresolved name span =>
    rw [resolve]
    obtain ⟨h, -, heq⟩ | ⟨v, -, -, -, heq⟩ | heq :=
      p.resolveName_value s name.identity span hint
    · rw [heq]
      exact .nameVar name h span
    · rw [heq]
      exact .nameValue name v span
    · rw [heq]
      exact .nameInvalid name span
  | literal value span =>
    rw [resolve, Reported.value_pure]
    obtain hsame | ⟨i, rfl, hnumber⟩ := value.coerce_cases hint
    · rw [hsame]
      exact .kept rfl rfl
    · rw [hnumber]
      exact .number i span
  | property subject target span =>
    cases target with
    | unresolved name =>
      cases hqualifier : p.qualifier? s subject with
      | some qualifier =>
        simp only [resolve, hqualifier]
        obtain ⟨v, -, heq⟩ | heq :=
          p.resolveQualified_value name.identity span qualifier.1 qualifier.2
        · rw [heq]
          exact .propertyValue subject name v span
        · rw [heq]
          exact .propertyInvalid subject name span
      | none =>
        simp only [resolve, hqualifier, Reported.value_bind]
        obtain ⟨h, -, heq⟩ | ⟨h, -, heq⟩ | heq :=
          p.resolveProperty_value s name.identity span (subject.resolve p s none).value
        · rw [heq]
          exact .propertyState subject _ name h span
        · rw [heq]
          exact .propertyFunction subject _ name h span
        · rw [heq]
          exact .propertyInvalid subject name span
    | state h => exact .kept rfl rfl
    | function h => exact .kept rfl rfl
  | call callee args span =>
    cases callee with
    | unresolved name =>
      simp only [resolve, Reported.value_bind]
      obtain ⟨f, -, heq⟩ | heq :=
        p.resolveCall_value s name.identity span (resolveAll p s args).value
      · rw [heq]
        refine .callFunction name f span ?_
        rw [← (forall₂_coerceArguments _ _).length_eq, resolveAll_value, List.length_map]
      · rw [heq]
        exact .callInvalid name args span
    | function f => exact .kept rfl (by simp [resolve, shell, resolveAll_value, Function.comp_def])
  | list items span | instances items span =>
    exact .kept rfl (by simp [resolve, shell, resolveAll_value, Function.comp_def])
  | select subject rules span =>
    exact .kept rfl (by simp [resolve, shell, resolveRules_value])
  | cond rules otherwise span =>
    exact .kept rfl (by simp [resolve, shell, resolveRules_value, resolveOption_value,
      Function.comp_def])
  | _ => exact .kept rfl rfl

/-- If names are kept, what takes the place of a name has that name. -/
theorem refersBy_resolve (hp : p.KeyedByName) {e : Expr} {name : Mention}
    (hname : e.mention? = some name) :
    (e.resolve p s hint).value.RefersBy p name.identity := by
  cases e with
  | unresolved own span =>
    obtain rfl := Option.some.inj hname
    exact Program.refersBy_resolveName hp s own.identity span hint
  | property subject target span =>
    cases target with
    | unresolved own =>
      obtain rfl := Option.some.inj hname
      cases hqualifier : p.qualifier? s subject with
      | some qualifier =>
        simp only [resolve, hqualifier]
        exact Program.refersBy_resolveQualified own.identity span qualifier.1 qualifier.2
      | none =>
        simp only [resolve, hqualifier, Reported.value_bind]
        exact Program.refersBy_resolveProperty hp s own.identity span _
    | _ => simp [mention?] at hname
  | call callee args span =>
    cases callee with
    | unresolved own =>
      obtain rfl := Option.some.inj hname
      simp only [resolve, Reported.value_bind]
      exact Program.refersBy_resolveCall hp s own.identity span _
    | function f => simp [mention?] at hname
  | _ => simp [mention?] at hname

end Resolve

/-- Every part of a resolved expression is what resolving made of the part at the same position,
read under hints of enclosing calls. -/
theorem exists_part?_of_reread {p : Program} {s : ScopeId} {hint : Option Pattern} {e out : Expr}
    (hout : (e.resolve p s hint).value.Reread out) {π : Position} {y : Expr}
    (hy : out.part? π = some y) :
    ∃ x h, e.part? π = some x ∧ (x.resolve p s h).value.Reread y := by
  induction π generalizing e hint out with
  | nil =>
    obtain rfl := Option.some.inj hy
    exact ⟨e, hint, rfl, hout⟩
  | cons i π ih =>
    rw [part?_cons, Option.bind_eq_some_iff] at hy
    obtain ⟨z, hz, hy⟩ := hy
    obtain ⟨c, hc, hcz⟩ := exists_getElem?_of_forall₂ hout.children.flip hz
    cases fate p s hint e with
    | poisoned d _ _ _ hvalue _ => simp [hvalue, children] at hc
    | replaced _ _ hchildren _ _ => simp [hchildren] at hc
    | kept hvisits hchildren _ _ =>
      obtain ⟨⟨h, x⟩, hvisit, hxc⟩ := exists_getElem?_of_forall₂ hchildren.flip hc
      have hx : e.children[i]? = some x := by
        rw [← hvisits, List.getElem?_map, hvisit, Option.map_some]
      obtain ⟨x', h', hx', hy'⟩ := ih (hxc.trans hcz) hy
      refine ⟨x', h', ?_, hy'⟩
      rw [part?_cons, hx, Option.bind_some, hx']

/-- Every node of a resolved expression stands at the position and at the place of a node of the
expression, and is something that this node may become: only names change their kind, only integers
change their value, and all else stays, down to the number of children and the places of rules. If
scopes bind every name to something of that name, then whatever has taken the place of a name has
that name. -/
theorem resolve_keeps_shape (p : Program) (s : ScopeId) (hint : Option Pattern) (e : Expr)
    {π : Position} {y : Expr} (hy : (e.resolve p s hint).value.part? π = some y) :
    ∃ x, e.part? π = some x ∧ y.span = x.span ∧ x.Becomes y ∧
      (p.KeyedByName → ∀ name ∈ x.mention?, y.RefersBy p name.identity) := by
  obtain ⟨x, h, hx, hreread⟩ := exists_part?_of_reread (.refl _) hy
  have hbecomes := (becomes_resolve p s h x).reread hreread
  refine ⟨x, hx, hbecomes.span_eq, hbecomes, fun hp name hname => ?_⟩
  exact (refersBy_resolve p s h hp hname).reread hreread

/-- An enum, a function that takes one of its values and a number, and a state. -/
def painted : List Call :=
  [.enum Program.globalScope "Color" [("Red", .dummy)] .dummy,
    .declareFunction Program.globalScope "paint" .int [("shade", .enum ⟨0⟩), ("amount", .number)],
    .declareState Program.globalScope "hp" .int [] none]

/-- A choice between a call, whose arguments are the value of the enum and an integer, and something
unknown. -/
def brush : Expr :=
  let one := Expr.literal (.int 1) .dummy
  .cond [⟨.binary .less (.property one (.unresolved ⟨"hp", .dummy⟩) .dummy) one .dummy,
    .call (.unresolved ⟨"paint", .dummy⟩) [.unresolved ⟨"Red", .dummy⟩ .dummy, one] ⟨5, 9, 1, 6⟩,
    .dummy⟩] (some (.unresolved ⟨"missing", .dummy⟩ .dummy)) .dummy

/-- The call stays a call at its place, and the function that is called has the name that was
written. -/
theorem resolve_keeps_shape_brush :
    let p := Program.build painted
    let out := (brush.resolve p Program.globalScope none).value
    p.KeyedByName ∧ ∃ y, out.part? [1] = some y ∧ y.handle? = some (.function ⟨0⟩) ∧
      y.span = ⟨5, 9, 1, 6⟩ ∧ y.RefersBy p "paint" ∧ p.declIdentity (.function ⟨0⟩) = "paint" := by
  intro p out
  have hp : p.KeyedByName := Program.Built.keyedByName ⟨painted, by decide +kernel, rfl⟩
  have hhandle : (out.part? [1]).bind handle? = some (.function ⟨0⟩) := by decide +kernel
  obtain ⟨y, hy, hhandle⟩ := Option.bind_eq_some_iff.mp hhandle
  obtain ⟨x, hx, hspan, -, hnames⟩ := resolve_keeps_shape p Program.globalScope none brush hy
  obtain rfl := Option.some.inj hx
  have hrefers := hnames hp ⟨"paint", .dummy⟩ rfl
  exact ⟨hp, y, hy, hhandle, hspan, hrefers, hrefers.1 _ hhandle⟩

end Expr

end EntityLang
