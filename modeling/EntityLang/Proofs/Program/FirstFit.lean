import EntityLang.Expr.Resolve

/-!
# The first function that accepts

Several functions may share a name. Each of them reads the arguments of a call in its own way, under
the patterns of its own parameters, and the call goes to the first one that accepts what it reads.
If there is none, the problem that is reported says whether the name stands for nothing, for
something that is not a function, or for functions that all refuse.
-/

namespace EntityLang

namespace Program

/-- The functions that a name stands for when it is used in a scope, in order. -/
def functionsNamed (p : Program) (s : ScopeId) (identity : String) : List FunctionId :=
  (p.fetchOverloads s identity).filterMap Decl.function?

/-- The arguments as a function takes them, each read under the pattern of its parameter. -/
def argumentsFor (p : Program) (f : FunctionId) (args : List Expr) : List Expr :=
  p.coerceArguments args (p.function f).parameters

/-- The function accepts the arguments as it takes them. -/
def Accepts (p : Program) (f : FunctionId) (args : List Expr) : Prop :=
  Expr.acceptedBy p (p.argumentsFor f args) (p.function f).parameters

instance (p : Program) (f : FunctionId) (args : List Expr) : Decidable (p.Accepts f args) :=
  inferInstanceAs (Decidable (_ = true))

/-- The function accepts the arguments, and none of those before it does. -/
def FirstFit (p : Program) (functions : List FunctionId) (args : List Expr) (f : FunctionId) :
    Prop :=
  ∃ before after, functions = before ++ f :: after ∧ (∀ g ∈ before, ¬p.Accepts g args) ∧
    p.Accepts f args

variable {p : Program} {s : ScopeId} {identity : String} {args : List Expr} {span : Span}

/-- The first function that fits accepts the arguments. -/
theorem FirstFit.accepts {functions : List FunctionId} {f : FunctionId}
    (h : p.FirstFit functions args f) : p.Accepts f args := by
  obtain ⟨_, _, _, _, haccepts⟩ := h
  exact haccepts

/-- Accepted arguments are as many as there are parameters, so each is read under the pattern of
one. -/
theorem coerceArguments_eq_zipWith {parameters : List VarId}
    (h : Expr.acceptedBy p (p.coerceArguments args parameters) parameters) :
    p.coerceArguments args parameters =
      List.zipWith (fun arg v => arg.coerce (p.var v).pattern) args parameters := by
  induction args generalizing parameters with
  | nil => cases parameters <;> rfl
  | cons arg args ih =>
    cases parameters with
    | nil => simp [coerceArguments, Expr.acceptedBy] at h
    | cons v vs =>
      simp only [coerceArguments, Expr.acceptedBy, Bool.and_eq_true] at h
      rw [coerceArguments, List.zipWith_cons_cons, ih h.2]

/-- A function that is tried takes the arguments exactly if it accepts them. -/
theorem acceptArguments_eq (f : FunctionId) :
    p.acceptArguments args f =
      if p.Accepts f args then some (f, p.argumentsFor f args) else none := rfl

/-- The kind of problem that a call has when no function accepts its arguments. -/
inductive Unmatched (p : Program) (s : ScopeId) (identity : String) : DiagnosticKind → Prop
  /-- The name stands for nothing, or for no declaration at all. -/
  | unbound (h : p.fetchOverloads s identity = []) : p.Unmatched s identity .unresolvedIdentity
  /-- The name stands for something, but for no function. -/
  | notCallable (h : p.fetchOverloads s identity ≠ [])
    (hfunctions : p.functionsNamed s identity = []) : p.Unmatched s identity .notCallable
  /-- There are functions of the name. -/
  | noOverload (hfunctions : p.functionsNamed s identity ≠ []) :
    p.Unmatched s identity .noMatchingOverload

/-- A call stands for the first function that accepts its arguments; if there is none, it is
poisoned. -/
theorem resolveCall_cases (p : Program) (s : ScopeId) (identity : String) (args : List Expr)
    (span : Span) :
    (∃ f, p.FirstFit (p.functionsNamed s identity) args f ∧
        p.resolveCall s identity args span =
          ⟨.call (.function f) (p.argumentsFor f args) span, []⟩) ∨
      ((∀ f ∈ p.functionsNamed s identity, ¬p.Accepts f args) ∧
        ∃ d, d.span = span ∧ p.Unmatched s identity d.kind ∧
          p.resolveCall s identity args span = ⟨.invalid span, [d]⟩) := by
  unfold resolveCall
  split
  · rename_i hfetch
    exact .inr ⟨by simp [functionsNamed, hfetch], _, rfl, .unbound hfetch, rfl⟩
  · rename_i first rest hfetch
    have hfunctions : p.functionsNamed s identity = (first :: rest).filterMap Decl.function? := by
      rw [functionsNamed, hfetch]
    rw [← hfunctions]
    split
    · rename_i hnone
      refine .inr ⟨by simp [hnone], _, rfl, .notCallable (by simp [hfetch]) hnone, rfl⟩
    · rename_i hsome
      cases haccept : (p.functionsNamed s identity).findSome? (p.acceptArguments args) with
      | some found =>
        obtain ⟨before, f, after, hsplit, hf, hbefore⟩ := List.findSome?_eq_some_iff.mp haccept
        rw [acceptArguments_eq, Option.ite_none_right_eq_some] at hf
        obtain ⟨haccepts, hfound⟩ := hf
        obtain rfl := Option.some.inj hfound
        refine .inl ⟨f, ⟨before, after, hsplit, fun g hg => ?_, haccepts⟩, rfl⟩
        simpa [acceptArguments_eq] using hbefore g hg
      | none =>
        rw [List.findSome?_eq_none_iff] at haccept
        refine .inr ⟨fun g hg => ?_, _, rfl, .noOverload hsome, rfl⟩
        simpa [acceptArguments_eq] using haccept g hg

end Program

end EntityLang
