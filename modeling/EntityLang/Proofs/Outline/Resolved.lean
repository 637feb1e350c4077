import EntityLang.Proofs.Outline.Scopes
import EntityLang.Proofs.Resolution.Frame
import EntityLang.Proofs.Resolution.Signature
import EntityLang.Proofs.Walk.Termination

/-!
# Names in the outline of a resolved program

Resolving comes to variables through the scopes that bind them. An outline also comes to them
through parameter lists, declarations and loops. A parser declares all these variables, but a scope
that has another one of the same name rejects the declaration, and then the variable is bound
nowhere. Such variables are the only ones that the outline of a resolved program still shows with a
name for a pattern, and nothing else in it is a name.
-/

namespace EntityLang

namespace Program

/-- Parameters are declared in the scope of their property, variables of declarations in their
block, and variables of loops in the body of the loop. -/
def OwnsVariables (p : Program) : Prop :=
  ∀ d ∈ p.properties, ∀ x ∈ p.listed d, p.DeclaredIn x.1 (.var x.2)

instance (p : Program) : Decidable p.OwnsVariables :=
  inferInstanceAs (Decidable (∀ d ∈ p.properties, ∀ x ∈ p.listed d, p.DeclaredIn x.1 (.var x.2)))

/-- The scope does not bind the variable, and the pattern of the variable is a name. -/
def LeavesName (p : Program) (x : ScopeId × VarId) : Prop :=
  .var x.2 ∉ p.declared x.1 ∧ p.isNamed x.2 = true

instance (p : Program) (x : ScopeId × VarId) : Decidable (p.LeavesName x) :=
  inferInstanceAs (Decidable (_ ∧ _))

section Shape

variable {p q : Program} (h : q.skeleton = p.skeleton)
include h

/-- The scopes of bodies are the same in programs of the same shape. -/
theorem bodyScopes_of_skeleton_eq (d : Decl) : q.bodyScopes d = p.bodyScopes d := by
  cases d with
  | function k =>
    have hscopes (r : Program) : r.bodyScopes (.function k) =
        ((r.function k).body.map Block.skeleton).toList.flatMap Block.scopes := by
      cases hbody : (r.function k).body <;> simp [hbody]
    rw [hscopes, hscopes, body_of_skeleton_eq h]
  | _ => rfl

/-- The variables that a property lists are the same in programs of the same shape. -/
theorem listed_of_skeleton_eq (d : Decl) : q.listed d = p.listed d := by
  have hframe := sameFrame_of_skeleton_eq h
  cases d with
  | state k => rw [listed, listed, hframe.stateParameters, stateScope_of_skeleton_eq h]
  | function k =>
    have hvariables (r : Program) : (r.function k).body.toList.flatMap Block.variables =
        ((r.function k).body.map Block.skeleton).toList.flatMap Block.variables := by
      cases (r.function k).body <;> simp
    rw [listed, listed, hframe.functionParameters, functionScope_of_skeleton_eq h, hvariables,
      hvariables, hframe.body]
  | _ => rfl

/-- The scopes that a dump writes out are the same in programs of the same shape. -/
theorem written_of_skeleton_eq : q.Written = p.Written := by
  have hwrites : q.WritesOut = p.WritesOut := by
    funext s c
    simp only [WritesOut, declared_of_skeleton_eq h, bodyScopes_of_skeleton_eq h]
  funext s
  rw [Written, Written, hwrites]

end Shape

/-- The variables that a bound property lists belong to reachable scopes. -/
theorem Reachable.of_mem_listed {p : Program} {s : ScopeId} (hs : p.Reachable s) {d : Decl}
    (hd : d ∈ p.declared s) {x : ScopeId × VarId} (hx : x ∈ p.listed d) : p.Reachable x.1 := by
  cases d with
  | state h =>
    obtain ⟨v, -, rfl⟩ := List.mem_map.mp hx
    exact hs.enter hd (.own rfl)
  | function h =>
    rw [listed, List.mem_append] at hx
    obtain hx | hx := hx
    · obtain ⟨v, -, rfl⟩ := List.mem_map.mp hx
      exact hs.enter hd (.own rfl)
    · obtain ⟨b, hb, hx⟩ := List.mem_flatMap.mp hx
      have hc := Block.mem_scopes_of_mem_variables hx
      exact hs.enter hd (.block not_false (Option.mem_toList.mp hb) hc)
  | _ => exact absurd hx List.not_mem_nil

section Written

variable {p : Program} (hp : p.ParserShaped)
include hp

/-- Blocks have fewer functions ahead than the scopes whose outlines write them out. -/
theorem ParserShaped.functionsAhead_lt_of_writesOut {s c : ScopeId} (h : p.WritesOut s c) :
    p.functionsAhead c < p.functionsAhead s := by
  obtain ⟨d, hd, hc⟩ := h
  cases d with
  | function k =>
    obtain ⟨b, hb, hc⟩ := List.mem_flatMap.mp hc
    exact hp.functionsAhead_lt_of_block hd (Option.mem_toList.mp hb) hc
  | _ => exact absurd hc List.not_mem_nil

/-- What has the shape of a program as a parser builds it has an outline, and the outline holds a
name exactly if a scope that it writes out binds a declaration that shows one. -/
theorem ParserShaped.exists_outline {q : Program} (hq : q.skeleton = p.skeleton) :
    ∃ j, q.outline? = some j ∧
      (j.holdsName = true ↔ ∃ s, q.Written s ∧ ∃ d ∈ q.declared s, q.showsName d = true) := by
  have hrank : ∀ s c, q.WritesOut s c → p.functionsAhead c < p.functionsAhead s := by
    intro s c h
    obtain ⟨d, hd, hc⟩ := h
    rw [declared_of_skeleton_eq hq] at hd
    rw [bodyScopes_of_skeleton_eq hq] at hc
    exact hp.functionsAhead_lt_of_writesOut ⟨d, hd, hc⟩
  have hdepth : p.functionsAhead globalScope < q.functions.size + 1 := by
    have hle := p.functionsAhead_le_size globalScope
    rw [(sameFrame_of_skeleton_eq hq).functionCount]
    omega
  obtain ⟨globals, hglobals, hholds⟩ := exists_scopeOutlineUpTo hrank hdepth
  refine ⟨_, by rw [outline?, hglobals]; rfl, ?_⟩
  simpa [ShowsFrom, Written, Json.holdsName] using hholds

/-- A listed variable is declared in the scope that it is listed with. -/
theorem OwnsVariables.declaredIn (hown : p.OwnsVariables) {s : ScopeId} {d : Decl}
    (hd : d ∈ p.declared s) {x : ScopeId × VarId} (hx : x ∈ p.listed d) :
    p.DeclaredIn x.1 (.var x.2) := by
  cases d with
  | state h => exact hown _ (hp.mem_properties hd rfl) x hx
  | function h => exact hown _ (hp.mem_properties hd rfl) x hx
  | _ => exact absurd hx List.not_mem_nil

variable {r : Program} (hr : p.Signs r)
include hr

/-- Once the signatures are resolved, a variable that a reachable scope declares has a name for a
pattern exactly if the scope rejected it and it had one before. -/
theorem Signs.isNamed_iff {x : ScopeId × VarId} (hreach : p.Reachable x.1)
    (hx : p.DeclaredIn x.1 (.var x.2)) : r.isNamed x.2 = true ↔ p.LeavesName x := by
  simp only [isNamed, LeavesName, Option.isSome_iff_exists,
    hr.unresolved?_eq_some_iff hp hreach hx, exists_and_left]

end Written

end Program

/-- In what is filled without names, all expressions are resolved. -/
theorem Goal.Filled.isResolved_ownExprs {q : Program} {d : Decl} (h : Goal.nameless.Filled q d)
    {e : Expr} (he : e ∈ q.ownExprs d) : e.IsResolved := by
  cases d with
  | state k => exact h e (Option.mem_toList.mp he)
  | function k =>
    obtain ⟨b, hb, he⟩ := List.mem_flatMap.mp he
    exact (h b (Option.mem_toList.mp hb)).1 e he
  | _ => exact absurd he List.not_mem_nil

/-- Without names in its pattern and in its expressions, a declaration shows the names in the
patterns of the variables that it lists. -/
theorem Goal.Filled.showsName_iff {q : Program} {d : Decl} (h : Goal.nameless.Filled q d)
    (hpattern : (q.declPattern d).unresolved? = none) :
    q.showsName d = true ↔ ∃ x ∈ q.listed d, q.isNamed x.2 = true := by
  have hexprs : ((q.ownExprs d).any fun e => (e.outline q).holdsName) = false := by
    rw [List.any_eq_false]
    intro e he
    rw [Bool.not_eq_true, Expr.holdsName_outline_eq_false_iff]
    exact h.isResolved_ownExprs he
  rw [Program.showsName, hpattern, hexprs, Option.isSome_none, Bool.false_or, Bool.or_false,
    List.any_eq_true]

/-- A program as a parser builds it can be resolved and outlined. The outline holds a name exactly
if a property of a scope that is written out lists a variable that its scope rejected and whose
pattern was a name. Of all variables that reachable properties list, those keep a name, and the
others have none. -/
theorem holdsNode_outline_resolve_iff {p : Program} (hp : p.ParserShaped)
    (hown : p.OwnsVariables) :
    ∃ o j, Walk.resolve p = some o ∧ o.program.outline? = some j ∧
      (j.holdsNode "UnresolvedIdentity" = true ↔
        ∃ s, p.Written s ∧ ∃ d ∈ p.declared s, ∃ x ∈ p.listed d, p.LeavesName x) ∧
      ∀ s, p.Reachable s → ∀ d ∈ p.declared s, ∀ x ∈ p.listed d,
        (o.program.isNamed x.2 = true ↔ p.LeavesName x) := by
  obtain ⟨o, ho, -⟩ := Walk.keeps_pass hp .full p rfl
  have hsigns := Walk.resolve_signs hp o ho
  obtain ⟨-, hnameless⟩ := Walk.resolve_completes (Goal.nameless_plan p) o ho
  obtain ⟨j, hj, hholds⟩ := hp.exists_outline hsigns.shape
  have hnamed : ∀ s, p.Reachable s → ∀ d ∈ p.declared s, ∀ x ∈ p.listed d,
      (o.program.isNamed x.2 = true ↔ p.LeavesName x) := by
    intro s hs d hd x hx
    exact hsigns.isNamed_iff hp (hs.of_mem_listed hd hx) (hown.declaredIn hp hd hx)
  refine ⟨o, j, ho, hj, ?_, hnamed⟩
  rw [hholds, Program.written_of_skeleton_eq hsigns.shape]
  refine exists_congr fun s => and_congr_right fun hs => ?_
  rw [Program.declared_of_skeleton_eq hsigns.shape]
  refine exists_congr fun d => and_congr_right fun hd => ?_
  -- What is written out is reachable, so names are left in the patterns of listed variables only.
  have hreach : o.program.Reachable s :=
    Program.reachable_of_skeleton_eq hsigns.shape ▸ hs.reachable
  obtain ⟨hsettled, hfilled⟩ := hnameless s hreach
  have hd' : d ∈ o.program.declared s :=
    (Program.declared_of_skeleton_eq hsigns.shape s).symm ▸ hd
  rw [(hfilled d hd').showsName_iff (hsettled.2 d hd'), Program.listed_of_skeleton_eq hsigns.shape]
  exact exists_congr fun x => and_congr_right fun hx => hnamed s hs.reachable d hd x hx

/-- A function with two parameters of the same name and a loop in its body. -/
def repeatedParameter : Program :=
  let int := Pattern.unresolved ⟨"int", .dummy⟩
  let loop : Statement := .forEach ⟨2⟩ (.list [] .dummy) ⟨false, ⟨3⟩, [], .dummy⟩ .dummy
  .build [.declareFunction Program.globalScope "f" int [("x", int), ("x", int)],
    .scope (some ⟨1⟩), .scope (some ⟨2⟩), .var ⟨3⟩ ⟨"i", int, .dummy⟩,
    .body ⟨0⟩ ⟨false, ⟨2⟩, [loop], .dummy⟩]

/-- The second parameter keeps its name, and the outline shows it. -/
theorem holdsNode_outline_resolve_iff_repeatedParameter :
    repeatedParameter.ParserShaped ∧ repeatedParameter.OwnsVariables ∧
      ∃ o j, Walk.resolve repeatedParameter = some o ∧ o.program.outline? = some j ∧
        j.holdsNode "UnresolvedIdentity" = true ∧ o.program.isNamed ⟨0⟩ = false ∧
        o.program.isNamed ⟨1⟩ = true ∧ o.program.isNamed ⟨2⟩ = false := by
  have hshaped : repeatedParameter.ParserShaped := ⟨by decide +kernel, _, by decide +kernel, rfl⟩
  have hown : repeatedParameter.OwnsVariables := by decide +kernel
  obtain ⟨o, j, ho, hj, hholds, hnamed⟩ := holdsNode_outline_resolve_iff hshaped hown
  have hf : .function ⟨0⟩ ∈ repeatedParameter.declared Program.globalScope := by decide +kernel
  have hlisted : repeatedParameter.listed (.function ⟨0⟩) =
      [(⟨1⟩, ⟨0⟩), (⟨1⟩, ⟨1⟩), (⟨3⟩, ⟨2⟩)] := by decide +kernel
  have hvariable := hnamed _ (Program.reachable_globalScope _) _ hf
  rw [hlisted] at hvariable
  have hsecond : repeatedParameter.LeavesName (⟨1⟩, ⟨1⟩) := by decide +kernel
  refine ⟨hshaped, hown, o, j, ho, hj, ?_, ?_, ?_, ?_⟩
  · exact hholds.mpr ⟨_, .refl, _, hf, _, by rw [hlisted]; simp, hsecond⟩
  · rw [← Bool.not_eq_true, hvariable (⟨1⟩, ⟨0⟩) (by simp)]
    decide +kernel
  · exact (hvariable (⟨1⟩, ⟨1⟩) (by simp)).mpr hsecond
  · rw [← Bool.not_eq_true, hvariable (⟨3⟩, ⟨2⟩) (by simp)]
    decide +kernel

end EntityLang
