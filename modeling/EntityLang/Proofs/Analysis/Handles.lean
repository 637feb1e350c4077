import EntityLang.Proofs.Checking.Extension
import EntityLang.Proofs.Outline.Extension
import EntityLang.Proofs.Walk.Extension

/-!
# Handles never dangle

A program is made by edits and passes in any order. If the handles that an edit is given have nodes
at the time of the edit, every program that is made like this is intact. Whatever is done with it
then stays away from handles without a node: lookups, inference, resolving, checks and outlines are
the same in every larger program, where other nodes stand in those places.
-/

namespace EntityLang

/-- What is done to a program: it is edited or resolved. -/
inductive Operation where
  | edit (edit : Edit)
  | pass (pass : Pass)

/-- The program after an operation, if the handles of an edit have nodes or a pass ends. -/
def Operation.run? (p : Program) : Operation → Option Program
  | .edit e => if Within p.count e.refs then some (e.run p) else none
  | .pass x => (x.walk p).map Outcome.program

namespace Program

/-- Everything that is done with the first program goes the same way in the second one, provided
that it starts from handles with nodes. If the second program extends the first one in any way, a
handle without a node is read nowhere, since there may be any node in its place. -/
structure ReadsAlike (p q : Program) : Prop where
  fetch : ∀ s : ScopeId, s.index < p.scopes.size → ∀ identity,
    q.fetch s identity = p.fetch s identity
  fetchOverloads : ∀ s : ScopeId, s.index < p.scopes.size → ∀ identity,
    q.fetchOverloads s identity = p.fetchOverloads s identity
  fetchProperty : ∀ s : ScopeId, s.index < p.scopes.size → ∀ identity,
    q.fetchProperty s identity = p.fetchProperty s identity
  enumValuesInReach : ∀ s : ScopeId, s.index < p.scopes.size → ∀ identity,
    q.enumValuesInReach s identity = p.enumValuesInReach s identity
  /-- Inference, and its result is in range. -/
  pattern : ∀ e : Expr, Within p.count e.refs →
    e.pattern q = e.pattern p ∧ Within p.count (e.pattern p).refs
  /-- Resolving an expression, and its result is in range. -/
  resolve : ∀ s : ScopeId, s.index < p.scopes.size → ∀ e : Expr, Within p.count e.refs →
    ∀ hint : Option Pattern, (∀ x ∈ hint, Within p.count x.refs) →
    e.resolve q s hint = e.resolve p s hint ∧ Within p.count (e.resolve p s hint).value.refs
  /-- Resolving the program: both passes end or none of them does. -/
  pass : ∀ pass : Pass, Option.Rel
    (fun o o' => o'.reports = o.reports ∧ o.program.Intact ∧ o.program.Extends o'.program)
    (pass.walk p) (pass.walk q)
  check : ∀ depth (s : ScopeId), s.index < p.scopes.size →
    q.checkScopeUpTo depth s = p.checkScopeUpTo depth s
  outline : ∀ depth (s : ScopeId), s.index < p.scopes.size →
    q.scopeOutlineUpTo depth s = p.scopeOutlineUpTo depth s

/-- An intact program reads like every program that extends it. -/
theorem Intact.readsAlike {p q : Program} (hp : p.Intact) (h : p.Extends q) : p.ReadsAlike q where
  fetch _ hs identity := ((h.agree hp hs).fetch identity).symm
  fetchOverloads _ hs identity := by
    rw [Program.fetchOverloads, Program.fetchOverloads, (h.agree hp hs).fetch]
  fetchProperty _ hs identity := ((h.agree hp hs).fetchProperty identity).symm
  enumValuesInReach _ hs identity := ((h.agree hp hs).enumValuesInReach identity).symm
  pattern _ he := ⟨h.pattern_eq he, hp.pattern he⟩
  resolve _ hs _ he _ hhint := ⟨h.resolve_eq hp hs he hhint, hp.resolve hs he hhint⟩
  pass := h.pass hp
  check depth _ hs := h.checkScopeUpTo_eq hp depth hs
  outline depth _ hs := h.scopeOutlineUpTo_eq hp depth hs

/-- One operation keeps a program intact. -/
theorem Intact.operation {p q : Program} (hp : p.Intact) {x : Operation} (h : x.run? p = some q) :
    q.Intact := by
  cases x with
  | edit e =>
    rw [Operation.run?, Option.ite_none_right_eq_some] at h
    obtain ⟨he, hq⟩ := h
    exact Option.some.inj hq ▸ hp.run he
  | pass pass =>
    obtain ⟨o, ho, rfl⟩ := Option.map_eq_some_iff.mp h
    -- The pass goes along with itself.
    have hrel := (extends_refl p).pass hp pass
    rw [ho] at hrel
    cases hrel with
    | some hrel => exact hrel.2.1

/-- Operations in turn keep a program intact. -/
theorem Intact.operations {operations : List Operation} {p q : Program} (hp : p.Intact)
    (h : operations.foldlM Operation.run? p = some q) : q.Intact := by
  induction operations generalizing p with
  | nil => exact Option.some.inj h ▸ hp
  | cons x rest ih =>
    obtain ⟨r, hr, hrest⟩ := Option.bind_eq_some_iff.mp h
    exact ih (hp.operation hr) hrest

end Program

/-- Handles never dangle: in a program that is made by edits and passes, every handle is in range,
parents come before the scopes inside them, the values that an enum lists are its own, chains of
parents end, and nothing reads a node that is not there. -/
theorem handles_never_dangle {operations : List Operation} {p : Program}
    (h : operations.foldlM Operation.run? .fresh = some p) :
    (∀ r ∈ p.refs, r.index < p.count r.kind) ∧
    (∀ s t, (p.scope s).parent = some t → t.index < s.index) ∧
    (∀ e, ∀ v ∈ (p.enum e).values, (p.enumValue v).owner = e) ∧
    (∀ s : ScopeId, s.index < p.scopes.size → p.ChainEnds s) ∧
    ∀ q, p.Extends q → p.ReadsAlike q := by
  have hp := Program.intact_fresh.operations h
  exact ⟨hp.ranged, hp.parent, hp.owner, fun _ => hp.chainEnds, fun _ => hp.readsAlike⟩

/-- An enum, a state and a function with a body, changed again after a pass in various ways. -/
def repainted : List Operation :=
  let color := Pattern.unresolved ⟨"Color", .dummy⟩
  let named (name : String) : Expr := .unresolved ⟨name, .dummy⟩ .dummy
  [.edit (.call (.enum Program.globalScope "Color" [("red", .dummy), ("green", .dummy)] .dummy)),
    .edit (.call (.declareState Program.globalScope "tint" color [("of", color)] none)),
    .edit (.call (.declareFunction Program.globalScope "pick" color [])),
    .edit (.call (.scope (some ⟨2⟩))),
    .edit (.call (.body ⟨0⟩ (.ofResult ⟨3⟩ (named "red")))),
    .pass .full,
    .edit (.initialValue ⟨0⟩ (some (named "green"))),
    .edit (.declare Program.globalScope (.decl (.state ⟨0⟩))),
    .edit (.bind ⟨3⟩ "red" (.decl (.var ⟨0⟩))),
    .pass .signatures,
    .pass .bodies]

/-- After passes and changes in turn, the new initial value is resolved and no handle dangles. -/
theorem handles_never_dangle_repainted :
    ∃ p, repainted.foldlM Operation.run? .fresh = some p ∧
      (p.state ⟨0⟩).initialValue.bind Expr.enumValue? = some ⟨1⟩ ∧
      (∀ r ∈ p.refs, r.index < p.count r.kind) ∧ ∀ q, p.Extends q → p.ReadsAlike q := by
  have hmade : (repainted.foldlM Operation.run? .fresh).any (fun p =>
      decide ((p.state ⟨0⟩).initialValue.bind Expr.enumValue? = some ⟨1⟩)) = true := by
    decide +kernel
  obtain ⟨p, hp, hvalue⟩ := (Option.any_eq_true _ _).mp hmade
  obtain ⟨hranged, -, -, -, halike⟩ := handles_never_dangle hp
  exact ⟨p, hp, of_decide_eq_true hvalue, hranged, halike⟩

end EntityLang
