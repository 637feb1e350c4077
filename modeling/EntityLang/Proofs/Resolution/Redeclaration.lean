import EntityLang.Proofs.Expr.Reports
import EntityLang.Proofs.Program.Construction
import EntityLang.Proofs.Resolution.Completeness
import EntityLang.Proofs.Walk.Steps

/-!
# Rejected declarations are reported once

A program is built and resolved in any order: calls, bare declarations and passes may follow each
other as they like. A declaration that its scope rejects waits there until a pass reports it. None
is lost and none is reported twice, so the reports of redeclarations and the rejected declarations
that still wait add up to the declarations that were rejected.
-/

namespace EntityLang

namespace Table

variable {kind : NodeKind} {α β : Type}

/-- A handle out of range has no node. -/
theorem get?_of_not_lt {t : Table kind α} {h : Handle kind} (hh : ¬ h.index < t.size) :
    t.get? h = none := by
  rwa [← Option.not_isSome_iff_eq_none, isSome_get?]

/-- A change out of range is lost. -/
theorem modify_of_not_lt {t : Table kind α} {h : Handle kind} (hh : ¬ h.index < t.size)
    (g : α → α) : t.modify h g = t := by
  apply ext_get?
  intro k
  rw [get?_modify]
  by_cases hk : k = h
  · rw [if_pos hk, hk, get?_of_not_lt hh, Option.map_none]
  · rw [if_neg hk]

/-- What all nodes hold together changes by as much as what the changed node holds. -/
theorem length_flatMap_modify [Inhabited α] (f : α → List β) (g : α → α) {t : Table kind α}
    {h : Handle kind} (hh : h.index < t.size) :
    ((t.modify h g).toList.flatMap f).length + (f (t.get h)).length =
      (t.toList.flatMap f).length + (f (g (t.get h))).length := by
  obtain ⟨⟨nodes⟩⟩ := t
  obtain ⟨i⟩ := h
  change i < nodes.length at hh
  have hget : (⟨⟨nodes⟩⟩ : Table kind α).get ⟨i⟩ = nodes[i] := by
    simp [get, get?, hh]
  rw [hget]
  simp only [modify, toList, List.modify_toArray]
  clear hget
  induction nodes generalizing i with
  | nil => simp at hh
  | cons a rest ih =>
    cases i with
    | zero =>
      simp only [List.modify_zero_cons, List.flatMap_cons, List.length_append,
        List.getElem_cons_zero]
      omega
    | succ i =>
      have hrest := ih i (by simpa using hh)
      simp only [List.modify_succ_cons, List.flatMap_cons, List.length_append,
        List.getElem_cons_succ]
      omega

end Table

/-- A scope that rejects a declaration has one more waiting. -/
theorem Scope.length_rejected_declare (s : Scope) (identity : String) (b : Binding) :
    (s.declare identity b).2.rejected.length =
      s.rejected.length + (!(s.declare identity b).1).toNat := by
  unfold Scope.declare
  split
  · rfl
  · split
    · rfl
    · simp

namespace Program

/-- The number of rejected declarations that wait in the scopes. -/
def pending (p : Program) : Nat := (p.scopes.toList.flatMap Scope.rejected).length

section Pending

variable (p : Program)

/-- A declaration waits exactly if it is rejected. -/
theorem pending_declare (s : ScopeId) (b : Binding) :
    (p.declare s b).2.pending = p.pending + (!(p.declare s b).1).toNat := by
  by_cases hs : s.index < p.scopes.size
  · have htotal := Table.length_flatMap_modify Scope.rejected
      (fun t => (t.declare (p.identity b) b).2) hs
    have hlength := (p.scope s).length_rejected_declare (p.identity b) b
    simp only [pending, declare, scope] at htotal hlength ⊢
    omega
  · -- A blank scope binds nothing, so it rejects nothing, and what it would bind is lost.
    have hblank : p.scope s = default := Table.get_eq_default (Table.get?_of_not_lt hs)
    have haccepted : (p.declare s b).1 = true := by
      simp only [declare, hblank]
      rfl
    rw [haccepted]
    simp only [pending, declare, Table.modify_of_not_lt hs]
    rfl

/-- A new scope adds nothing to what waits. -/
theorem pending_addScope (parent : Option ScopeId) :
    (p.addScope parent).2.pending = p.pending := by
  simp [pending, addScope, Table.push, Table.toList]

/-- What is reported of a scope no longer waits there. -/
theorem pending_clearRejected (s : ScopeId) :
    (p.clearRejected s).pending + (p.scope s).rejected.length = p.pending := by
  by_cases hs : s.index < p.scopes.size
  · have htotal := Table.length_flatMap_modify Scope.rejected
      (fun t => { t with rejected := [] }) hs
    simpa only [pending, clearRejected, scope, List.length_nil, Nat.add_zero] using htotal
  · have hblank : p.scope s = default := Table.get_eq_default (Table.get?_of_not_lt hs)
    rw [hblank, clearRejected, Table.modify_of_not_lt hs]
    rfl

end Pending

end Program

/-! ### Attempts to declare -/

/-- A declaration about to be made: the program that holds its node already, the scope, and the
binding. -/
structure Attempt where
  program : Program
  scope : ScopeId
  binding : Binding

namespace Attempt

/-- Whether the name was free, and the program after the attempt. -/
def outcome (a : Attempt) : Bool × Program := a.program.declare a.scope a.binding

/-- The scope rejects the declaration. -/
def isRejected (a : Attempt) : Bool := !a.outcome.1

end Attempt

namespace Program

variable (p : Program)

def varAttempt (s : ScopeId) (node : Variable) : Attempt :=
  ⟨{ p with vars := p.vars.push node }, s, .decl (.var p.vars.next)⟩

def nativeAttempt (s : ScopeId) (node : NativeType) : Attempt :=
  ⟨{ p with natives := p.natives.push node }, s, .decl (.native p.natives.next)⟩

def enumAttempt (s : ScopeId) (identity : String) (values : List (String × Span)) (span : Span) :
    Attempt :=
  let nodes := values.map fun (name, place) => ⟨name, p.enums.next, place⟩
  let (handles, enumValues) := p.enumValues.pushAll nodes
  ⟨{ p with enumValues, enums := p.enums.push ⟨identity, handles, span⟩ }, s,
    .decl (.enum p.enums.next)⟩

def entityAttempt (s : ScopeId) (node : Entity) : Attempt :=
  ⟨{ p with entities := p.entities.push node }, s, .decl (.entity p.entities.next)⟩

def stateAttempt (s : ScopeId) (node : StateProperty) : Attempt :=
  ⟨{ p with states := p.states.push node }, s, .decl (.state p.states.next)⟩

def functionAttempt (s : ScopeId) (node : FunctionProperty) : Attempt :=
  ⟨{ p with functions := p.functions.push node }, s, .decl (.function p.functions.next)⟩

/-- The attempts to declare several variables, each in the program that the ones before it left. -/
def varAttempts (p : Program) (s : ScopeId) : List (String × Pattern) → List Attempt
  | [] => []
  | (identity, pattern) :: rest =>
    p.varAttempt s { identity, pattern } ::
      (p.addVar s { identity, pattern }).2.varAttempts s rest

end Program

/-- The declarations that a call attempts, in order. -/
def Call.attempts (p : Program) : Call → List Attempt
  | .scope _ | .body _ _ => []
  | .var s node => [p.varAttempt s node]
  | .native s node => [p.nativeAttempt s node]
  | .enum s identity values span => [p.enumAttempt s identity values span]
  | .entity s node => [p.entityAttempt s node]
  | .state s node => [p.stateAttempt s node]
  | .function s node => [p.functionAttempt s node]
  | .declareState s identity pattern parameters initialValue =>
    let (own, withScope) := p.addScope (some s)
    let (handles, withVars) := withScope.addVars own parameters
    withScope.varAttempts own parameters ++
      [withVars.stateAttempt s
        { identity, pattern, scope := own, parameters := handles, initialValue }]
  | .declareFunction s identity pattern parameters =>
    let (own, withScope) := p.addScope (some s)
    let (handles, withVars) := withScope.addVars own parameters
    withScope.varAttempts own parameters ++
      [withVars.functionAttempt s { identity, pattern, scope := own, parameters := handles }]

/-- The number of attempts that are rejected. -/
def Attempt.rejections (attempts : List Attempt) : Nat := attempts.countP isRejected

/-- The rejections of two lists of attempts add up. -/
theorem Attempt.rejections_append (as bs : List Attempt) :
    rejections (as ++ bs) = rejections as + rejections bs := List.countP_append

/-- An attempt that is rejected waits. -/
theorem Attempt.pending_outcome (a : Attempt) :
    a.outcome.2.pending = a.program.pending + rejections [a] := by
  refine (a.program.pending_declare a.scope a.binding).trans ?_
  cases h : a.isRejected with
  | false => simp_all [rejections, isRejected, outcome]
  | true => simp_all [rejections, isRejected, outcome]

namespace Program

/-- Declaring parameters adds to what waits the parameters that are rejected. -/
theorem pending_addVars (p : Program) (s : ScopeId) (parameters : List (String × Pattern)) :
    (p.addVars s parameters).2.pending =
      p.pending + Attempt.rejections (p.varAttempts s parameters) := by
  induction parameters generalizing p with
  | nil => rfl
  | cons parameter rest ih =>
    obtain ⟨identity, pattern⟩ := parameter
    have hfirst : (p.addVar s { identity, pattern }).2.pending =
        p.pending + Attempt.rejections [p.varAttempt s { identity, pattern }] :=
      (p.varAttempt s { identity, pattern }).pending_outcome
    calc (p.addVars s ((identity, pattern) :: rest)).2.pending
        = (p.addVar s { identity, pattern }).2.pending +
            Attempt.rejections ((p.addVar s { identity, pattern }).2.varAttempts s rest) := ih _
      _ = p.pending + Attempt.rejections (p.varAttempts s ((identity, pattern) :: rest)) := by
        rw [hfirst, Nat.add_assoc, ← Attempt.rejections_append]
        rfl

/-- The parameters of a property that are rejected wait in its new scope. -/
theorem pending_addParameters (p : Program) (s : ScopeId) (parameters : List (String × Pattern)) :
    ((p.addScope (some s)).2.addVars (p.addScope (some s)).1 parameters).2.pending =
      p.pending + Attempt.rejections
        ((p.addScope (some s)).2.varAttempts (p.addScope (some s)).1 parameters) := by
  rw [pending_addVars, pending_addScope]

end Program

/-- After a call, what it attempted in vain waits besides what waited before. -/
theorem Call.pending_run (p : Program) (call : Call) :
    (call.run p).pending = p.pending + Attempt.rejections (call.attempts p) := by
  cases call with
  | scope parent => exact p.pending_addScope parent
  | var s node => exact (p.varAttempt s node).pending_outcome
  | native s node => exact (p.nativeAttempt s node).pending_outcome
  | enum s identity values span => exact (p.enumAttempt s identity values span).pending_outcome
  | entity s node => exact (p.entityAttempt s node).pending_outcome
  | state s node => exact (p.stateAttempt s node).pending_outcome
  | function s node => exact (p.functionAttempt s node).pending_outcome
  | declareState s identity pattern parameters initialValue =>
    refine (Program.stateAttempt _ s _).pending_outcome.trans ?_
    rw [attempts, Attempt.rejections_append, ← Nat.add_assoc, ← p.pending_addParameters]
    rfl
  | declareFunction s identity pattern parameters =>
    refine (Program.functionAttempt _ s _).pending_outcome.trans ?_
    rw [attempts, Attempt.rejections_append, ← Nat.add_assoc, ← p.pending_addParameters]
    rfl
  | body h block => rfl

/-! ### Steps of a walk -/

namespace Diagnostic

/-- The reports of one kind in two lists add up. -/
theorem countOf_append (kind : DiagnosticKind) (ds es : List Diagnostic) :
    countOf kind (ds ++ es) = countOf kind ds + countOf kind es := List.countP_append

/-- A report on a name is not a report of a redeclaration. -/
theorem countOf_redeclaration_eq_zero {ds : List Diagnostic} (h : ∀ d ∈ ds, d.kind.IsNaming) :
    countOf .redeclaration ds = 0 := by
  rw [countOf, List.countP_eq_zero]
  intro d hd hkind
  have hnaming := h d hd
  rw [of_decide_eq_true hkind] at hnaming
  exact hnaming

end Diagnostic

/-- The reports of a scope are as many as the declarations that it had to reject. -/
theorem Program.countOf_rejectedReports (p : Program) (s : ScopeId) :
    Diagnostic.countOf .redeclaration (p.rejectedReports s) = (p.scope s).rejected.length := by
  rw [Diagnostic.countOf, rejectedReports, List.countP_map, List.countP_eq_length]
  intro b _
  rfl

/-- A step reports the redeclarations that do not wait any longer. -/
theorem Step.balance {q r : Program} {ds : List Diagnostic} (h : Step q ds r) :
    Diagnostic.countOf .redeclaration ds + r.pending = q.pending := by
  have hnaming {r : Program} {ds : List Diagnostic} (hscopes : r.scopes = q.scopes)
      (h : ∀ d ∈ ds, d.kind.IsNaming) :
      Diagnostic.countOf .redeclaration ds + r.pending = q.pending := by
    rw [Diagnostic.countOf_redeclaration_eq_zero h, Nat.zero_add, Program.pending, hscopes,
      Program.pending]
  cases h with
  | rejected s =>
    rw [q.countOf_rejectedReports, Nat.add_comm]
    exact q.pending_clearRejected s
  | pattern s d =>
    refine hnaming (by cases d <;> rfl) fun d hd => ?_
    obtain ⟨-, -, -, hkind⟩ := Pattern.mem_reports_resolve hd
    exact hkind
  | expr s hint e =>
    refine hnaming rfl fun d hd => ?_
    obtain ⟨-, -, -, -, hkind⟩ := Expr.exists_reportedOn hd
    exact hkind
  | value hv => exact hnaming rfl (by simp)
  | body hb => exact hnaming rfl (by simp)
  | phase phase => exact hnaming rfl (by simp)

/-- What steps report as redeclarations no longer waits, and nothing else changes what waits. -/
theorem Steps.balance {q r : Program} {ds : List Diagnostic} (h : Steps q ds r) :
    Diagnostic.countOf .redeclaration ds + r.pending = q.pending := by
  induction h with
  | refl q => exact Nat.zero_add _
  | head hstep _ ih =>
    have hfirst := hstep.balance
    rw [Diagnostic.countOf_append]
    omega

/-! ### Histories -/

/-- What can be done with a program: build on it, declare something, or run a pass. -/
inductive Action where
  | call (call : Call)
  | declare (scope : ScopeId) (binding : Binding)
  | pass (pass : Pass)

/-- A program with all that was reported on it and the number of declarations that were rejected. -/
structure History where
  program : Program := .fresh
  reports : List Diagnostic := []
  rejections : Nat := 0

/-- The history after an action; a pass may have no end. -/
def Action.run (h : History) : Action → Option History
  | .call c => some
    { h with
      program := c.run h.program
      rejections := h.rejections + Attempt.rejections (c.attempts h.program) }
  | .declare s b =>
    let a : Attempt := ⟨h.program, s, b⟩
    some { h with program := a.outcome.2, rejections := h.rejections + Attempt.rejections [a] }
  | .pass x => (x.walk h.program).map fun o =>
    { h with program := o.program, reports := h.reports ++ o.reports }

namespace History

/-- The history of actions from the program that declares the intrinsic types only. -/
def after (actions : List Action) : Option History := actions.foldlM Action.run {}

/-- What was reported and what waits add up to what was rejected. -/
def Balanced (h : History) : Prop :=
  Diagnostic.countOf .redeclaration h.reports + h.program.pending = h.rejections

/-- An action keeps the balance. -/
theorem Balanced.run {h k : History} (hh : h.Balanced) {a : Action} (hrun : a.run h = some k) :
    k.Balanced := by
  unfold Balanced at hh ⊢
  cases a with
  | call call =>
    obtain rfl := Option.some.inj hrun
    have hpending := Call.pending_run h.program call
    dsimp only
    omega
  | declare s b =>
    obtain rfl := Option.some.inj hrun
    have hpending := (Attempt.mk h.program s b).pending_outcome
    dsimp only at hpending ⊢
    omega
  | pass pass =>
    obtain ⟨o, ho, rfl⟩ := Option.map_eq_some_iff.mp hrun
    have hsteps := (Walk.stepwise_pass pass h.program o ho).1.balance
    dsimp only
    rw [Diagnostic.countOf_append]
    omega

/-- Actions in turn keep the balance. -/
theorem Balanced.foldlM {h k : History} (hh : h.Balanced) {actions : List Action}
    (hrun : actions.foldlM Action.run h = some k) : k.Balanced := by
  induction actions generalizing h with
  | nil => exact Option.some.inj hrun ▸ hh
  | cons a rest ih =>
    rw [List.foldlM_cons, Option.bind_eq_bind, Option.bind_eq_some_iff] at hrun
    obtain ⟨first, hfirst, hrest⟩ := hrun
    exact ih (hh.run hfirst) hrest

/-- Nothing is rejected among the intrinsic types. -/
theorem balanced_start : History.Balanced {} := by
  change 0 + Program.fresh.pending = 0
  decide +kernel

end History

/-- Whatever is done with a program, each declaration that was rejected was reported once or still
waits, and right after the program was resolved none waits in a scope that is reached from the
global one. -/
theorem redeclarations_reported_once {actions : List Action} {h : History}
    (hrun : History.after actions = some h) :
    Diagnostic.countOf .redeclaration h.reports + h.program.pending = h.rejections ∧
      (actions.getLast? = some (.pass .full) →
        ∀ s, h.program.Reachable s → (h.program.scope s).rejected = []) := by
  refine ⟨History.balanced_start.foldlM hrun, fun hlast s hs => ?_⟩
  obtain ⟨earlier, rfl⟩ := List.getLast?_eq_some_iff.mp hlast
  rw [History.after, List.foldlM_append, Option.bind_eq_bind, Option.bind_eq_some_iff] at hrun
  obtain ⟨k, -, hpass⟩ := hrun
  rw [List.foldlM_cons, Option.bind_eq_bind, Option.bind_eq_some_iff] at hpass
  obtain ⟨k', hpass, heq⟩ := hpass
  obtain rfl := Option.some.inj heq
  obtain ⟨o, ho, rfl⟩ := Option.map_eq_some_iff.mp hpass
  obtain ⟨-, hcomplete⟩ := Walk.resolve_completes (Goal.nameless_plan k.program) o ho
  exact (hcomplete s hs).1.1

/-- Redeclarations in the global scope, in a scope that two states share and in one that nothing
leads to, with passes in between. -/
def scattered : List Action :=
  let variableIn (s : ScopeId) (identity : String) : Action :=
    .call (.var s ⟨identity, .int, .dummy⟩)
  let stateOver (own : ScopeId) (identity : String) : Action :=
    .call (.state Program.globalScope ⟨identity, .int, own, [], none, .dummy⟩)
  [variableIn ⟨0⟩ "x", variableIn ⟨0⟩ "x", .pass .signatures, .declare ⟨0⟩ (.decl (.var ⟨1⟩)),
    .call (.scope (some ⟨0⟩)), stateOver ⟨1⟩ "first", stateOver ⟨1⟩ "second", variableIn ⟨1⟩ "y",
    variableIn ⟨1⟩ "y", .pass .bodies, .call (.scope (some ⟨1⟩)), variableIn ⟨2⟩ "z",
    variableIn ⟨2⟩ "z", .pass .full]

/-- Of the four declarations that are rejected, three are reported, and one waits where nothing
leads to. -/
theorem redeclarations_reported_once_scattered :
    ∃ h, History.after scattered = some h ∧ h.rejections = 4 ∧
      Diagnostic.countOf .redeclaration h.reports = 3 ∧ h.program.pending = 1 ∧
      Diagnostic.countOf .redeclaration h.reports + h.program.pending = h.rejections ∧
      ∀ s, h.program.Reachable s → (h.program.scope s).rejected = [] := by
  have hcounts : (History.after scattered).map (fun h => (h.rejections,
      Diagnostic.countOf .redeclaration h.reports, h.program.pending)) = some (4, 3, 1) := by
    decide +kernel
  obtain ⟨h, hrun, hcounts⟩ := Option.map_eq_some_iff.mp hcounts
  obtain ⟨hrejections, hrest⟩ := Prod.mk.inj hcounts
  obtain ⟨hcount, hpending⟩ := Prod.mk.inj hrest
  obtain ⟨hbalance, hsettled⟩ := redeclarations_reported_once hrun
  exact ⟨h, hrun, hrejections, hcount, hpending, hbalance, hsettled rfl⟩

end EntityLang
