import EntityLang.Proofs.Program.Cells
import EntityLang.Proofs.Program.Reach
import EntityLang.Proofs.Walk.Rules
import EntityLang.Resolution.Pass

/-!
# Walks step by step

All that a walk does to a program is made of steps of six kinds, each with what it reports. A fact
that every step respects therefore holds of every walk that ends, whatever scopes it meets and how
often.

The walk of a block is described once for every way of reasoning about walks that passes through
sequencing (`Walk.Logic`): it ends with a block of the same skeleton.
-/

namespace EntityLang

/-- One step of a walk: the program before it, what it reports and the program after it. -/
inductive Step (q : Program) : List Diagnostic → Program → Prop
  /-- Report what a scope had to reject, and forget it. -/
  | rejected (s : ScopeId) : Step q (q.rejectedReports s) (q.clearRejected s)
  /-- Resolve the pattern of a declaration in a scope. -/
  | pattern (s : ScopeId) (d : Decl) :
    Step q ((q.declPattern d).resolve q s).reports
      (q.setDeclPattern d ((q.declPattern d).resolve q s).value)
  /-- Resolve an expression in a scope. -/
  | expr (s : ScopeId) (hint : Option Pattern) (e : Expr) : Step q (e.resolve q s hint).reports q
  /-- Write the initial value of a state back. -/
  | value {h : StateId} {v : Option Expr} (hv : v.isSome = (q.state h).initialValue.isSome) :
    Step q [] (q.setInitialValue h v)
  /-- Write the body of a function back. -/
  | body {h : FunctionId} {b : Block}
    (hb : (q.function h).body.map Block.skeleton = some b.skeleton) : Step q [] (q.setBody h b)
  /-- Record how far the program is resolved. -/
  | phase (phase : Phase) : Step q [] { q with phase }

/-- Steps in turn, with all that they report. -/
inductive Steps : Program → List Diagnostic → Program → Prop
  | refl (q : Program) : Steps q [] q
  | head {q r t : Program} {ds es : List Diagnostic} (hstep : Step q ds r) (hrest : Steps r es t) :
    Steps q (ds ++ es) t

/-- One step is steps. -/
theorem Step.steps {q r : Program} {ds : List Diagnostic} (h : Step q ds r) : Steps q ds r := by
  simpa using Steps.head h (.refl r)

/-- Steps compose, and their reports follow each other. -/
theorem Steps.trans {q r t : Program} {ds es : List Diagnostic} (h : Steps q ds r)
    (h' : Steps r es t) : Steps q (ds ++ es) t := by
  induction h with
  | refl => exact h'
  | head hstep _ ih =>
    rw [List.append_assoc]
    exact .head hstep (ih h')

/-- No step changes the shape of the program. -/
theorem Step.skeleton_eq {q r : Program} {ds : List Diagnostic} (h : Step q ds r) :
    r.skeleton = q.skeleton := by
  cases h with
  | rejected s => exact q.skeleton_clearRejected s
  | pattern s d => exact q.skeleton_setDeclPattern d _
  | expr s hint e => rfl
  | value hv => exact q.skeleton_setInitialValue _ _ hv
  | body hb => exact q.skeleton_setBody _ _ hb
  | phase => rfl

/-- Steps keep the shape of the program. -/
theorem Steps.skeleton_eq {q r : Program} {ds : List Diagnostic} (h : Steps q ds r) :
    r.skeleton = q.skeleton := by
  induction h with
  | refl => rfl
  | head hstep _ ih => exact ih.trans hstep.skeleton_eq

/-- Resolving an expression that may be missing takes a step or none. -/
theorem steps_resolveOption (q : Program) (s : ScopeId) (hint : Option Pattern)
    (value : Option Expr) : Steps q (Expr.resolveOption q s hint value).reports q := by
  cases value with
  | none => exact .refl q
  | some e => simpa [Expr.resolveOption_reports] using (Step.expr s hint e).steps

namespace Walk

/-- A way of reasoning about walks: what `Holds` says of a walk and its value is true of a value
that is just returned, of an expression that is resolved, and of two walks in turn. -/
structure Logic where
  Holds : {α : Type} → Walk α → (α → Prop) → Prop
  holds_pure : ∀ {α : Type} {a : α} {Q : α → Prop}, Q a → Holds (pure a) Q
  holds_reporting : ∀ {α : Type} {f : Program → Reported α} {Q : α → Prop},
    (∀ q, Steps q (f q).reports q) → (∀ q, Q (f q).value) → Holds (reporting f) Q
  holds_bind : ∀ {α β : Type} {x : Walk α} {f : α → Walk β} {Q : α → Prop} {Q' : β → Prop},
    Holds x Q → (∀ a, Q a → Holds (f a) Q') → Holds (x >>= f) Q'

namespace Logic

variable (L : Logic)

/-- Resolve an expression and go on with whatever it has become. -/
theorem holds_resolve_bind {α : Type} {e : Expr} {s : ScopeId} {hint : Program → Option Pattern}
    {f : Expr → Walk α} {Q : α → Prop} (h : ∀ e', L.Holds (f e') Q) :
    L.Holds (reporting (fun p => e.resolve p s (hint p)) >>= f) Q :=
  L.holds_bind (Q := fun _ => True)
    (L.holds_reporting (fun q => (Step.expr s (hint q) e).steps) fun _ => trivial) fun e' _ => h e'

variable {enter : ScopeId → Walk Unit}

mutual

/-- The walk of a block keeps the skeleton, if entering the scopes of the block is in order. -/
theorem holds_block (outer : ScopeId) (hint : Option Pattern) : (b : Block) →
    (∀ o c, .enter o c ∈ b.sites outer false → L.Holds (enter c) fun _ => True) →
    L.Holds (b.resolve enter hint) fun b' => b'.skeleton = b.skeleton
  | ⟨singleton, scope, statements, span⟩, h => by
    rw [Block.resolve]
    refine L.holds_bind (h outer scope List.mem_cons_self) fun _ _ => ?_
    have hstatements := holds_statements scope (if singleton then hint else none) statements
      fun o c hc => h o c (List.mem_cons_of_mem _ hc)
    refine L.holds_bind hstatements fun statements' heq => L.holds_pure ?_
    rw [Block.skeleton, Block.skeleton, heq]

/-- The walk of a statement keeps the skeleton. -/
theorem holds_statement (s : ScopeId) (hint : Option Pattern) : (statement : Statement) →
    (∀ o c, .enter o c ∈ statement.sites s false → L.Holds (enter c) fun _ => True) →
    L.Holds (statement.resolve enter s hint) fun st => st.skeleton = statement.skeleton
  | .expr value, _ => by
    rw [Statement.resolve]
    exact L.holds_resolve_bind fun _ => L.holds_pure rfl
  | .block body, h => by
    rw [Statement.resolve]
    refine L.holds_bind (holds_block s none body h) fun body' heq => L.holds_pure ?_
    rw [Statement.skeleton, Statement.skeleton, heq]
  | .cond branches otherwise span, h => by
    rw [Statement.resolve]
    have hbranches := holds_branches s branches fun o c hc => h o c (List.mem_append_left _ hc)
    have hotherwise := holds_otherwise s otherwise fun o c hc =>
      h o c (List.mem_append_right _ hc)
    refine L.holds_bind hbranches fun branches' heq =>
      L.holds_bind hotherwise fun otherwise' heq' => L.holds_pure ?_
    rw [Statement.skeleton, Statement.skeleton, heq, heq']
  | .forEach item range body span, h => by
    rw [Statement.resolve]
    have hbody := holds_block s none body fun o c hc => h o c (List.mem_cons_of_mem _ hc)
    refine L.holds_resolve_bind fun _ => L.holds_bind hbody fun body' heq => L.holds_pure ?_
    rw [Statement.skeleton, Statement.skeleton, heq]
  | .assign subject value span, _ => by
    rw [Statement.resolve]
    exact L.holds_resolve_bind fun _ => L.holds_resolve_bind fun _ => L.holds_pure rfl
  | .declare target value span, _ => by
    rw [Statement.resolve]
    refine L.holds_bind (Q := fun v => v.isSome = value.isSome)
      (L.holds_reporting (fun q => steps_resolveOption q s _ value) fun q => ?_)
      fun v hv => L.holds_pure ?_
    · rw [Expr.resolveOption_value, Option.isSome_map]
    · cases v <;> cases value <;> simp_all [Statement.skeleton]

/-- The walk of statements keeps their skeletons. -/
theorem holds_statements (s : ScopeId) (hint : Option Pattern) : (statements : List Statement) →
    (∀ o c, .enter o c ∈ Statement.sitesAll s false statements →
      L.Holds (enter c) fun _ => True) →
    L.Holds (Statement.resolveAll enter s hint statements) fun sts =>
      Statement.skeletonAll sts = Statement.skeletonAll statements
  | [], _ => L.holds_pure rfl
  | statement :: rest, h => by
    rw [Statement.resolveAll]
    have hstatement := holds_statement s (if rest.isEmpty then hint else none) statement
      fun o c hc => h o c (List.mem_append_left _ hc)
    have hrest := holds_statements s hint rest fun o c hc => h o c (List.mem_append_right _ hc)
    refine L.holds_bind hstatement fun statement' heq => L.holds_bind hrest fun rest' heq' =>
      L.holds_pure ?_
    rw [Statement.skeletonAll, Statement.skeletonAll, heq, heq']

/-- The walk of branches keeps their skeletons. -/
theorem holds_branches (s : ScopeId) : (branches : List (Branch Block)) →
    (∀ o c, .enter o c ∈ Statement.sitesBranches s branches → L.Holds (enter c) fun _ => True) →
    L.Holds (Statement.resolveBranches enter s branches) fun bs =>
      Statement.skeletonBranches bs = Statement.skeletonBranches branches
  | [], _ => L.holds_pure rfl
  | ⟨condition, body, span⟩ :: rest, h => by
    rw [Statement.resolveBranches]
    have hbody := holds_block s none body fun o c hc =>
      h o c (List.mem_cons_of_mem _ (List.mem_append_left _ hc))
    have hrest := holds_branches s rest fun o c hc =>
      h o c (List.mem_cons_of_mem _ (List.mem_append_right _ hc))
    refine L.holds_resolve_bind fun _ => L.holds_bind hbody fun body' heq =>
      L.holds_bind hrest fun rest' heq' => L.holds_pure ?_
    rw [Statement.skeletonBranches, Statement.skeletonBranches, heq, heq']

/-- The walk of the last block of a conditional keeps its skeleton. -/
theorem holds_otherwise (s : ScopeId) : (otherwise : Option Block) →
    (∀ o c, .enter o c ∈ Statement.sitesOtherwise s otherwise →
      L.Holds (enter c) fun _ => True) →
    L.Holds (Statement.resolveOtherwise enter otherwise) fun b =>
      Statement.skeletonOtherwise b = Statement.skeletonOtherwise otherwise
  | none, _ => L.holds_pure rfl
  | some body, h => by
    rw [Statement.resolveOtherwise]
    refine L.holds_bind (holds_block s none body h) fun body' heq => L.holds_pure ?_
    rw [Statement.skeletonOtherwise, Statement.skeletonOtherwise, heq]

end

end Logic

/-- Whatever outcome the walk has, steps lead to it, and its value satisfies `Q`. -/
def Stepwise {α : Type} (x : Walk α) (Q : α → Prop) : Prop :=
  ∀ q, x.Ensures q fun o => Steps q o.reports o.program ∧ Q o.value

section Stepwise

variable {α β : Type}

/-- A walk that only returns a good value is stepwise. -/
theorem stepwise_pure {a : α} {Q : α → Prop} (h : Q a) : (pure a : Walk α).Stepwise Q :=
  fun q => ensures_pure ⟨.refl q, h⟩

/-- A walk that does not end is stepwise. -/
theorem stepwise_endless {Q : α → Prop} : (endless : Walk α).Stepwise Q :=
  fun _ => ensures_endless

/-- A walk that only reads is stepwise. -/
theorem stepwise_read (f : Program → α) : (read f).Stepwise fun _ => True :=
  fun q => ensures_read ⟨.refl q, trivial⟩

/-- A change that is a step without a report is stepwise. -/
theorem stepwise_update {f : Program → Program} (h : ∀ q, Step q [] (f q)) :
    (update f).Stepwise fun _ => True :=
  fun q => ensures_update ⟨(h q).steps, trivial⟩

/-- Stepwise walks one after the other are stepwise. -/
theorem stepwise_bind {x : Walk α} {f : α → Walk β} {Q : α → Prop} {Q' : β → Prop}
    (hx : x.Stepwise Q) (hf : ∀ a, Q a → (f a).Stepwise Q') : (x >>= f).Stepwise Q' := by
  intro q
  apply ensures_bind
  refine (hx q).imp fun first hfirst => ?_
  refine (hf first.value hfirst.2 first.program).imp fun second hsecond => ?_
  exact ⟨hfirst.1.trans hsecond.1, hsecond.2⟩

/-- Stepwise visits in turn are stepwise. -/
theorem stepwise_forEach {visit : α → Walk Unit} (h : ∀ a, (visit a).Stepwise fun _ => True)
    (as : List α) : (forEach visit as).Stepwise fun _ => True := by
  induction as with
  | nil => exact stepwise_pure trivial
  | cons a rest ih => exact stepwise_bind (h a) fun _ _ => ih

/-- Steps as a way of reasoning about walks. -/
def stepwise : Logic where
  Holds := Stepwise
  holds_pure := stepwise_pure
  holds_reporting hsteps hQ := fun q => ensures_reporting ⟨hsteps q, hQ q⟩
  holds_bind := stepwise_bind

end Stepwise

/-! ### The walks of a pass -/

/-- Reporting what a scope had to reject is a step. -/
theorem stepwise_reportRejected (s : ScopeId) : (reportRejected s).Stepwise fun _ => True := by
  intro q
  refine ensures_bind (ensures_reporting (ensures_update ⟨?_, trivial⟩))
  simpa using (Step.rejected (q := q) s).steps

/-- Resolving the pattern of a declaration is a step, before whatever comes next. -/
theorem stepwise_pattern_bind (s : ScopeId) (d : Decl) {next : Walk Unit}
    (hnext : next.Stepwise fun _ => True) :
    (reporting (fun p => (p.declPattern d).resolve p s) >>= fun x =>
      update (fun p => p.setDeclPattern d x) >>= fun _ => next).Stepwise fun _ => True := by
  intro q
  refine ensures_bind (ensures_reporting (ensures_bind (ensures_update ?_)))
  exact (hnext _).imp fun o ho => ⟨(Step.pattern s d).steps.trans ho.1, trivial⟩

/-- The signatures of a declaration, and of its scope if the visit of that one is stepwise. -/
theorem stepwise_declSignature {visit : ScopeId → Walk Unit}
    (hvisit : ∀ t, (visit t).Stepwise fun _ => True) (s : ScopeId) (d : Decl) :
    (declSignature visit s d).Stepwise fun _ => True := by
  cases d with
  | var h => exact stepwise_pattern_bind s (.var h) (stepwise_pure trivial)
  | state h =>
    exact stepwise_pattern_bind s (.state h)
      (stepwise_bind (stepwise_read _) fun t _ => hvisit t)
  | function h =>
    exact stepwise_pattern_bind s (.function h)
      (stepwise_bind (stepwise_read _) fun t _ => hvisit t)
  | _ => exact stepwise_pure trivial

/-- The walk of signatures is stepwise, to any depth. -/
theorem stepwise_signaturesUpTo (depth : Nat) (s : ScopeId) :
    (signaturesUpTo depth s).Stepwise fun _ => True := by
  induction depth generalizing s with
  | zero => exact stepwise_endless
  | succ depth ih =>
    exact stepwise_bind (stepwise_reportRejected s) fun _ _ =>
      stepwise_bind (stepwise_read _) fun decls _ =>
        stepwise_forEach (stepwise_declSignature ih s) decls

/-- The walk of the signatures from a scope on is stepwise. -/
theorem stepwise_signatures (s : ScopeId) : (signatures s).Stepwise fun _ => True :=
  fun q => stepwise_signaturesUpTo q.signatureDepth s q

/-- Resolving an initial value and writing it back are two steps. -/
theorem stepwise_initialValue (h : StateId) : (initialValue h).Stepwise fun _ => True := by
  intro q
  refine ensures_bind (ensures_reporting (ensures_update ⟨?_, trivial⟩))
  refine (steps_resolveOption q _ _ (q.state h).initialValue).trans (Step.value ?_).steps
  rw [Expr.resolveOption_value, Option.isSome_map]

/-- The body that is written back has the skeleton of the body that was read, and the steps between
the two left that one in place. -/
theorem stepwise_functionBody {enter : ScopeId → Walk Unit}
    (henter : ∀ c, (enter c).Stepwise fun _ => True) (h : FunctionId) :
    (functionBody enter h).Stepwise fun _ => True := by
  intro q
  refine ensures_bind (ensures_read ?_)
  cases hbody : (q.function h).body with
  | none => exact ensures_pure ⟨.refl q, trivial⟩
  | some body =>
    have hblock := stepwise.holds_block (q.function h).scope (some (q.function h).pattern) body
      fun _ c _ => henter c
    refine ensures_bind ((hblock q).imp fun o ho => ensures_update ⟨?_, trivial⟩)
    refine ho.1.trans (Step.body ?_).steps
    rw [Program.body_of_skeleton_eq ho.1.skeleton_eq h, hbody, Option.map_some, ho.2]

/-- The bodies of a declaration, if the visits of scopes are stepwise. -/
theorem stepwise_declBody {visit : List FunctionId → ScopeId → Walk Unit}
    (hvisit : ∀ busy t, (visit busy t).Stepwise fun _ => True) (busy : List FunctionId) (d : Decl) :
    (declBody visit busy d).Stepwise fun _ => True := by
  cases d with
  | state h =>
    exact stepwise_bind (stepwise_read _) fun t _ =>
      stepwise_bind (hvisit busy t) fun _ _ => stepwise_initialValue h
  | function h =>
    refine stepwise_bind (stepwise_read _) fun t _ => stepwise_bind (hvisit busy t) fun _ _ => ?_
    by_cases hbusy : h ∈ busy
    · rw [if_pos hbusy]
      exact stepwise_pure trivial
    · rw [if_neg hbusy]
      exact stepwise_functionBody (fun c =>
        stepwise_bind (stepwise_signatures c) fun _ _ => hvisit (h :: busy) c) h
  | _ => exact stepwise_pure trivial

/-- The walk of bodies is stepwise, to any depth. -/
theorem stepwise_bodiesUpTo (depth : Nat) (busy : List FunctionId) (s : ScopeId) :
    (bodiesUpTo depth busy s).Stepwise fun _ => True := by
  induction depth generalizing busy s with
  | zero => exact stepwise_endless
  | succ depth ih =>
    exact stepwise_bind (stepwise_read _) fun decls _ =>
      stepwise_forEach (stepwise_declBody ih busy) decls

/-- The walk of the bodies from a scope on is stepwise. -/
theorem stepwise_bodies (s : ScopeId) : (bodies s).Stepwise fun _ => True :=
  fun q => stepwise_bodiesUpTo q.bodyDepth [] s q

/-- Every pass goes step by step. -/
theorem stepwise_pass (pass : Pass) : pass.walk.Stepwise fun _ => True := by
  have hsignatures : signaturePass.Stepwise fun _ => True :=
    stepwise_bind (stepwise_signatures _) fun _ _ => stepwise_update fun q => .phase _
  have hbodies : bodyPass.Stepwise fun _ => True :=
    stepwise_bind (stepwise_bodies _) fun _ _ => stepwise_update fun q => .phase _
  cases pass with
  | signatures => exact hsignatures
  | bodies => exact hbodies
  | full => exact stepwise_bind hsignatures fun _ _ => hbodies

end Walk

end EntityLang
