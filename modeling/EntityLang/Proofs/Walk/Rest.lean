import EntityLang.Proofs.Block.Resolved
import EntityLang.Proofs.Pattern.Resolved
import EntityLang.Proofs.Walk.Rules
import EntityLang.Resolution.Pass

/-!
# Walks that find nothing to do

A program is at rest if in everything reachable nothing is rejected, patterns are resolved, and
expressions are what they become when they are resolved. A pass over such a program writes
everything back as it was and reports nothing.
-/

namespace EntityLang

open Relation (ReflTransGen)

namespace Walk

variable {α β : Type} {r : Program}

/-- If the walk ends, it has the value `a`, leaves the program as it was, and reports nothing. -/
def Rests (x : Walk α) (r : Program) (a : α) : Prop := x.Ensures r fun o => o = ⟨a, r, []⟩

/-- A walk that only returns a value rests. -/
theorem rests_pure (a : α) : (pure a : Walk α).Rests r a := ensures_pure rfl

/-- A walk that only reads rests. -/
theorem rests_read (f : Program → α) : (read f).Rests r (f r) := ensures_read rfl

/-- A change that leaves the program as it was rests. -/
theorem rests_update {f : Program → Program} (h : f r = r) : (update f).Rests r () :=
  ensures_update (by rw [h])

/-- A walk that has nothing to report rests. -/
theorem rests_reporting {f : Program → Reported α} {a : α} (h : f r = ⟨a, []⟩) :
    (reporting f).Rests r a :=
  ensures_reporting (by rw [h])

/-- Two walks in turn rest if both do. -/
theorem Rests.bind {x : Walk α} {f : α → Walk β} {a : α} {b : β} (hx : x.Rests r a)
    (hf : (f a).Rests r b) : (x >>= f).Rests r b := by
  apply ensures_bind
  intro first hfirst
  obtain rfl := hx first hfirst
  exact hf.imp fun second hsecond => by rw [hsecond, List.nil_append]

/-- A walk over a list rests if each visit does. -/
theorem rests_forEach {visit : α → Walk Unit} {as : List α} (h : ∀ a ∈ as, (visit a).Rests r ()) :
    (forEach visit as).Rests r () := by
  induction as with
  | nil => exact rests_pure ()
  | cons a rest ih =>
    rw [List.forall_mem_cons] at h
    exact h.1.bind (ih h.2)

end Walk

/-- There is nothing to do at the site: entering its scope rests, or its expression is what it
becomes when it is resolved, without reports. -/
def Site.Rests (enter : ScopeId → Walk Unit) (r : Program) (hint : Option Pattern) : Site → Prop
  | .enter _ c => (enter c).Rests r ()
  | .eval s expected e => e.resolve r s (expected.hint r hint) = ⟨e, []⟩
  | .declare _ _ => True

namespace Walk

section Blocks

variable {enter : ScopeId → Walk Unit} {r : Program} {hint : Option Pattern}

mutual

/-- The walk of a block rests if there is nothing to do at its sites. -/
theorem rests_block (outer : ScopeId) (hinted : Bool) : (b : Block) →
    (∀ x ∈ b.sites outer hinted, x.Rests enter r hint) →
    (b.resolve enter (if hinted then hint else none)).Rests r b
  | ⟨singleton, scope, statements, span⟩, h => by
    rw [Block.sites, List.forall_mem_cons] at h
    rw [Block.resolve, hint_of_result]
    have hstatements := rests_statements scope (hinted && singleton) statements h.2
    exact Rests.bind h.1 (hstatements.bind (rests_pure _))

/-- The walk of a statement rests if there is nothing to do at its sites. -/
theorem rests_statement (s : ScopeId) (hinted : Bool) : (statement : Statement) →
    (∀ x ∈ statement.sites s hinted, x.Rests enter r hint) →
    (statement.resolve enter s (if hinted then hint else none)).Rests r statement
  | .expr value, h => by
    have hvalue := h _ List.mem_cons_self
    rw [Statement.resolve]
    refine (rests_reporting ?_).bind (rests_pure _)
    cases hinted <;> exact hvalue
  | .block body, h => by
    rw [Statement.resolve]
    exact (rests_block s false body h).bind (rests_pure _)
  | .cond branches otherwise span, h => by
    rw [Statement.sites, List.forall_mem_append] at h
    rw [Statement.resolve]
    exact (rests_branches s branches h.1).bind ((rests_otherwise s otherwise h.2).bind
      (rests_pure _))
  | .forEach item range body span, h => by
    rw [Statement.sites, List.forall_mem_cons] at h
    have hrange : (reporting fun p => range.resolve p s none).Rests r range := rests_reporting h.1
    rw [Statement.resolve]
    exact hrange.bind ((rests_block s false body h.2).bind (rests_pure _))
  | .assign subject value span, h => by
    have hsubject : (reporting fun p => subject.resolve p s none).Rests r subject :=
      rests_reporting (h _ List.mem_cons_self)
    have hvalue : (reporting fun p => value.resolve p s (some (subject.pattern p))).Rests r value :=
      rests_reporting (h _ (List.mem_cons_of_mem _ List.mem_cons_self))
    rw [Statement.resolve]
    exact hsubject.bind (hvalue.bind (rests_pure _))
  | .declare target value span, h => by
    rw [Statement.resolve]
    refine (rests_reporting ?_).bind (rests_pure _)
    cases value with
    | none => rfl
    | some e =>
      have he : e.resolve r s (some (r.var target).pattern) = ⟨e, []⟩ :=
        h (.eval s (.declared target) e) (List.mem_cons_of_mem _ List.mem_cons_self)
      rw [Expr.resolveOption, he]
      rfl

/-- The walk of statements rests if there is nothing to do at their sites. -/
theorem rests_statements (s : ScopeId) (hinted : Bool) : (statements : List Statement) →
    (∀ x ∈ Statement.sitesAll s hinted statements, x.Rests enter r hint) →
    (Statement.resolveAll enter s (if hinted then hint else none) statements).Rests r statements
  | [], _ => by
    rw [Statement.resolveAll]
    exact rests_pure _
  | statement :: rest, h => by
    rw [Statement.sitesAll, List.forall_mem_append] at h
    rw [Statement.resolveAll, hint_of_result]
    exact (rests_statement s _ statement h.1).bind ((rests_statements s hinted rest h.2).bind
      (rests_pure _))

/-- The walk of branches rests if there is nothing to do at their sites. -/
theorem rests_branches (s : ScopeId) : (branches : List (Branch Block)) →
    (∀ x ∈ Statement.sitesBranches s branches, x.Rests enter r hint) →
    (Statement.resolveBranches enter s branches).Rests r branches
  | [], _ => by
    rw [Statement.resolveBranches]
    exact rests_pure _
  | ⟨condition, body, span⟩ :: rest, h => by
    rw [Statement.sitesBranches, List.forall_mem_cons, List.forall_mem_append] at h
    obtain ⟨hcondition, hbody, hrest⟩ := h
    have hhead : (reporting fun p => condition.resolve p s (some .bool)).Rests r condition :=
      rests_reporting hcondition
    rw [Statement.resolveBranches]
    exact hhead.bind ((rests_block s false body hbody).bind
      ((rests_branches s rest hrest).bind (rests_pure _)))

/-- The walk of the last block of a conditional rests if there is nothing to do at its sites. -/
theorem rests_otherwise (s : ScopeId) : (otherwise : Option Block) →
    (∀ x ∈ Statement.sitesOtherwise s otherwise, x.Rests enter r hint) →
    (Statement.resolveOtherwise enter otherwise).Rests r otherwise
  | none, _ => by
    rw [Statement.resolveOtherwise]
    exact rests_pure _
  | some body, h => by
    rw [Statement.resolveOtherwise]
    exact (rests_block s false body h).bind (rests_pure _)

end

end Blocks

end Walk

/-- Resolving gives the site back. -/
def Site.Fixed (r : Program) (hint : Option Pattern) (x : Site) : Prop := x.resolve r hint = x

/-- At a fixed expression there is nothing to do and nothing to report. -/
theorem Site.Fixed.resolve_eq {r : Program} {hint : Option Pattern} {s : ScopeId}
    {expected : Expectation} {e : Expr} (h : (Site.eval s expected e).Fixed r hint) :
    e.resolve r s (expected.hint r hint) = ⟨e, []⟩ := by
  obtain ⟨-, hexpected, hvalue⟩ := Site.eval.inj h
  rw [hexpected] at hvalue
  exact Expr.Fixed.resolve_eq hvalue

/-- There is nothing to do in anything that the global scope reaches. -/
structure Program.AtRest (r : Program) : Prop where
  phase : r.phase = .resolved
  /-- Nothing is rejected. -/
  rejected : ∀ s, r.Reachable s → (r.scope s).rejected = []
  /-- Patterns are resolved. -/
  pattern : ∀ s, r.Reachable s → ∀ d ∈ r.declared s, (r.declPattern d).unresolved? = none
  /-- Initial values are fixed. -/
  value : ∀ s, r.Reachable s → ∀ h, .state h ∈ r.declared s →
    ∀ e, (r.state h).initialValue = some e →
      (Site.eval (r.state h).scope .result e).Fixed r (some (r.state h).pattern)
  /-- Bodies are fixed. -/
  body : ∀ s, r.Reachable s → ∀ h, .function h ∈ r.declared s →
    ∀ b, (r.function h).body = some b → ∀ x ∈ b.sites (r.function h).scope true,
      x.Fixed r (some (r.function h).pattern)

namespace Walk

variable {r : Program} (hr : r.AtRest)
include hr

/-- The signature walk of a declaration rests if the walk of its scope does. -/
theorem rests_declSignature {visit : ScopeId → Walk Unit} {s : ScopeId} (hs : r.Reachable s)
    {d : Decl} (hd : d ∈ r.declared s)
    (hvisit : ∀ t, r.ownScope? d = some t → (visit t).Rests r ()) :
    (declSignature visit s d).Rests r () := by
  have hpattern := Pattern.resolve_of_unresolved?_eq_none (hr.pattern s hs d hd) r s
  have hwrite := r.setDeclPattern_self d
  cases d with
  | var h => exact (rests_reporting hpattern).bind (rests_update hwrite)
  | state h =>
    exact (rests_reporting hpattern).bind ((rests_update hwrite).bind
      ((rests_read _).bind (hvisit _ rfl)))
  | function h =>
    exact (rests_reporting hpattern).bind ((rests_update hwrite).bind
      ((rests_read _).bind (hvisit _ rfl)))
  | _ => exact rests_pure ()

/-- The signature walk of a reachable scope rests. -/
theorem rests_signaturesUpTo (depth : Nat) {s : ScopeId} (hs : r.Reachable s) :
    (signaturesUpTo depth s).Rests r () := by
  induction depth generalizing s with
  | zero => exact ensures_endless
  | succ depth ih =>
    have hreports : (⟨(), r.rejectedReports s⟩ : Reported Unit) = ⟨(), []⟩ := by
      rw [Program.rejectedReports, hr.rejected s hs]
      rfl
    have hreport : (reportRejected s).Rests r () :=
      (rests_reporting hreports).bind
        (rests_update (r.clearRejected_eq_self s (hr.rejected s hs)))
    have hdecls : (forEach (declSignature (signaturesUpTo depth) s) (r.declared s)).Rests r () :=
      rests_forEach fun d hd => rests_declSignature hr hs hd fun t ht =>
        ih (hs.enter hd (.own ht))
    rw [signaturesUpTo]
    exact hreport.bind ((rests_read _).bind hdecls)

/-- Resolving the signatures of a reachable scope again rests. -/
theorem rests_signatures {s : ScopeId} (hs : r.Reachable s) : (signatures s).Rests r () :=
  rests_signaturesUpTo hr r.signatureDepth hs

/-- Resolving the initial value of a reachable state again rests. -/
theorem rests_initialValue {s : ScopeId} (hs : r.Reachable s) {h : StateId}
    (hd : .state h ∈ r.declared s) : (initialValue h).Rests r () := by
  have hvalue : Expr.resolveOption r (r.state h).scope (some (r.state h).pattern)
      (r.state h).initialValue = ⟨(r.state h).initialValue, []⟩ := by
    cases he : (r.state h).initialValue with
    | none => rfl
    | some e =>
      have hfixed : e.resolve r (r.state h).scope (some (r.state h).pattern) = ⟨e, []⟩ :=
        (hr.value s hs h hd e he).resolve_eq
      rw [Expr.resolveOption, hfixed]
      rfl
  exact (rests_reporting hvalue).bind (rests_update (r.setInitialValue_self h))

/-- Resolving the body of a reachable function again rests if entering its blocks does. -/
theorem rests_functionBody {enter : ScopeId → Walk Unit} {s : ScopeId} (hs : r.Reachable s)
    {h : FunctionId} (hd : .function h ∈ r.declared s)
    (henter : ∀ b, (r.function h).body = some b → ∀ c ∈ b.scopes, (enter c).Rests r ()) :
    (functionBody enter h).Rests r () := by
  refine (rests_read _).bind ?_
  cases hb : (r.function h).body with
  | none => exact rests_pure ()
  | some b =>
    have hsites : ∀ x ∈ b.sites (r.function h).scope true,
        x.Rests enter r (some (r.function h).pattern) := by
      intro x hx
      cases x with
      | enter o c => exact henter b hb c ((b.mem_scopes_iff _ true c).mpr ⟨o, hx⟩)
      | eval t expected e => exact (hr.body s hs h hd b hb _ hx).resolve_eq
      | declare t v => trivial
    exact (rests_block _ true b hsites).bind (rests_update (r.setBody_eq_self h b hb))

/-- The body walk of a reachable scope rests. -/
theorem rests_bodiesUpTo (depth : Nat) (busy : List FunctionId) {s : ScopeId}
    (hs : r.Reachable s) : (bodiesUpTo depth busy s).Rests r () := by
  induction depth generalizing busy s with
  | zero => exact ensures_endless
  | succ depth ih =>
    have hdecls : (forEach (declBody (bodiesUpTo depth) busy) (r.declared s)).Rests r () := by
      apply rests_forEach
      intro d hd
      cases d with
      | state h =>
        have hown := ih busy (hs.enter hd (.own rfl))
        exact (rests_read _).bind (hown.bind (rests_initialValue hr hs hd))
      | function h =>
        have hown := ih busy (hs.enter hd (.own rfl))
        refine (rests_read _).bind (hown.bind ?_)
        split
        · exact rests_pure ()
        · refine rests_functionBody hr hs hd fun b hb c hc => ?_
          have hinner := hs.enter hd (.block not_false hb hc)
          exact (rests_signatures hr hinner).bind (ih (h :: busy) hinner)
      | _ => exact rests_pure ()
    rw [bodiesUpTo]
    exact (rests_read _).bind hdecls

/-- Any pass over a program at rest rests. -/
theorem rests_pass (pass : Pass) : pass.walk.Rests r () := by
  have hglobal := r.reachable_globalScope
  have hsignatures : signaturePass.Rests r () := by
    refine (rests_signatures hr hglobal).bind (rests_update ?_)
    rw [hr.phase, Phase.afterSignatures, ← hr.phase]
  have hbodies : bodyPass.Rests r () := by
    have hwalk : (bodies Program.globalScope).Rests r () :=
      rests_bodiesUpTo hr r.bodyDepth [] hglobal
    refine hwalk.bind (rests_update ?_)
    rw [← hr.phase]
  cases pass with
  | signatures => exact hsignatures
  | bodies => exact hbodies
  | full => exact hsignatures.bind hbodies

end Walk

end EntityLang
