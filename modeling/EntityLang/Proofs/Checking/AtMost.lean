import EntityLang.Checking.Program
import EntityLang.Proofs.Program.Reach

/-!
# Comparing what checks find

One check finds at most what another one finds if it finishes whenever the other one does, and then
reports the same kinds of problems at the same places, in the same order, with some of them left
out. The wording of the messages is not compared. There is one rule for each way to build a check.

The check of a part finds at most what the check of the whole finds, so whatever the check of a
program reaches is clean if the check of the program is.
-/

namespace EntityLang

/-- What kind of problem is reported, and where. -/
def Diagnostic.gist (d : Diagnostic) : DiagnosticKind × Span := (d.kind, d.span)

namespace Findings

/-- The first check finds at most what the second one finds. -/
def AtMost (f g : Findings) : Prop :=
  ∀ ds, g = .found ds →
    ∃ ds', f = .found ds' ∧ (ds'.map Diagnostic.gist).Sublist (ds.map Diagnostic.gist)

variable {f f' g g' h : Findings}

/-- A check finds at most what it finds. -/
theorem AtMost.refl (f : Findings) : f.AtMost f := fun ds hf => ⟨ds, hf, .refl _⟩

/-- Being at most something is transitive. -/
theorem AtMost.trans (hfg : f.AtMost g) (hgh : g.AtMost h) : f.AtMost h := by
  intro ds hds
  obtain ⟨ds₁, hg, hsub₁⟩ := hgh ds hds
  obtain ⟨ds₂, hf, hsub₂⟩ := hfg ds₁ hg
  exact ⟨ds₂, hf, hsub₂.trans hsub₁⟩

/-- What finds at most nothing is clean. -/
theorem AtMost.eq_clean (hfg : f.AtMost g) (hg : g = clean) : f = clean := by
  obtain ⟨ds, hf, hsub⟩ := hfg [] hg
  simp only [List.map_nil, List.sublist_nil, List.map_eq_nil_iff] at hsub
  rw [hf, hsub]
  rfl

/-- A check that finds nothing finds at most anything. -/
theorem clean_atMost (g : Findings) : clean.AtMost g := fun _ _ => ⟨[], rfl, List.nil_sublist _⟩

/-- A check that does not finish is no bound. -/
theorem atMost_halted (f : Findings) (cause : Halt) : f.AtMost (.halted cause) := by
  intro ds hds
  exact absurd hds (by simp)

/-- Checks in turn are compared one by one. -/
theorem AtMost.append (hf : f.AtMost f') (hg : g.AtMost g') : (f ++ g).AtMost (f' ++ g') := by
  intro ds hds
  obtain ⟨first', second', hf', hg', rfl⟩ := (append_eq_found_iff f' g' ds).mp hds
  obtain ⟨first, rfl, hfirst⟩ := hf first' hf'
  obtain ⟨second, rfl, hsecond⟩ := hg second' hg'
  refine ⟨first ++ second, rfl, ?_⟩
  rw [List.map_append, List.map_append]
  exact hfirst.append hsecond

/-- A clean check at the end adds nothing. -/
@[simp] theorem append_clean (f : Findings) : f ++ clean = f := by
  cases f <;> simp [clean]

/-- A clean check at the start adds nothing. -/
@[simp] theorem clean_append (f : Findings) : clean ++ f = f := by
  cases f <;> simp [clean]

/-- The first of two checks finds at most what both find. -/
theorem atMost_append_left (f g : Findings) : f.AtMost (f ++ g) := by
  have h := (AtMost.refl f).append (clean_atMost g)
  rwa [append_clean] at h

/-- The second of two checks finds at most what both find. -/
theorem atMost_append_right (f g : Findings) : g.AtMost (f ++ g) := by
  have h := (clean_atMost f).append (AtMost.refl g)
  rwa [clean_append] at h

/-- A condition that is met whenever another one is leads to at most the same report. -/
theorem atMost_require {a b : Bool} (hab : b = true → a = true) {problem problem' : Problem}
    (hkind : problem.kind = problem'.kind) (span : Span) :
    (require a problem span).AtMost (require b problem' span) := by
  cases a with
  | true => exact clean_atMost _
  | false =>
    cases b with
    | true => exact absurd (hab rfl) (by decide)
    | false =>
      intro ds hds
      obtain rfl := Findings.found.inj hds
      refine ⟨[problem.reportAt span], rfl, ?_⟩
      simp [Diagnostic.gist, Problem.reportAt, hkind]

section Lists

variable {α : Type} {check check' : α → Findings} {as : List α}

/-- The checks of the members of a list are compared one by one. -/
theorem atMost_forEach (h : ∀ a ∈ as, (check a).AtMost (check' a)) :
    (forEach check as).AtMost (forEach check' as) := by
  induction as with
  | nil => exact AtMost.refl _
  | cons a rest ih =>
    rw [List.forall_mem_cons] at h
    exact h.1.append (ih h.2)

/-- The check of a member finds at most what the checks of all members find. -/
theorem member_atMost_forEach (check : α → Findings) {a : α} (ha : a ∈ as) :
    (check a).AtMost (forEach check as) := by
  induction as with
  | nil => simp at ha
  | cons b rest ih =>
    obtain rfl | ha := List.mem_cons.mp ha
    · exact atMost_append_left _ _
    · exact (ih ha).trans (atMost_append_right _ _)

end Lists

end Findings

open Findings (AtMost atMost_append_left atMost_append_right)

section Blocks

variable (p : Program) (enter : ScopeId → Findings)

mutual

/-- The check of a scope that a block enters finds at most what the check of the block finds. -/
theorem Block.enter_atMost_check (outer : ScopeId) (hinted : Bool) : (b : Block) → {o c : ScopeId} →
    .enter o c ∈ b.sites outer hinted → (enter c).AtMost (b.check p enter)
  | ⟨singleton, scope, statements, span⟩, o, c, hc => by
    rw [Block.sites, List.mem_cons, Site.enter.injEq] at hc
    rw [Block.check]
    obtain ⟨-, rfl⟩ | hc := hc
    · exact atMost_append_left _ _
    · exact (Statement.enter_atMost_checkAll scope _ statements hc).trans (atMost_append_right _ _)

/-- The check of a scope that a statement enters finds at most what the check of the statement
finds. -/
theorem Statement.enter_atMost_check (s : ScopeId) (hinted : Bool) : (statement : Statement) →
    {o c : ScopeId} → .enter o c ∈ statement.sites s hinted →
    (enter c).AtMost (statement.check p enter)
  | .expr value, o, c, hc => by simp [Statement.sites] at hc
  | .block body, o, c, hc => Block.enter_atMost_check s false body hc
  | .cond branches otherwise span, o, c, hc => by
    rw [Statement.sites, List.mem_append] at hc
    rw [Statement.check]
    obtain hc | hc := hc
    · exact (Statement.enter_atMost_checkBranches s branches hc).trans (atMost_append_left _ _)
    · exact (Statement.enter_atMost_checkOtherwise s otherwise hc).trans (atMost_append_right _ _)
  | .forEach item range body span, o, c, hc => by
    rw [Statement.sites, List.mem_cons] at hc
    have hbody := hc.resolve_left (by simp)
    exact (Block.enter_atMost_check s false body hbody).trans (atMost_append_right _ _)
  | .assign subject value span, o, c, hc => by simp [Statement.sites] at hc
  | .declare target value span, o, c, hc => by simp [Statement.sites] at hc

/-- The check of a scope that statements enter finds at most what their checks find. -/
theorem Statement.enter_atMost_checkAll (s : ScopeId) (hinted : Bool) :
    (statements : List Statement) → {o c : ScopeId} →
    .enter o c ∈ Statement.sitesAll s hinted statements →
    (enter c).AtMost (Statement.checkAll p enter statements)
  | [], o, c, hc => by simp [Statement.sitesAll] at hc
  | statement :: rest, o, c, hc => by
    rw [Statement.sitesAll, List.mem_append] at hc
    rw [Statement.checkAll]
    obtain hc | hc := hc
    · exact (Statement.enter_atMost_check s _ statement hc).trans (atMost_append_left _ _)
    · exact (Statement.enter_atMost_checkAll s hinted rest hc).trans (atMost_append_right _ _)

/-- The check of a scope that branches enter finds at most what their checks find. -/
theorem Statement.enter_atMost_checkBranches (s : ScopeId) : (branches : List (Branch Block)) →
    {o c : ScopeId} → .enter o c ∈ Statement.sitesBranches s branches →
    (enter c).AtMost (Statement.checkBranches p enter branches)
  | [], o, c, hc => by simp [Statement.sitesBranches] at hc
  | ⟨condition, body, span⟩ :: rest, o, c, hc => by
    rw [Statement.sitesBranches, List.mem_cons, List.mem_append] at hc
    rw [Statement.checkBranches]
    obtain hc | hc := hc.resolve_left (by simp)
    · exact ((Block.enter_atMost_check s false body hc).trans (atMost_append_right _ _)).trans
        (atMost_append_left _ _)
    · exact (Statement.enter_atMost_checkBranches s rest hc).trans (atMost_append_right _ _)

/-- The check of a scope that the last block of a conditional enters finds at most what the check of
the block finds. -/
theorem Statement.enter_atMost_checkOtherwise (s : ScopeId) : (otherwise : Option Block) →
    {o c : ScopeId} → .enter o c ∈ Statement.sitesOtherwise s otherwise →
    (enter c).AtMost (Statement.checkOtherwise p enter otherwise)
  | none, o, c, hc => by simp [Statement.sitesOtherwise] at hc
  | some body, o, c, hc => Block.enter_atMost_check s false body hc

end

/-- The check of the value that a block stands for finds at most what the check of the block
finds. -/
theorem Block.result_atMost_check {b : Block} {e : Expr} (he : b.result? = some e) :
    (e.check p).AtMost (b.check p enter) := by
  have hmem := Block.mem_statements_of_result? he
  obtain ⟨singleton, scope, statements, span⟩ := b
  rw [Block.check, Statement.checkAll_eq_forEach]
  exact (Findings.member_atMost_forEach (Statement.check p enter) hmem).trans
    (atMost_append_right _ _)

end Blocks

namespace Program

variable (p : Program) (enter : ScopeId → Findings)

/-- The check of what a declaration leads into finds at most what the check of the declaration
finds. -/
theorem enter_atMost_checkDecl {d : Decl} {t : ScopeId} (ht : p.Enters (fun _ => False) d t) :
    (enter t).AtMost (p.checkDecl enter d) := by
  cases ht with
  | own ht =>
    cases d with
    | state h =>
      obtain rfl := Option.some.inj ht
      exact (atMost_append_right _ _).trans (atMost_append_left _ _)
    | function h =>
      obtain rfl := Option.some.inj ht
      exact (atMost_append_right _ _).trans (atMost_append_left _ _)
    | _ => simp [ownScope?] at ht
  | @block h b c _ hb hc =>
    obtain ⟨o, ho⟩ := (b.mem_scopes_iff (p.function h).scope true t).mp hc
    have hblock := Block.enter_atMost_check p enter _ true b ho
    simp only [checkDecl, checkFunction, hb]
    exact (hblock.trans (atMost_append_left _ _)).trans (atMost_append_right _ _)

/-- The check of a declaration that a name stands for finds at most what the check of the binding
finds; the check of an overload set with other members than functions does not finish. -/
theorem checkDecl_atMost_checkBinding {b : Binding} {d : Decl} (hd : d ∈ b.overloads) :
    (p.checkDecl enter d).AtMost (p.checkBinding enter b) := by
  cases b with
  | decl e =>
    obtain rfl : d = e := by simpa [Binding.overloads] using hd
    exact AtMost.refl _
  | overloaded identity members =>
    rw [Binding.overloads, Binding.overloadsAll_eq_flatMap, List.mem_flatMap] at hd
    obtain ⟨m, hm, hd⟩ := hd
    refine AtMost.trans ?_ (Findings.member_atMost_forEach _ hm)
    cases m with
    | decl e =>
      obtain rfl : d = e := by simpa [Binding.overloads] using hd
      cases d with
      | function h => exact AtMost.refl _
      | _ => exact Findings.atMost_halted _ _
    | overloaded _ _ => exact Findings.atMost_halted _ _

/-- The check of a declaration bound in a scope finds at most what the check of the scope finds. -/
theorem checkDecl_atMost_checkScopeUpTo {s : ScopeId} {d : Decl} (hd : d ∈ p.declared s)
    (depth : Nat) :
    (p.checkDecl (p.checkScopeUpTo depth) d).AtMost (p.checkScopeUpTo (depth + 1) s) := by
  obtain ⟨b, hb, hd⟩ := List.mem_flatMap.mp hd
  exact (p.checkDecl_atMost_checkBinding _ hd).trans (Findings.member_atMost_forEach _ hb)

/-- The check of everything that is bound in a reachable scope finds at most what the check of the
program finds. -/
theorem checkDecl_atMost_check {s : ScopeId} (hs : p.Reachable s) {ds : List Diagnostic}
    (h : p.check = .found ds) {d : Decl} (hd : d ∈ p.declared s) :
    ∃ depth, (p.checkDecl (p.checkScopeUpTo depth) d).AtMost p.check := by
  suffices hscope : ∃ depth, (p.checkScopeUpTo (depth + 1) s).AtMost p.check by
    obtain ⟨depth, hdepth⟩ := hscope
    exact ⟨depth, (p.checkDecl_atMost_checkScopeUpTo hd depth).trans hdepth⟩
  clear hd d
  induction hs with
  | refl => exact ⟨p.propertyCount, AtMost.refl _⟩
  | tail _ hstep ih =>
    obtain ⟨d, hd, ht⟩ := hstep
    obtain ⟨depth, hdepth⟩ := ih
    have hent := ((p.enter_atMost_checkDecl _ ht).trans
      (p.checkDecl_atMost_checkScopeUpTo hd depth)).trans hdepth
    -- The check has finished, so it did not run out of depth here.
    cases depth with
    | zero =>
      obtain ⟨_, hfound, -⟩ := hent ds h
      exact absurd hfound (by simp [checkScopeUpTo])
    | succ depth => exact ⟨depth, hent⟩

end Program

end EntityLang
