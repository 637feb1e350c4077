import EntityLang.Proofs.Block.Sites
import EntityLang.Proofs.Walk.Rules
import EntityLang.Resolution.Body
import Mathlib.Data.List.Forall2

/-!
# The walk of a block

The walk of a block enters the scopes in it and resolves its expressions one after the other, each
against the program as it is at that moment. What entering a scope does is a parameter. A course
says how programs may move meanwhile, when a scope is ready for expressions to be resolved in it,
and what is true of a scope once it has been entered. The outcome has the same skeleton, and each of
its expressions was resolved at a moment when its scope was ready.
-/

namespace EntityLang

/-- How programs move during a walk, and what is known of scopes on the way. -/
structure Walk.Course where
  /-- One program may become the other. -/
  Move : Program → Program → Prop
  /-- Expressions may be resolved in the scope. -/
  Ready : Program → ScopeId → Prop
  /-- The scope has been entered. -/
  Entered : Program → ScopeId → Prop
  refl : ∀ q, Move q q
  trans : ∀ {q r t}, Move q r → Move r t → Move q t
  ready : ∀ {q r s}, Move q r → Ready q s → Ready r s
  entered : ∀ {q r s}, Move q r → Entered q s → Entered r s

/-- The second site is the first one with its expression resolved at some moment after `q` at which
the scope was ready. -/
def Site.Becomes (C : Walk.Course) (q : Program) (hint : Option Pattern) : Site → Site → Prop
  | .eval s expected e, y =>
    ∃ r, C.Move q r ∧ C.Ready r s ∧ y = (Site.eval s expected e).resolve r hint
  | x, y => y = x

namespace Walk

/-- Each scope among the sites can be entered at any later moment at which its outer scope is ready,
and is ready afterwards. -/
def CanEnter (C : Course) (enter : ScopeId → Walk Unit) (q : Program) (sites : List Site) : Prop :=
  ∀ outer c, .enter outer c ∈ sites → ∀ r, C.Move q r → C.Ready r outer →
    (enter c).Ensures r fun o =>
      C.Move r o.program ∧ C.Ready o.program c ∧ C.Entered o.program c

/-- From `q` to `r` the sites `xs` were visited, and became `ys`. -/
structure Visited (C : Course) (hint : Option Pattern) (q r : Program) (xs ys : List Site) :
    Prop where
  move : C.Move q r
  entered : ∀ outer c, .enter outer c ∈ xs → C.Entered r c
  becomes : List.Forall₂ (Site.Becomes C q hint) xs ys

variable {C : Course} {enter : ScopeId → Walk Unit} {hint : Option Pattern}

/-- Fewer scopes can still be entered after a move. -/
theorem CanEnter.mono {q r : Program} {sites sites' : List Site} (h : CanEnter C enter q sites)
    (hqr : C.Move q r) (hsites : ∀ x ∈ sites', x ∈ sites) : CanEnter C enter r sites' :=
  fun outer c hc t ht => h outer c (hsites _ hc) t (C.trans hqr ht)

/-- A site that became another one after `r` did so after any earlier moment. -/
theorem becomes_mono {q r : Program} {x y : Site} (hqr : C.Move q r)
    (h : Site.Becomes C r hint x y) : Site.Becomes C q hint x y := by
  cases x with
  | eval s expected e =>
    obtain ⟨t, hrt, ht, rfl⟩ := h
    exact ⟨t, C.trans hqr hrt, ht, rfl⟩
  | _ => exact h

/-- Each site is one that some site has become. -/
theorem exists_becomes {q : Program} {xs ys : List Site}
    (h : List.Forall₂ (Site.Becomes C q hint) xs ys) {y : Site} (hy : y ∈ ys) :
    ∃ x ∈ xs, Site.Becomes C q hint x y := by
  induction h with
  | nil => simp at hy
  | @cons x y' xs ys hxy _ ih =>
    rcases List.mem_cons.mp hy with rfl | hy
    · exact ⟨x, List.mem_cons_self, hxy⟩
    · obtain ⟨x', hx', hbecomes⟩ := ih hy
      exact ⟨x', List.mem_cons_of_mem _ hx', hbecomes⟩

/-- An expression of a site that was visited is the outcome of resolving some expression in the
same scope at a moment when the scope was ready. -/
theorem exists_resolve {q : Program} {xs ys : List Site}
    (h : List.Forall₂ (Site.Becomes C q hint) xs ys) {s : ScopeId} {expected : Expectation}
    {e : Expr} (he : .eval s expected e ∈ ys) :
    ∃ expected₀ e₀ r, .eval s expected₀ e₀ ∈ xs ∧ C.Move q r ∧ C.Ready r s ∧
      .eval s expected e = (Site.eval s expected₀ e₀).resolve r hint := by
  obtain ⟨x, hx, hbecomes⟩ := exists_becomes h he
  cases x with
  | eval s₀ expected₀ e₀ =>
    obtain ⟨r, hr, hready, heq⟩ := hbecomes
    obtain ⟨rfl, -, -⟩ := Site.eval.inj heq
    exact ⟨expected₀, e₀, r, hx, hr, hready, heq⟩
  | _ => exact absurd hbecomes (by simp [Site.Becomes])

/-- If each site can become one thing only, the sites become just that. -/
theorem eq_map_of_becomes {q : Program} {xs ys : List Site} {f : Site → Site}
    (h : List.Forall₂ (Site.Becomes C q hint) xs ys)
    (hf : ∀ x ∈ xs, ∀ y, Site.Becomes C q hint x y → y = f x) : ys = xs.map f := by
  induction h with
  | nil => rfl
  | @cons x y xs ys hxy _ ih =>
    rw [List.forall_mem_cons] at hf
    rw [List.map_cons, hf.1 y hxy, ih hf.2]

/-- Nothing is visited on the spot. -/
theorem Visited.nil (q : Program) : Visited C hint q q [] [] := ⟨C.refl q, by simp, .nil⟩

/-- An expression is resolved on the spot. -/
theorem Visited.eval {q : Program} {s : ScopeId} (hs : C.Ready q s) (expected : Expectation)
    (e : Expr) :
    Visited C hint q q [.eval s expected e] [(Site.eval s expected e).resolve q hint] :=
  ⟨C.refl q, by simp, .cons ⟨q, C.refl q, hs, rfl⟩ .nil⟩

/-- A site that only names a variable stays. -/
theorem Visited.stay (q : Program) (x : Site) (hexpr : x.expr? = none)
    (henter : x.entered? = none) : Visited C hint q q [x] [x] := by
  cases x with
  | enter outer scope => simp [Site.entered?] at henter
  | eval scope expected expr => simp [Site.expr?] at hexpr
  | _ => exact ⟨C.refl q, by simp, .cons rfl .nil⟩

/-- A scope is entered. -/
theorem Visited.scope {q r : Program} {outer c : ScopeId} (hmove : C.Move q r)
    (hc : C.Entered r c) : Visited C hint q r [.enter outer c] [.enter outer c] := by
  refine ⟨hmove, ?_, .cons rfl .nil⟩
  intro o d hd
  simp only [List.mem_singleton, Site.enter.injEq] at hd
  exact hd.2 ▸ hc

/-- Sites are visited one after the other. -/
theorem Visited.append {q r t : Program} {xs xs' ys ys' : List Site}
    (hx : Visited C hint q r xs ys) (hx' : Visited C hint r t xs' ys') :
    Visited C hint q t (xs ++ xs') (ys ++ ys') := by
  refine ⟨C.trans hx.move hx'.move, ?_, ?_⟩
  · intro outer c hc
    rcases List.mem_append.mp hc with hc | hc
    · exact C.entered hx'.move (hx.entered outer c hc)
    · exact hx'.entered outer c hc
  · exact List.rel_append hx.becomes (hx'.becomes.imp fun _ _ => becomes_mono hx.move)

mutual

/-- The walk of a block visits its sites and keeps its skeleton. -/
theorem block_visits (outer : ScopeId) (hinted : Bool) :
    (b : Block) → {q : Program} → C.Ready q outer →
    CanEnter C enter q (b.sites outer hinted) →
    (b.resolve enter (if hinted then hint else none)).Ensures q fun o =>
      o.value.skeleton = b.skeleton ∧
        Visited C hint q o.program (b.sites outer hinted) (o.value.sites outer hinted)
  | ⟨singleton, scope, statements, span⟩, q, hq, henter => by
    rw [Block.sites] at henter
    rw [Block.resolve, hint_of_result]
    apply ensures_bind
    intro first hfirst
    obtain ⟨hmove, hready, hscope⟩ :=
      henter outer scope List.mem_cons_self q (C.refl q) hq first hfirst
    apply ensures_bind
    have hrest := statements_visit scope (hinted && singleton) statements hready
      (henter.mono hmove fun x hx => List.mem_cons_of_mem _ hx)
    refine hrest.imp fun second hsecond => ensures_pure ⟨?_, ?_⟩
    · rw [Block.skeleton, Block.skeleton, hsecond.1]
    · exact (Visited.scope hmove hscope).append hsecond.2

/-- The walk of a statement visits its sites and keeps its skeleton. -/
theorem statement_visits (s : ScopeId) (hinted : Bool) :
    (statement : Statement) → {q : Program} → C.Ready q s →
    CanEnter C enter q (statement.sites s hinted) →
    (statement.resolve enter s (if hinted then hint else none)).Ensures q fun o =>
      o.value.skeleton = statement.skeleton ∧
        Visited C hint q o.program (statement.sites s hinted) (o.value.sites s hinted)
  | .expr value, q, hq, _ => by
    rw [Statement.resolve]
    refine ensures_bind (ensures_reporting (ensures_pure ⟨rfl, ?_⟩))
    have hvisit : Visited C hint q q _ _ :=
      .eval hq (if hinted then .result else .anything) value
    cases hinted <;> exact hvisit
  | .block body, q, hq, henter => by
    rw [Statement.resolve]
    apply ensures_bind
    refine (block_visits s false body hq henter).imp fun o ho => ensures_pure ?_
    exact ⟨congrArg Statement.block ho.1, ho.2⟩
  | .cond branches otherwise span, q, hq, henter => by
    rw [Statement.resolve]
    rw [Statement.sites] at henter
    apply ensures_bind
    have hbranches := branches_visit s branches hq
      (henter.mono (C.refl q) fun x hx => List.mem_append_left _ hx)
    refine hbranches.imp fun first hfirst => ensures_bind ?_
    have hotherwise := otherwise_visits s otherwise
      (C.ready hfirst.2.move hq)
      (henter.mono hfirst.2.move fun x hx => List.mem_append_right _ hx)
    refine hotherwise.imp fun second hsecond => ensures_pure ⟨?_, ?_⟩
    · rw [Statement.skeleton, Statement.skeleton, hfirst.1, hsecond.1]
    · exact hfirst.2.append hsecond.2
  | .forEach item range body span, q, hq, henter => by
    rw [Statement.resolve]
    refine ensures_bind (ensures_reporting (ensures_bind ?_))
    have hbody := block_visits s false body hq
      (henter.mono (C.refl q) fun x hx => List.mem_cons_of_mem _ hx)
    refine hbody.imp fun o ho => ensures_pure ⟨?_, ?_⟩
    · rw [Statement.skeleton, Statement.skeleton, ho.1]
    · exact (Visited.eval hq .anything range).append ho.2
  | .assign subject value span, q, hq, _ => by
    rw [Statement.resolve]
    refine ensures_bind (ensures_reporting (ensures_bind (ensures_reporting (ensures_pure ?_))))
    exact ⟨rfl, (Visited.eval hq .anything subject).append
      (Visited.eval hq (.like subject) value)⟩
  | .declare target value span, q, hq, _ => by
    rw [Statement.resolve]
    refine ensures_bind (ensures_reporting (ensures_pure ?_))
    cases value with
    | none => exact ⟨rfl, Visited.stay q (.declare s target) rfl rfl⟩
    | some e =>
      exact ⟨rfl, (Visited.stay q (.declare s target) rfl rfl).append
        (Visited.eval hq (.declared target) e)⟩

/-- The walk of statements visits their sites and keeps their skeletons. -/
theorem statements_visit (s : ScopeId) (hinted : Bool) :
    (statements : List Statement) → {q : Program} → C.Ready q s →
    CanEnter C enter q (Statement.sitesAll s hinted statements) →
    (Statement.resolveAll enter s (if hinted then hint else none) statements).Ensures q fun o =>
      Statement.skeletonAll o.value = Statement.skeletonAll statements ∧
        Visited C hint q o.program (Statement.sitesAll s hinted statements)
          (Statement.sitesAll s hinted o.value)
  | [], q, _, _ => ensures_pure ⟨rfl, Visited.nil q⟩
  | statement :: rest, q, hq, henter => by
    rw [Statement.sitesAll] at henter
    rw [Statement.resolveAll, hint_of_result]
    apply ensures_bind
    have hstatement := statement_visits s (hinted && rest.isEmpty) statement hq
      (henter.mono (C.refl q) fun x hx => List.mem_append_left _ hx)
    refine hstatement.imp fun first hfirst => ensures_bind ?_
    have hrest := statements_visit s hinted rest (C.ready hfirst.2.move hq)
      (henter.mono hfirst.2.move fun x hx => List.mem_append_right _ hx)
    refine hrest.imp fun second hsecond => ensures_pure ⟨?_, ?_⟩
    · rw [Statement.skeletonAll, Statement.skeletonAll, hfirst.1, hsecond.1]
    · have hempty : second.value.isEmpty = rest.isEmpty := by
        rw [← Statement.isEmpty_skeletonAll, hsecond.1, Statement.isEmpty_skeletonAll]
      rw [Statement.sitesAll, Statement.sitesAll, hempty]
      exact hfirst.2.append hsecond.2

/-- The walk of branches visits their sites and keeps their skeletons. -/
theorem branches_visit (s : ScopeId) :
    (branches : List (Branch Block)) → {q : Program} → C.Ready q s →
    CanEnter C enter q (Statement.sitesBranches s branches) →
    (Statement.resolveBranches enter s branches).Ensures q fun o =>
      Statement.skeletonBranches o.value = Statement.skeletonBranches branches ∧
        Visited C hint q o.program (Statement.sitesBranches s branches)
          (Statement.sitesBranches s o.value)
  | [], q, _, _ => ensures_pure ⟨rfl, Visited.nil q⟩
  | ⟨condition, body, span⟩ :: rest, q, hq, henter => by
    rw [Statement.sitesBranches] at henter
    rw [Statement.resolveBranches]
    refine ensures_bind (ensures_reporting (ensures_bind ?_))
    have hbody := block_visits s false body hq
      (henter.mono (C.refl q) fun x hx =>
        List.mem_cons_of_mem _ (List.mem_append_left _ hx))
    refine hbody.imp fun first hfirst => ensures_bind ?_
    have hrest := branches_visit s rest (C.ready hfirst.2.move hq)
      (henter.mono hfirst.2.move fun x hx =>
        List.mem_cons_of_mem _ (List.mem_append_right _ hx))
    refine hrest.imp fun second hsecond => ensures_pure ⟨?_, ?_⟩
    · rw [Statement.skeletonBranches, Statement.skeletonBranches, hfirst.1, hsecond.1]
    · exact (Visited.eval hq .truth condition).append
        (hfirst.2.append hsecond.2)

/-- The walk of the last block of a conditional visits its sites and keeps its skeleton. -/
theorem otherwise_visits (s : ScopeId) :
    (otherwise : Option Block) → {q : Program} → C.Ready q s →
    CanEnter C enter q (Statement.sitesOtherwise s otherwise) →
    (Statement.resolveOtherwise enter otherwise).Ensures q fun o =>
      Statement.skeletonOtherwise o.value = Statement.skeletonOtherwise otherwise ∧
        Visited C hint q o.program (Statement.sitesOtherwise s otherwise)
          (Statement.sitesOtherwise s o.value)
  | none, q, _, _ => ensures_pure ⟨rfl, Visited.nil q⟩
  | some body, q, hq, henter => by
    rw [Statement.resolveOtherwise]
    apply ensures_bind
    refine (block_visits s false body hq henter).imp fun o ho => ensures_pure ?_
    exact ⟨congrArg some ho.1, ho.2⟩

end

end Walk

end EntityLang
