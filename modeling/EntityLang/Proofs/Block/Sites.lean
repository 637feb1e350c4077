import EntityLang.Proofs.Expr.Fixed

/-!
# What a walk meets in a block

The sites of a block are listed in the order in which a walk meets them: the scopes that it enters,
the expressions with what is expected of each, and the variables that statements declare. Facts
about everything in a body are facts about the members of this list.

The skeleton of a block is what remains when expressions are forgotten. It fixes all sites but the
expressions in them.
-/

namespace EntityLang

/-- What is expected of an expression by the place where it stands. -/
inductive Expectation where
  /-- Nothing. -/
  | anything
  /-- What is expected of the whole body. -/
  | result
  /-- A truth value. -/
  | truth
  /-- Something like the subject of the assignment. -/
  | like (subject : Expr)
  /-- Something for the declared variable. -/
  | declared (target : VarId)

/-- Something that a walk meets in a block. -/
inductive Site where
  /-- The scope of a block that lies in `outer`. -/
  | enter (outer scope : ScopeId)
  /-- An expression in a block with the scope `scope`. -/
  | eval (scope : ScopeId) (expected : Expectation) (expr : Expr)
  /-- A variable that a statement of a block declares. -/
  | declare (scope : ScopeId) (target : VarId)

mutual

/-- The sites of a block that lies in `outer`; only the result of a hinted block is expected to be
something. -/
def Block.sites (outer : ScopeId) (hinted : Bool) : Block → List Site
  | ⟨singleton, scope, statements, _⟩ =>
    .enter outer scope :: Statement.sitesAll scope (hinted && singleton) statements

/-- The sites of a statement of a block with the scope `s`. -/
def Statement.sites (s : ScopeId) (hinted : Bool) : Statement → List Site
  | .expr value => [.eval s (if hinted then .result else .anything) value]
  | .block body => body.sites s false
  | .cond branches otherwise _ =>
    Statement.sitesBranches s branches ++ Statement.sitesOtherwise s otherwise
  | .forEach _ range body _ => .eval s .anything range :: body.sites s false
  | .assign subject value _ => [.eval s .anything subject, .eval s (.like subject) value]
  | .declare target value _ => .declare s target :: value.toList.map (.eval s (.declared target))

/-- The sites of several statements; only the last one can be the result. -/
def Statement.sitesAll (s : ScopeId) (hinted : Bool) : List Statement → List Site
  | [] => []
  | statement :: rest =>
    statement.sites s (hinted && rest.isEmpty) ++ Statement.sitesAll s hinted rest

/-- The sites of the branches of a conditional statement. -/
def Statement.sitesBranches (s : ScopeId) : List (Branch Block) → List Site
  | [] => []
  | ⟨condition, body, _⟩ :: rest =>
    .eval s .truth condition :: (body.sites s false ++ Statement.sitesBranches s rest)

/-- The sites of the block that is run when no condition holds. -/
def Statement.sitesOtherwise (s : ScopeId) : Option Block → List Site
  | none => []
  | some body => body.sites s false

end

mutual

/-- A block with its expressions forgotten. -/
def Block.skeleton : Block → Block
  | ⟨singleton, scope, statements, span⟩ =>
    ⟨singleton, scope, Statement.skeletonAll statements, span⟩

/-- A statement with its expressions forgotten. -/
def Statement.skeleton : Statement → Statement
  | .expr _ => .expr default
  | .block body => .block body.skeleton
  | .cond branches otherwise span =>
    .cond (Statement.skeletonBranches branches) (Statement.skeletonOtherwise otherwise) span
  | .forEach item _ body span => .forEach item default body.skeleton span
  | .assign _ _ span => .assign default default span
  | .declare target value span => .declare target (value.map fun _ => default) span

/-- Statements with their expressions forgotten. -/
def Statement.skeletonAll : List Statement → List Statement
  | [] => []
  | statement :: rest => statement.skeleton :: Statement.skeletonAll rest

/-- Branches with their expressions forgotten. -/
def Statement.skeletonBranches : List (Branch Block) → List (Branch Block)
  | [] => []
  | ⟨_, body, span⟩ :: rest => ⟨default, body.skeleton, span⟩ :: Statement.skeletonBranches rest

/-- A block that may be absent with its expressions forgotten. -/
def Statement.skeletonOtherwise : Option Block → Option Block
  | none => none
  | some body => some body.skeleton

end

/-- A hinted block hands its hint on to the part that is its result. -/
theorem hint_of_result (hint : Option Pattern) (hinted isResult : Bool) :
    (if isResult then if hinted then hint else none else none) =
      if hinted && isResult then hint else none := by
  cases isResult <;> cases hinted <;> rfl

/-- The expectation with its expression forgotten. -/
def Expectation.erase : Expectation → Expectation
  | .like _ => .like default
  | x => x

/-- The site with its expressions forgotten. -/
def Site.erase : Site → Site
  | .eval scope expected _ => .eval scope expected.erase default
  | x => x

/-- The skeleton of a block has the same scope. -/
@[simp] theorem Block.scope_skeleton (b : Block) : b.skeleton.scope = b.scope := by
  cases b
  rfl

/-- The skeleton of a list of statements is empty exactly if the list is. -/
@[simp] theorem Statement.isEmpty_skeletonAll (statements : List Statement) :
    (Statement.skeletonAll statements).isEmpty = statements.isEmpty := by
  cases statements <;> rfl

mutual

/-- The skeleton fixes all sites but the expressions in them. -/
theorem Block.sites_skeleton (outer : ScopeId) (hinted : Bool) : (b : Block) →
    b.skeleton.sites outer hinted = (b.sites outer hinted).map Site.erase
  | ⟨singleton, scope, statements, span⟩ => by
    rw [Block.skeleton, Block.sites, Block.sites, List.map_cons,
      Statement.sitesAll_skeleton scope (hinted && singleton) statements]
    rfl

/-- The skeleton of a statement fixes its sites. -/
theorem Statement.sites_skeleton (s : ScopeId) (hinted : Bool) : (statement : Statement) →
    statement.skeleton.sites s hinted = (statement.sites s hinted).map Site.erase
  | .expr value => by cases hinted <;> rfl
  | .block body => by
    rw [Statement.skeleton, Statement.sites, Statement.sites, Block.sites_skeleton s false body]
  | .cond branches otherwise span => by
    rw [Statement.skeleton, Statement.sites, Statement.sites, List.map_append,
      Statement.sitesBranches_skeleton s branches, Statement.sitesOtherwise_skeleton s otherwise]
  | .forEach item range body span => by
    rw [Statement.skeleton, Statement.sites, Statement.sites, Block.sites_skeleton s false body]
    rfl
  | .assign subject value span => rfl
  | .declare target value span => by cases value <;> rfl

/-- The skeletons of statements fix their sites. -/
theorem Statement.sitesAll_skeleton (s : ScopeId) (hinted : Bool) :
    (statements : List Statement) → Statement.sitesAll s hinted (Statement.skeletonAll statements) =
      (Statement.sitesAll s hinted statements).map Site.erase
  | [] => rfl
  | statement :: rest => by
    rw [Statement.skeletonAll, Statement.sitesAll, Statement.sitesAll, List.map_append,
      Statement.isEmpty_skeletonAll, Statement.sites_skeleton s _ statement,
      Statement.sitesAll_skeleton s hinted rest]

/-- The skeletons of branches fix their sites. -/
theorem Statement.sitesBranches_skeleton (s : ScopeId) : (branches : List (Branch Block)) →
    Statement.sitesBranches s (Statement.skeletonBranches branches) =
      (Statement.sitesBranches s branches).map Site.erase
  | [] => rfl
  | ⟨condition, body, span⟩ :: rest => by
    rw [Statement.skeletonBranches, Statement.sitesBranches, Statement.sitesBranches, List.map_cons,
      List.map_append, Block.sites_skeleton s false body, Statement.sitesBranches_skeleton s rest]
    rfl

/-- The skeleton of the last block of a conditional fixes its sites. -/
theorem Statement.sitesOtherwise_skeleton (s : ScopeId) : (otherwise : Option Block) →
    Statement.sitesOtherwise s (Statement.skeletonOtherwise otherwise) =
      (Statement.sitesOtherwise s otherwise).map Site.erase
  | none => rfl
  | some body => Block.sites_skeleton s false body

end

namespace Expectation

/-- The hint that an expectation gives, where `outer` is the hint for the whole body. -/
def hint (p : Program) (outer : Option Pattern) : Expectation → Option Pattern
  | .anything => none
  | .result => outer
  | .truth => some .bool
  | .like subject => some (subject.pattern p)
  | .declared target => some (p.var target).pattern

/-- The expectation once the subject is resolved. -/
def resolve (p : Program) (s : ScopeId) : Expectation → Expectation
  | .like subject => .like (subject.resolve p s none).value
  | x => x

end Expectation

namespace Site

/-- The site with its expression resolved under the hint of its place. -/
def resolve (p : Program) (outer : Option Pattern) : Site → Site
  | .eval scope expected expr =>
    .eval scope (expected.resolve p scope)
      (expr.resolve p scope ((expected.resolve p scope).hint p outer)).value
  | x => x

/-- The expression of a site. -/
def expr? : Site → Option Expr
  | .eval _ _ expr => some expr
  | _ => none

/-- The scope that is entered at a site. -/
def entered? : Site → Option ScopeId
  | .enter _ scope => some scope
  | _ => none

/-- The scope that a site belongs to. -/
def scope : Site → ScopeId
  | .enter _ scope | .eval scope _ _ | .declare scope _ => scope

/-- Resolving twice is resolving once. -/
theorem resolve_resolve (p : Program) (outer : Option Pattern) (x : Site) :
    (x.resolve p outer).resolve p outer = x.resolve p outer := by
  cases x with
  | eval scope expected expr =>
    have hexpected : (expected.resolve p scope).resolve p scope = expected.resolve p scope := by
      cases expected with
      | like subject => exact congrArg Expectation.like (Expr.fixed_resolve p scope none subject)
      | _ => rfl
    simp only [resolve, hexpected, eval.injEq, true_and]
    exact Expr.fixed_resolve p scope _ expr
  | _ => rfl

end Site

section Scopes

variable {Q : ScopeId → Prop}

mutual

/-- What passes from a scope to the scopes of the blocks that lie in it holds of the scopes of all
sites in a block. -/
theorem Block.forall_scope (outer : ScopeId) (hinted : Bool) : (b : Block) →
    (∀ o c, .enter o c ∈ b.sites outer hinted → o = outer ∨ Q o → Q c) →
    ∀ x ∈ b.sites outer hinted, Q x.scope
  | ⟨singleton, scope, statements, span⟩, h => by
    have hscope : Q scope := h outer scope List.mem_cons_self (.inl rfl)
    rw [Block.sites, List.forall_mem_cons]
    refine ⟨hscope, Statement.forall_scopeAll scope hscope _ statements ?_⟩
    exact fun o c hc ho => h o c (List.mem_cons_of_mem _ hc) (.inr ho)

/-- The scopes of all sites in a statement. -/
theorem Statement.forall_scope (s : ScopeId) (hs : Q s) (hinted : Bool) :
    (statement : Statement) → (∀ o c, .enter o c ∈ statement.sites s hinted → Q o → Q c) →
    ∀ x ∈ statement.sites s hinted, Q x.scope
  | .expr value, _ => by simpa [Statement.sites, Site.scope] using hs
  | .block body, h =>
    Block.forall_scope s false body fun o c hc ho => h o c hc (ho.elim (fun e => e ▸ hs) id)
  | .cond branches otherwise span, h => by
    rw [Statement.sites, List.forall_mem_append]
    exact ⟨Statement.forall_scopeBranches s hs branches fun o c hc =>
        h o c (List.mem_append_left _ hc),
      Statement.forall_scopeOtherwise s hs otherwise fun o c hc =>
        h o c (List.mem_append_right _ hc)⟩
  | .forEach item range body span, h => by
    have hbody := Block.forall_scope s false body fun o c hc ho =>
      h o c (List.mem_cons_of_mem _ hc) (ho.elim (fun e => e ▸ hs) id)
    rw [Statement.sites, List.forall_mem_cons]
    exact ⟨hs, hbody⟩
  | .assign subject value span, _ => by simpa [Statement.sites, Site.scope] using hs
  | .declare target value span, _ => by
    cases value <;> simpa [Statement.sites, Site.scope] using hs

/-- The scopes of all sites in statements. -/
theorem Statement.forall_scopeAll (s : ScopeId) (hs : Q s) (hinted : Bool) :
    (statements : List Statement) →
    (∀ o c, .enter o c ∈ Statement.sitesAll s hinted statements → Q o → Q c) →
    ∀ x ∈ Statement.sitesAll s hinted statements, Q x.scope
  | [], _ => by simp [Statement.sitesAll]
  | statement :: rest, h => by
    rw [Statement.sitesAll, List.forall_mem_append]
    exact ⟨Statement.forall_scope s hs _ statement fun o c hc => h o c (List.mem_append_left _ hc),
      Statement.forall_scopeAll s hs hinted rest fun o c hc => h o c (List.mem_append_right _ hc)⟩

/-- The scopes of all sites in branches. -/
theorem Statement.forall_scopeBranches (s : ScopeId) (hs : Q s) :
    (branches : List (Branch Block)) →
    (∀ o c, .enter o c ∈ Statement.sitesBranches s branches → Q o → Q c) →
    ∀ x ∈ Statement.sitesBranches s branches, Q x.scope
  | [], _ => by simp [Statement.sitesBranches]
  | ⟨condition, body, span⟩ :: rest, h => by
    rw [Statement.sitesBranches, List.forall_mem_cons, List.forall_mem_append]
    exact ⟨hs, Block.forall_scope s false body fun o c hc ho =>
        h o c (List.mem_cons_of_mem _ (List.mem_append_left _ hc)) (ho.elim (fun e => e ▸ hs) id),
      Statement.forall_scopeBranches s hs rest fun o c hc =>
        h o c (List.mem_cons_of_mem _ (List.mem_append_right _ hc))⟩

/-- The scopes of all sites in the last block of a conditional. -/
theorem Statement.forall_scopeOtherwise (s : ScopeId) (hs : Q s) : (otherwise : Option Block) →
    (∀ o c, .enter o c ∈ Statement.sitesOtherwise s otherwise → Q o → Q c) →
    ∀ x ∈ Statement.sitesOtherwise s otherwise, Q x.scope
  | none, _ => by simp [Statement.sitesOtherwise]
  | some body, h =>
    Block.forall_scope s false body fun o c hc ho => h o c hc (ho.elim (fun e => e ▸ hs) id)

end

end Scopes

section Views

variable {α : Type} (f : Site → Option α)

/-- What a view shows of a statement does not depend on what is expected of it, if the view does not
show what is expected of expressions. -/
theorem Statement.filterMap_sites_hinted (hf : ∀ s x x' e, f (.eval s x e) = f (.eval s x' e))
    (s : ScopeId) (hinted : Bool) (statement : Statement) :
    (statement.sites s hinted).filterMap f = (statement.sites s false).filterMap f := by
  cases statement with
  | expr value => simp [Statement.sites, List.filterMap, hf s _ .anything value]
  | _ => rfl

/-- What such a view shows of statements does not depend on what is expected of them. -/
theorem Statement.filterMap_sitesAll_hinted (hf : ∀ s x x' e, f (.eval s x e) = f (.eval s x' e))
    (s : ScopeId) (hinted : Bool) (statements : List Statement) :
    (Statement.sitesAll s hinted statements).filterMap f =
      (Statement.sitesAll s false statements).filterMap f := by
  induction statements with
  | nil => rfl
  | cons statement rest ih =>
    rw [Statement.sitesAll, Statement.sitesAll, List.filterMap_append, List.filterMap_append, ih,
      Statement.filterMap_sites_hinted f hf]
    rfl

/-- What a view shows of a block does not depend on where the block lies, if the view shows neither
what is expected of expressions nor what scopes lie in. -/
theorem Block.filterMap_sites (hf : ∀ s x x' e, f (.eval s x e) = f (.eval s x' e))
    (houter : ∀ o o' c, f (.enter o c) = f (.enter o' c)) (outer outer' : ScopeId)
    (hinted hinted' : Bool) (b : Block) :
    (b.sites outer hinted).filterMap f = (b.sites outer' hinted').filterMap f := by
  obtain ⟨singleton, scope, statements, span⟩ := b
  rw [Block.sites, Block.sites, List.filterMap_cons, List.filterMap_cons, houter outer outer',
    Statement.filterMap_sitesAll_hinted f hf scope (hinted && singleton),
    Statement.filterMap_sitesAll_hinted f hf scope (hinted' && singleton)]

end Views

namespace Block

/-- The scopes of a block and of all blocks in it. -/
def scopes (b : Block) : List ScopeId := (b.sites b.scope true).filterMap Site.entered?

/-- The expressions of a block and of all blocks in it. -/
def exprs (b : Block) : List Expr := (b.sites b.scope true).filterMap Site.expr?

/-- A scope belongs to a block exactly when the walk of the block enters it. -/
theorem mem_scopes_iff (outer : ScopeId) (hinted : Bool) (b : Block) (c : ScopeId) :
    c ∈ b.scopes ↔ ∃ o, .enter o c ∈ b.sites outer hinted := by
  rw [scopes, filterMap_sites Site.entered? (fun _ _ _ _ => rfl) (fun _ _ _ => rfl) b.scope outer
    true hinted, List.mem_filterMap]
  constructor
  · rintro ⟨x, hx, hc⟩
    cases x with
    | enter o scope =>
      cases hc
      exact ⟨o, hx⟩
    | _ => simp [Site.entered?] at hc
  · rintro ⟨o, hc⟩
    exact ⟨_, hc, rfl⟩

/-- An expression belongs to a block exactly when the walk of the block resolves it. -/
theorem mem_exprs_iff (outer : ScopeId) (hinted : Bool) (b : Block) (e : Expr) :
    e ∈ b.exprs ↔ ∃ s expected, .eval s expected e ∈ b.sites outer hinted := by
  rw [exprs, filterMap_sites Site.expr? (fun _ _ _ _ => rfl) (fun _ _ _ => rfl) b.scope outer
    true hinted, List.mem_filterMap]
  constructor
  · rintro ⟨x, hx, he⟩
    cases x with
    | eval s expected expr =>
      cases he
      exact ⟨s, expected, hx⟩
    | _ => simp [Site.expr?] at he
  · rintro ⟨s, expected, he⟩
    exact ⟨_, he, rfl⟩

/-- All sites of a block belong to scopes of the block. -/
theorem scope_mem_scopes {b : Block} {outer : ScopeId} {hinted : Bool} {x : Site}
    (hx : x ∈ b.sites outer hinted) : x.scope ∈ b.scopes :=
  b.forall_scope (Q := (· ∈ b.scopes)) outer hinted
    (fun o c hc _ => (mem_scopes_iff outer hinted b c).mpr ⟨o, hc⟩) x hx

/-- Blocks of the same skeleton have the same sites, apart from expressions. -/
theorem mem_sites_of_skeleton_eq {b b' : Block} (h : b.skeleton = b'.skeleton) {outer : ScopeId}
    {hinted : Bool} {x : Site} (hexpr : x.expr? = none) (hx : x ∈ b.sites outer hinted) :
    x ∈ b'.sites outer hinted := by
  have herase : x.erase = x := by cases x <;> simp_all [Site.erase, Site.expr?]
  have hmem : x ∈ (b'.sites outer hinted).map Site.erase := by
    rw [← sites_skeleton, ← h, sites_skeleton, List.mem_map]
    exact ⟨x, hx, herase⟩
  obtain ⟨y, hy, hyx⟩ := List.mem_map.mp hmem
  cases y with
  | eval s expected e =>
    rw [← hyx] at hexpr
    exact absurd hexpr (by simp [Site.erase, Site.expr?])
  | _ => exact hyx ▸ hy

/-- The skeleton of a block enters the same scopes. -/
@[simp] theorem scopes_skeleton (b : Block) : b.skeleton.scopes = b.scopes := by
  have herase : Site.entered? ∘ Site.erase = Site.entered? := by
    funext x
    cases x <;> rfl
  rw [scopes, scopes, sites_skeleton, List.filterMap_map, herase, scope_skeleton]

end Block

end EntityLang
