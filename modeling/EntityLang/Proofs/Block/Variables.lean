import EntityLang.Proofs.Block.Sites

/-!
# The variables of a block

Declarations and loops refer to variables. A parser declares the variable of a declaration in the
block where the declaration stands, and the variable of a loop in the body of the loop. A walk that
resolves a block comes to these variables through the scopes only, so they are listed with the
scopes where they should be found.
-/

namespace EntityLang

mutual

/-- The variables that the declarations and loops of a block refer to, each with the scope where it
is to be declared: the scope of the block for a declaration, the scope of its body for a loop. -/
def Block.variables : Block → List (ScopeId × VarId)
  | ⟨_, scope, statements, _⟩ => Statement.variablesAll scope statements

/-- The variables of a statement of a block with the scope `s`. -/
def Statement.variables (s : ScopeId) : Statement → List (ScopeId × VarId)
  | .expr _ => []
  | .block body => body.variables
  | .cond branches otherwise _ =>
    Statement.variablesBranches branches ++ Statement.variablesOtherwise otherwise
  | .forEach item _ body _ => (body.scope, item) :: body.variables
  | .assign _ _ _ => []
  | .declare target _ _ => [(s, target)]

/-- The variables of several statements. -/
def Statement.variablesAll (s : ScopeId) : List Statement → List (ScopeId × VarId)
  | [] => []
  | statement :: rest => statement.variables s ++ Statement.variablesAll s rest

/-- The variables of the branches of a conditional statement. -/
def Statement.variablesBranches : List (Branch Block) → List (ScopeId × VarId)
  | [] => []
  | ⟨_, body, _⟩ :: rest => body.variables ++ Statement.variablesBranches rest

/-- The variables of the block that is run when no condition holds. -/
def Statement.variablesOtherwise : Option Block → List (ScopeId × VarId)
  | none => []
  | some body => body.variables

end

mutual

/-- The skeleton of a block fixes its variables. -/
@[simp] theorem Block.variables_skeleton : (b : Block) → b.skeleton.variables = b.variables
  | ⟨_, scope, statements, _⟩ => Statement.variablesAll_skeleton scope statements

/-- The skeleton of a statement fixes its variables. -/
theorem Statement.variables_skeleton (s : ScopeId) : (statement : Statement) →
    statement.skeleton.variables s = statement.variables s
  | .expr _ => rfl
  | .block body => Block.variables_skeleton body
  | .cond branches otherwise _ => by
    rw [Statement.skeleton, Statement.variables, Statement.variables,
      Statement.variablesBranches_skeleton branches,
      Statement.variablesOtherwise_skeleton otherwise]
  | .forEach item _ body _ => by
    rw [Statement.skeleton, Statement.variables, Statement.variables, Block.scope_skeleton,
      Block.variables_skeleton body]
  | .assign _ _ _ => rfl
  | .declare _ _ _ => rfl

/-- The skeletons of statements fix their variables. -/
theorem Statement.variablesAll_skeleton (s : ScopeId) : (statements : List Statement) →
    Statement.variablesAll s (Statement.skeletonAll statements) =
      Statement.variablesAll s statements
  | [] => rfl
  | statement :: rest => by
    rw [Statement.skeletonAll, Statement.variablesAll, Statement.variablesAll,
      Statement.variables_skeleton s statement, Statement.variablesAll_skeleton s rest]

/-- The skeletons of branches fix their variables. -/
theorem Statement.variablesBranches_skeleton : (branches : List (Branch Block)) →
    Statement.variablesBranches (Statement.skeletonBranches branches) =
      Statement.variablesBranches branches
  | [] => rfl
  | ⟨_, body, _⟩ :: rest => by
    rw [Statement.skeletonBranches, Statement.variablesBranches, Statement.variablesBranches,
      Block.variables_skeleton body, Statement.variablesBranches_skeleton rest]

/-- The skeleton of the last block of a conditional fixes its variables. -/
theorem Statement.variablesOtherwise_skeleton : (otherwise : Option Block) →
    Statement.variablesOtherwise (Statement.skeletonOtherwise otherwise) =
      Statement.variablesOtherwise otherwise
  | none => rfl
  | some body => Block.variables_skeleton body

end

section Scopes

variable {Q : ScopeId → Prop}

mutual

/-- What holds of the scopes that a block leads into holds of the scopes of its variables. -/
theorem Block.forall_variables (outer : ScopeId) (hinted : Bool) : (b : Block) →
    (∀ o c, .enter o c ∈ b.sites outer hinted → Q c) → ∀ x ∈ b.variables, Q x.1
  | ⟨_, scope, statements, _⟩, h =>
    Statement.forall_variablesAll scope (h outer scope List.mem_cons_self) _ statements
      fun o c hc => h o c (List.mem_cons_of_mem _ hc)

/-- The scopes of the variables of a statement. -/
theorem Statement.forall_variables (s : ScopeId) (hs : Q s) (hinted : Bool) :
    (statement : Statement) → (∀ o c, .enter o c ∈ statement.sites s hinted → Q c) →
    ∀ x ∈ statement.variables s, Q x.1
  | .expr _, _ => by simp [Statement.variables]
  | .block body, h => Block.forall_variables s false body h
  | .cond branches otherwise _, h => by
    rw [Statement.variables, List.forall_mem_append]
    exact ⟨Statement.forall_variablesBranches s branches fun o c hc =>
        h o c (List.mem_append_left _ hc),
      Statement.forall_variablesOtherwise s otherwise fun o c hc =>
        h o c (List.mem_append_right _ hc)⟩
  | .forEach item range body _, h => by
    have hbody : ∀ o c, .enter o c ∈ body.sites s false → Q c := fun o c hc =>
      h o c (List.mem_cons_of_mem _ hc)
    have hscope : .enter s body.scope ∈ body.sites s false := by
      cases body
      exact List.mem_cons_self
    rw [Statement.variables, List.forall_mem_cons]
    exact ⟨hbody s body.scope hscope, Block.forall_variables s false body hbody⟩
  | .assign _ _ _, _ => by simp [Statement.variables]
  | .declare _ _ _, _ => by simpa [Statement.variables] using hs

/-- The scopes of the variables of statements. -/
theorem Statement.forall_variablesAll (s : ScopeId) (hs : Q s) (hinted : Bool) :
    (statements : List Statement) →
    (∀ o c, .enter o c ∈ Statement.sitesAll s hinted statements → Q c) →
    ∀ x ∈ Statement.variablesAll s statements, Q x.1
  | [], _ => by simp [Statement.variablesAll]
  | statement :: rest, h => by
    rw [Statement.variablesAll, List.forall_mem_append]
    exact ⟨Statement.forall_variables s hs _ statement fun o c hc =>
        h o c (List.mem_append_left _ hc),
      Statement.forall_variablesAll s hs hinted rest fun o c hc =>
        h o c (List.mem_append_right _ hc)⟩

/-- The scopes of the variables of branches. -/
theorem Statement.forall_variablesBranches (s : ScopeId) : (branches : List (Branch Block)) →
    (∀ o c, .enter o c ∈ Statement.sitesBranches s branches → Q c) →
    ∀ x ∈ Statement.variablesBranches branches, Q x.1
  | [], _ => by simp [Statement.variablesBranches]
  | ⟨_, body, _⟩ :: rest, h => by
    rw [Statement.variablesBranches, List.forall_mem_append]
    exact ⟨Block.forall_variables s false body fun o c hc =>
        h o c (List.mem_cons_of_mem _ (List.mem_append_left _ hc)),
      Statement.forall_variablesBranches s rest fun o c hc =>
        h o c (List.mem_cons_of_mem _ (List.mem_append_right _ hc))⟩

/-- The scopes of the variables of the last block of a conditional. -/
theorem Statement.forall_variablesOtherwise (s : ScopeId) : (otherwise : Option Block) →
    (∀ o c, .enter o c ∈ Statement.sitesOtherwise s otherwise → Q c) →
    ∀ x ∈ Statement.variablesOtherwise otherwise, Q x.1
  | none, _ => by simp [Statement.variablesOtherwise]
  | some body, h => Block.forall_variables s false body h

end

end Scopes

/-- The variables of a block belong to scopes of the block. -/
theorem Block.mem_scopes_of_mem_variables {b : Block} {x : ScopeId × VarId}
    (hx : x ∈ b.variables) : x.1 ∈ b.scopes :=
  b.forall_variables (Q := (· ∈ b.scopes)) b.scope true
    (fun o c hc => (mem_scopes_iff b.scope true b c).mpr ⟨o, hc⟩) x hx

end EntityLang
