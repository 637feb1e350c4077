import EntityLang.Resolution.Signature

/-!
# Resolving bodies

The initial values of states and the bodies of functions are resolved in the scopes they belong to.
The walk of a block first resolves the signatures and bodies of the scope of the block, so what is
declared in a block is known in all of its statements. A function that is met again inside its own
body is not walked a second time.
-/

namespace EntityLang

mutual

/-- Resolve a block; `enter` is what happens on entering a scope. Only the result of a singleton
block gets the hint. -/
def Block.resolve (enter : ScopeId → Walk Unit) (hint : Option Pattern) : Block → Walk Block
  | ⟨singleton, scope, statements, span⟩ => do
    enter scope
    let statements ←
      Statement.resolveAll enter scope (if singleton then hint else none) statements
    return ⟨singleton, scope, statements, span⟩

/-- Resolve a statement of a block with scope `s`. -/
def Statement.resolve (enter : ScopeId → Walk Unit) (s : ScopeId) (hint : Option Pattern) :
    Statement → Walk Statement
  | .expr value => do
    let value ← Walk.reporting fun p => value.resolve p s hint
    return .expr value
  | .block body => do
    let body ← body.resolve enter none
    return .block body
  | .cond branches otherwise span => do
    let branches ← Statement.resolveBranches enter s branches
    let otherwise ← Statement.resolveOtherwise enter otherwise
    return .cond branches otherwise span
  | .forEach item range body span => do
    let range ← Walk.reporting fun p => range.resolve p s none
    let body ← body.resolve enter none
    return .forEach item range body span
  | .assign subject value span => do
    let subject ← Walk.reporting fun p => subject.resolve p s none
    let value ← Walk.reporting fun p => value.resolve p s (some (subject.pattern p))
    return .assign subject value span
  | .declare target value span => do
    let value ← Walk.reporting fun p => Expr.resolveOption p s (some (p.var target).pattern) value
    return .declare target value span

/-- Resolve statements in order; the hint is for the last one. -/
def Statement.resolveAll (enter : ScopeId → Walk Unit) (s : ScopeId) (hint : Option Pattern) :
    List Statement → Walk (List Statement)
  | [] => pure []
  | statement :: rest => do
    let statement ← statement.resolve enter s (if rest.isEmpty then hint else none)
    let rest ← Statement.resolveAll enter s hint rest
    return statement :: rest

/-- Resolve the branches of a conditional statement in order. -/
def Statement.resolveBranches (enter : ScopeId → Walk Unit) (s : ScopeId) :
    List (Branch Block) → Walk (List (Branch Block))
  | [] => pure []
  | ⟨condition, body, span⟩ :: rest => do
    let condition ← Walk.reporting fun p => condition.resolve p s (some .bool)
    let body ← body.resolve enter none
    let rest ← Statement.resolveBranches enter s rest
    return ⟨condition, body, span⟩ :: rest

/-- Resolve the block of a conditional statement that is run when no condition holds. -/
def Statement.resolveOtherwise (enter : ScopeId → Walk Unit) : Option Block → Walk (Option Block)
  | none => pure none
  | some body => do
    let body ← body.resolve enter none
    return some body

end

namespace Walk

/-- Resolve the initial value of a state under the pattern of the state. -/
def initialValue (h : StateId) : Walk Unit := do
  let value ← reporting fun p =>
    let node := p.state h
    Expr.resolveOption p node.scope (some node.pattern) node.initialValue
  update fun p => p.setInitialValue h value

/-- Resolve the body of a function under the pattern of the function. -/
def functionBody (enter : ScopeId → Walk Unit) (h : FunctionId) : Walk Unit := do
  let node ← read fun p => p.function h
  match node.body with
  | none => pure ()
  | some body => do
    let body ← body.resolve enter (some node.pattern)
    update fun p => p.setBody h body

/-- Resolve the bodies in the scope of a property, and then its own. The functions in `busy` are
those whose bodies are being walked; `visit` walks the bodies of a scope inside them. -/
def declBody (visit : List FunctionId → ScopeId → Walk Unit) (busy : List FunctionId) :
    Decl → Walk Unit
  | .state h => do
    let own ← read fun p => (p.state h).scope
    visit busy own
    initialValue h
  | .function h => do
    let own ← read fun p => (p.function h).scope
    visit busy own
    if h ∈ busy then pure ()
    else
      functionBody (fun inner => do signatures inner; visit (h :: busy) inner) h
  | .var _ | .native _ | .enum _ | .entity _ => pure ()

/-- Resolve the bodies of a scope and of at most `depth` scopes entered inside each other. -/
def bodiesUpTo : (depth : Nat) → (busy : List FunctionId) → ScopeId → Walk Unit
  | 0, _, _ => endless
  | depth + 1, busy, s => do
    let decls ← read fun p => p.declared s
    forEach (declBody (bodiesUpTo depth) busy) decls

end Walk

/-- A walk that is deeper than this meets a property inside its own scope.

Between the bodies that a walk is inside of, it passes through the scopes of properties, and no body
is entered twice. -/
def Program.bodyDepth (p : Program) : Nat := (p.functions.size + 1) * (p.propertyCount + 1)

/-- Resolve the bodies of a scope and of all scopes entered from it. -/
def Walk.bodies (s : ScopeId) : Walk Unit := fun p =>
  Walk.bodiesUpTo p.bodyDepth [] s p

end EntityLang
