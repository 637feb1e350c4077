import EntityLang.Checking.Expr
import EntityLang.Program.Lookup

/-!
# Checking programs

Everything that the global scope reaches is checked: the patterns of what is bound, the scopes of
properties, initial values, bodies, and the scopes of blocks. Values have to fit the patterns they
are declared or assigned under.
-/

namespace EntityLang

/-- A value fits the pattern that is expected of it. -/
def Expr.checkFits (p : Program) (expected : Pattern) (value : Expr) (problem : Problem)
    (span : Span) : Findings :=
  .require ((value.pattern p).fits expected) problem span

mutual

/-- Check a block; `enter` checks a scope. -/
def Block.check (p : Program) (enter : ScopeId → Findings) : Block → Findings
  | ⟨_, scope, statements, _⟩ => enter scope ++ Statement.checkAll p enter statements

/-- Check a statement. -/
def Statement.check (p : Program) (enter : ScopeId → Findings) : Statement → Findings
  | .expr value => value.check p
  | .block body => body.check p enter
  | .cond branches otherwise _ =>
    Statement.checkBranches p enter branches ++ Statement.checkOtherwise p enter otherwise
  | .forEach _ range body _ => range.check p ++ body.check p enter
  | .assign subject value span =>
    subject.check p ++ value.check p ++ value.checkFits p (subject.pattern p) .assignedValue span
  | .declare target value span =>
    let node := p.var target
    node.pattern.check ++
      match value with
      | none => .clean
      | some e => e.check p ++ e.checkFits p node.pattern (.variableValue node.identity) span

/-- Check statements in order. -/
def Statement.checkAll (p : Program) (enter : ScopeId → Findings) : List Statement → Findings
  | [] => .clean
  | statement :: rest => statement.check p enter ++ Statement.checkAll p enter rest

/-- Check the branches of a conditional statement in order. -/
def Statement.checkBranches (p : Program) (enter : ScopeId → Findings) :
    List (Branch Block) → Findings
  | [] => .clean
  | ⟨condition, body, _⟩ :: rest =>
    condition.check p ++ condition.checkCondition p ++ body.check p enter ++
      Statement.checkBranches p enter rest

/-- Check the block that is run when no condition holds. -/
def Statement.checkOtherwise (p : Program) (enter : ScopeId → Findings) : Option Block → Findings
  | none => .clean
  | some body => body.check p enter

end

/-- Statements are checked one after the other. -/
theorem Statement.checkAll_eq_forEach (p : Program) (enter : ScopeId → Findings)
    (statements : List Statement) :
    Statement.checkAll p enter statements = .forEach (Statement.check p enter) statements := by
  induction statements with
  | nil => rfl
  | cons statement rest ih => rw [Statement.checkAll, Findings.forEach, ih]

namespace Program

/-- Check a state: its pattern, its scope and its initial value. -/
def checkState (p : Program) (enter : ScopeId → Findings) (h : StateId) : Findings :=
  let node := p.state h
  node.pattern.check ++ enter node.scope ++
    match node.initialValue with
    | none => .clean
    | some value =>
      value.check p ++ value.checkFits p node.pattern (.stateValue node.identity) value.span

/-- The result of a body fits the pattern of its function. -/
def checkResult (p : Program) (node : FunctionProperty) (body : Block) : Findings :=
  match body.result? with
  | none => .clean
  | some result =>
    let produced := p.describe (result.pattern p)
    result.checkFits p node.pattern
      (.functionResult node.identity produced (p.describe node.pattern)) result.span

/-- Check a function: its pattern, its scope and its body. -/
def checkFunction (p : Program) (enter : ScopeId → Findings) (h : FunctionId) : Findings :=
  let node := p.function h
  node.pattern.check ++ enter node.scope ++
    match node.body with
    | none => .clean
    | some body => body.check p enter ++ p.checkResult node body

/-- Check one declaration. -/
def checkDecl (p : Program) (enter : ScopeId → Findings) : Decl → Findings
  | .var h => (p.var h).pattern.check
  | .state h => p.checkState enter h
  | .function h => p.checkFunction enter h
  | .native _ | .enum _ | .entity _ => .clean

/-- Check a member of an overload set, which has to be a function. -/
def checkMember (p : Program) (enter : ScopeId → Findings) (identity : String) : Binding → Findings
  | .decl (.function h) => p.checkFunction enter h
  | other => .broken (.malformedOverloads identity other.kind)

/-- Check what a name stands for. -/
def checkBinding (p : Program) (enter : ScopeId → Findings) : Binding → Findings
  | .decl d => p.checkDecl enter d
  | .overloaded identity members => .forEach (p.checkMember enter identity) members

/-- Check a scope and at most `depth` scopes entered inside each other. -/
def checkScopeUpTo (p : Program) : (depth : Nat) → ScopeId → Findings
  | 0, _ => .halted .endless
  | depth + 1, s => .forEach (p.checkBinding (p.checkScopeUpTo depth)) (p.scope s).bindings.values

/-- Check everything that the global scope reaches. Scopes are entered through properties, so a
check that goes deeper than there are properties comes back to one of them. -/
def check (p : Program) : Findings :=
  p.checkScopeUpTo (p.propertyCount + 1) globalScope

end Program

end EntityLang
