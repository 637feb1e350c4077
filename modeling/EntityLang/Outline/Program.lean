import EntityLang.Json.Text
import EntityLang.Outline.Expr

/-!
# Programs as JSON

A scope lists what its names stand for. Bodies are written out with the scopes of their blocks; a
program with a function inside its own body has no finite outline.
-/

namespace EntityLang

/-- A variable with its pattern. -/
def Program.varOutline (p : Program) (h : VarId) : Json :=
  let node := p.var h
  .node "Variable" [("identity", .string node.identity), ("pattern", node.pattern.outline p)]

mutual

/-- A block; `enter` writes a scope. -/
def Block.outline (p : Program) (enter : ScopeId → Option Json) : Block → Option Json
  | ⟨singleton, scope, statements, _⟩ => do
    let scope ← enter scope
    let statements ← Statement.outlineAll p enter statements
    return .node "CodeBlock"
      [("singleton", .bool singleton), ("scope", scope), ("statements", .array statements)]

/-- A statement. -/
def Statement.outline (p : Program) (enter : ScopeId → Option Json) : Statement → Option Json
  | .expr value => some (value.outline p)
  | .block body => body.outline p enter
  | .cond branches otherwise _ => do
    let branches ← Statement.outlineBranches p enter branches
    let otherwise ← Statement.outlineOtherwise p enter otherwise
    return .node "IfStatement" [("rules", .array branches), ("else_block", otherwise)]
  | .forEach item range body _ => do
    let body ← body.outline p enter
    return .node "ForStatement"
      [("variable", p.varOutline item), ("range", range.outline p), ("body", body)]
  | .assign subject value _ =>
    some (.node "Assignment" [("subject", subject.outline p), ("value", value.outline p)])
  | .declare target value _ =>
    some (.node "VariableDeclaration"
      [("variable", p.varOutline target), ("value", Expr.outlineOption p value)])

/-- Statements in order. -/
def Statement.outlineAll (p : Program) (enter : ScopeId → Option Json) :
    List Statement → Option (List Json)
  | [] => some []
  | statement :: rest => do
    let statement ← statement.outline p enter
    let rest ← Statement.outlineAll p enter rest
    return statement :: rest

/-- The branches of a conditional statement in order. -/
def Statement.outlineBranches (p : Program) (enter : ScopeId → Option Json) :
    List (Branch Block) → Option (List Json)
  | [] => some []
  | ⟨condition, body, _⟩ :: rest => do
    let body ← body.outline p enter
    let rest ← Statement.outlineBranches p enter rest
    return .record [("condition", condition.outline p), ("code_block", body)] :: rest

/-- The block that is run when no condition holds. -/
def Statement.outlineOtherwise (p : Program) (enter : ScopeId → Option Json) :
    Option Block → Option Json
  | none => some .null
  | some body => body.outline p enter

end

/-- One declaration. -/
def Decl.outline (p : Program) (enter : ScopeId → Option Json) : Decl → Option Json
  | .var h => some (p.varOutline h)
  | .native h =>
    let node := p.native h
    some (.node "NativeType"
      [("identity", .string node.identity), ("host_identity", .string node.hostIdentity)])
  | .enum h =>
    let node := p.enum h
    some (.node "EnumType"
      [("identity", .string node.identity),
        ("values", .array (node.values.map p.enumValueOutline))])
  | .entity h => some (.node "Entity" [("identity", .string (p.entity h).identity)])
  | .state h =>
    let node := p.state h
    some (.node "StateProperty"
      [("identity", .string node.identity), ("pattern", node.pattern.outline p),
        ("parameters", .array (node.parameters.map p.varOutline)),
        ("initial_value", Expr.outlineOption p node.initialValue)])
  | .function h => do
    let node := p.function h
    let body ← Statement.outlineOtherwise p enter node.body
    return .node "FunctionProperty"
      [("identity", .string node.identity), ("pattern", node.pattern.outline p),
        ("parameters", .array (node.parameters.map p.varOutline)), ("body", body)]

mutual

/-- What a name stands for. -/
def Binding.outline (p : Program) (enter : ScopeId → Option Json) : Binding → Option Json
  | .decl d => d.outline p enter
  | .overloaded identity members => do
    let members ← Binding.outlineAll p enter members
    return .node "OverloadedIdentity"
      [("identity", .string identity), ("overloads", .array members)]

/-- The members of an overload set in order. -/
def Binding.outlineAll (p : Program) (enter : ScopeId → Option Json) :
    List Binding → Option (List Json)
  | [] => some []
  | b :: rest => do
    let b ← b.outline p enter
    let rest ← Binding.outlineAll p enter rest
    return b :: rest

end

/-- The fields for the names of a scope. -/
def Binding.outlineNamed (p : Program) (enter : ScopeId → Option Json) :
    List (String × Binding) → Option (List (String × Json))
  | [] => some []
  | (identity, b) :: rest => do
    let b ← b.outline p enter
    let rest ← Binding.outlineNamed p enter rest
    return (identity, b) :: rest

namespace Program

/-- A scope with at most `depth` scopes written inside each other. -/
def scopeOutlineUpTo (p : Program) : (depth : Nat) → ScopeId → Option Json
  | 0, _ => none
  | depth + 1, s => do
    let fields ← Binding.outlineNamed p (p.scopeOutlineUpTo depth) (p.scope s).bindings.toList
    return .node "Scope" [("lookup", .object fields)]

/-- A program from its global scope on. Scopes lie inside each other through the bodies of
functions, so an outline that goes deeper than there are functions comes back to one of them. -/
def outline? (p : Program) : Option Json := do
  let globals ← p.scopeOutlineUpTo (p.functions.size + 1) globalScope
  return .node "Program" [("phase", .string p.phase.name), ("global_scope", globals)]

/-- The outline as text with one element on each line. -/
def outlineText? (p : Program) : Option String := p.outline?.map Json.pretty

end Program

end EntityLang
