import EntityLang.Json.Basic
import EntityLang.Program.Basic

/-!
# Expressions as JSON

Nodes become objects with a field `node` that names their kind; handles are replaced by the names of
what they stand for.
-/

namespace EntityLang

/-- The object of a node of some kind. -/
def Json.node (kind : String) (fields : List (String × Json)) : Json :=
  .record (("node", .string kind) :: fields)

/-- A name that is not resolved. -/
def Mention.outline (name : Mention) : Json :=
  .node "UnresolvedIdentity" [("identity", .string name.identity)]

/-- A pattern. -/
def Pattern.outline (p : Program) : Pattern → Json
  | .unresolved name => name.outline
  | .optional inner => .node "OptionalPattern" [("pattern", inner.outline p)]
  | .invalid => .node "InvalidPattern" []
  | .enum h => .node "EnumType" [("identity", .string (p.enum h).identity)]
  | .entity h => .node "Entity" [("identity", .string (p.entity h).identity)]
  | .native h => .node "NativeType" [("identity", .string (p.native h).identity)]

/-- The value of a literal. -/
def Literal.outline : Literal → Json
  | .none => .null
  | .bool b => .bool b
  | .int i => .int i.toInt
  | .number x => .ofNumber x
  | .string s => .string s

/-- What a property index refers to. -/
def PropertyRef.outline (p : Program) : PropertyRef → Json
  | .unresolved name => name.outline
  | .state h => .node "StateProperty" [("identity", .string (p.state h).identity)]
  | .function h => .node "FunctionProperty" [("identity", .string (p.function h).identity)]

/-- What a call refers to. -/
def Callee.outline (p : Program) : Callee → Json
  | .unresolved name => name.outline
  | .function h =>
    let node := p.function h
    .node "FunctionProperty"
      [("identity", .string node.identity), ("arity", .nat node.parameters.length)]

/-- An enum value and the enum that it belongs to. -/
def Program.enumValueOutline (p : Program) (h : EnumValueId) : Json :=
  let node := p.enumValue h
  .node "EnumValue"
    [("identity", .string node.identity), ("enum", .string (p.enum node.owner).identity)]

namespace Expr

mutual

/-- An expression. -/
def outline (p : Program) : Expr → Json
  | .unresolved name _ => name.outline
  | .var h _ => .node "Variable" [("identity", .string (p.var h).identity)]
  | .enumValue h _ => p.enumValueOutline h
  | .literal value _ => .node "Literal" [("value", value.outline)]
  | .list items _ => .node "ListValue" [("values", .array (outlineAll p items))]
  | .instances items _ => .node "InstanceList" [("values", .array (outlineAll p items))]
  | .unary op operand _ => .node "Unary" [("op", .string op.symbol), ("value", operand.outline p)]
  | .binary op lhs rhs _ =>
    .node "Binary" [("op", .string op.symbol), ("lhs", lhs.outline p), ("rhs", rhs.outline p)]
  | .property subject target _ =>
    .node "PropertyIndex" [("expr", subject.outline p), ("property", target.outline p)]
  | .select subject rules _ =>
    .node "Match"
      [("subject", subject.outline p), ("rules", .array (outlineRules p "pattern" rules))]
  | .call callee args _ =>
    .node "Call" [("callee", callee.outline p), ("arguments", .array (outlineAll p args))]
  | .cond rules otherwise _ =>
    .node "IfExpression"
      [("rules", .array (outlineRules p "condition" rules)),
        ("otherwise", outlineOption p otherwise)]
  | .index subject position _ =>
    .node "ExpressionIndex" [("subject", subject.outline p), ("index", position.outline p)]
  | .invalid _ => .node "InvalidValue" []

/-- Expressions from left to right. -/
def outlineAll (p : Program) : List Expr → List Json
  | [] => []
  | e :: rest => e.outline p :: outlineAll p rest

/-- Rules in order, with the name that their heads go by. -/
def outlineRules (p : Program) (headName : String) : List (Rule Expr) → List Json
  | [] => []
  | ⟨head, result, _⟩ :: rest =>
    .record [(headName, head.outline p), ("result", result.outline p)] ::
      outlineRules p headName rest

/-- An expression that may be absent. -/
def outlineOption (p : Program) : Option Expr → Json
  | none => .null
  | some e => e.outline p

end

end Expr

end EntityLang
