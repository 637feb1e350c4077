import EntityLang.Diagnostic.Reported
import EntityLang.Expr.Coerce
import EntityLang.Expr.Infer
import EntityLang.Program.Lookup

/-!
# Resolving expressions

Every name in an expression is replaced by the handle of what it stands for. A hint is the pattern
that is expected of the value: it selects among enum values of the same name, and integer literals
are read as numbers where a number is expected. What means nothing becomes the invalid expression
and is reported at its place.

The program is only read. Children are resolved from left to right and before the node they belong
to.
-/

namespace EntityLang

/-- The hint for the operand of an operator. -/
def UnaryOp.operandHint (hint : Option Pattern) : UnaryOp → Option Pattern
  | .not => some .bool
  | .negate => hint

/-- The hint for the left operand of an operator. -/
def BinaryOp.leftHint (op : BinaryOp) (hint : Option Pattern) : Option Pattern :=
  if op.isArithmetic then hint else if op.isLogical then some .bool else none

/-- The hint for the right operand of an operator; comparisons read it in terms of the left
operand. -/
def BinaryOp.rightHint (op : BinaryOp) (hint : Option Pattern) (left : Pattern) : Option Pattern :=
  if op.isArithmetic then hint else if op.isLogical then some .bool else some left

namespace Program

/-- The invalid expression at the place of something meaningless, and its report. -/
def poison (problem : Problem) (span : Span) : Reported Expr :=
  .failure (.invalid span) problem span

/-- The value of a name that belongs to the enum a hint asks for. -/
def hintedValue (p : Program) (hint : Option Pattern) (identity : String) : Option EnumValueId :=
  match hint.bind Pattern.enum? with
  | some e => p.enumValueNamed e identity
  | none => none

/-- A bare name in the position of a value.

A variable comes first, then a value of the hinted enum. Any other binding is not a value; a name
without a binding may be a value of exactly one visible enum. -/
def resolveName (p : Program) (s : ScopeId) (hint : Option Pattern) (identity : String)
    (span : Span) : Reported Expr :=
  match p.fetch s identity with
  | some (.decl (.var h)) => pure (.var h span)
  | nearest =>
    match p.hintedValue hint identity with
    | some value => pure (.enumValue value span)
    | none =>
      match nearest with
      | some other => poison (.notAValue identity other.kind) span
      | none =>
        match p.enumValuesInReach s identity with
        | [value] => pure (.enumValue value span)
        | [] => poison (.unboundName identity) span
        | candidates => poison (.ambiguousValue identity candidates.length) span

/-- The enum that qualifies a value, when an expression is the bare name of one. -/
def qualifier? (p : Program) (s : ScopeId) : Expr → Option (String × EnumId)
  | .unresolved name _ =>
    match p.fetch s name.identity with
    | some (.decl (.enum e)) => some (name.identity, e)
    | _ => none
  | _ => none

/-- A value that is qualified by the name of its enum. -/
def resolveQualified (p : Program) (enumName : String) (e : EnumId) (identity : String)
    (span : Span) : Reported Expr :=
  match p.enumValueNamed e identity with
  | some value => pure (.enumValue value span)
  | none => poison (.noSuchValue enumName identity) span

/-- A property of a resolved subject: the first state of the name, or else its first function
without parameters. -/
def resolveProperty (p : Program) (s : ScopeId) (subject : Expr) (identity : String) (span : Span) :
    Reported Expr :=
  match p.fetchProperty s identity with
  | [] =>
    match p.fetch s identity with
    | some other => poison (.notAProperty identity other.kind) span
    | none => poison (.unboundProperty identity) span
  | candidates =>
    match candidates.findSome? Decl.state? with
    | some h => pure (.property subject (.state h) span)
    | none =>
      let functions := candidates.filterMap Decl.function?
      match functions.find? fun f => (p.function f).parameters.isEmpty with
      | some h => pure (.property subject (.function h) span)
      | none => poison (.needsArguments identity) span

/-- Arguments read under the patterns of the parameters that they stand for. -/
def coerceArguments (p : Program) : List Expr → List VarId → List Expr
  | arg :: args, v :: vs => arg.coerce (p.var v).pattern :: p.coerceArguments args vs
  | args, _ => args

/-- The arguments as a function takes them, if it accepts them. -/
def acceptArguments (p : Program) (args : List Expr) (f : FunctionId) :
    Option (FunctionId × List Expr) :=
  let parameters := (p.function f).parameters
  let coerced := p.coerceArguments args parameters
  if Expr.acceptedBy p coerced parameters then some (f, coerced) else none

/-- A call with resolved arguments: the first function of the name that accepts them. -/
def resolveCall (p : Program) (s : ScopeId) (identity : String) (args : List Expr) (span : Span) :
    Reported Expr :=
  match p.fetchOverloads s identity with
  | [] => poison (.unboundFunction identity) span
  | first :: rest =>
    match (first :: rest).filterMap Decl.function? with
    | [] => poison (.notAFunction identity first.kind) span
    | functions =>
      match functions.findSome? (p.acceptArguments args) with
      | some (f, coerced) => pure (.call (.function f) coerced span)
      | none => poison (.noOverload identity args.length) span

end Program

namespace Expr

mutual

/-- An expression with its names resolved in a scope, under a hint. -/
def resolve (p : Program) (s : ScopeId) : Option Pattern → Expr → Reported Expr
  | hint, .unresolved name span => p.resolveName s hint name.identity span
  | _, .var h span => pure (.var h span)
  | _, .enumValue h span => pure (.enumValue h span)
  | hint, .literal value span => pure (.literal (value.coerce hint) span)
  | _, .list items span => do
    let items ← resolveAll p s items
    return .list items span
  | _, .instances items span => do
    let items ← resolveAll p s items
    return .instances items span
  | hint, .unary op operand span => do
    let operand ← operand.resolve p s (op.operandHint hint)
    return .unary op operand span
  | hint, .binary op lhs rhs span => do
    let lhs ← lhs.resolve p s (op.leftHint hint)
    let rhs ← rhs.resolve p s (op.rightHint hint (lhs.pattern p))
    return .binary op lhs rhs span
  | _, .property subject target span =>
    match target with
    | .unresolved name =>
      match p.qualifier? s subject with
      | some (enumName, e) => p.resolveQualified enumName e name.identity span
      | none => do
        let subject ← subject.resolve p s none
        p.resolveProperty s subject name.identity span
    | bound => do
      let subject ← subject.resolve p s none
      return .property subject bound span
  | hint, .select subject rules span => do
    let subject ← subject.resolve p s none
    let rules ← resolveRules p s (some (subject.pattern p)) hint rules
    return .select subject rules span
  | _, .call callee args span => do
    let args ← resolveAll p s args
    match callee with
    | .unresolved name => p.resolveCall s name.identity args span
    | bound => return .call bound args span
  | hint, .cond rules otherwise span => do
    let rules ← resolveRules p s (some .bool) hint rules
    let otherwise ← resolveOption p s hint otherwise
    return .cond rules otherwise span
  | _, .index subject position span => do
    let subject ← subject.resolve p s none
    let position ← position.resolve p s (some .int)
    return .index subject position span
  | _, .invalid span => pure (.invalid span)

/-- Expressions resolved from left to right without a hint. -/
def resolveAll (p : Program) (s : ScopeId) : List Expr → Reported (List Expr)
  | [] => pure []
  | e :: rest => do
    let e ← e.resolve p s none
    let rest ← resolveAll p s rest
    return e :: rest

/-- Rules resolved in order, heads and results under hints of their own. -/
def resolveRules (p : Program) (s : ScopeId) (headHint resultHint : Option Pattern) :
    List (Rule Expr) → Reported (List (Rule Expr))
  | [] => pure []
  | ⟨head, result, span⟩ :: rest => do
    let head ← head.resolve p s headHint
    let result ← result.resolve p s resultHint
    let rest ← resolveRules p s headHint resultHint rest
    return ⟨head, result, span⟩ :: rest

/-- An expression that may be absent, resolved under a hint. -/
def resolveOption (p : Program) (s : ScopeId) (hint : Option Pattern) :
    Option Expr → Reported (Option Expr)
  | none => pure none
  | some e => do
    let e ← e.resolve p s hint
    return some e

end

end Expr

end EntityLang
