import EntityLang.Number.Basic
import EntityLang.Pattern.Basic

/-!
# Expressions

Every expression carries its span. Names are unresolved at first; resolving puts a handle in the
place of each name, or the invalid expression where the name means nothing.
-/

namespace EntityLang

/-- Operators with one operand. -/
inductive UnaryOp where
  | not
  | negate
  deriving DecidableEq

/-- Operators with two operands. -/
inductive BinaryOp where
  | add
  | sub
  | mul
  | div
  | equal
  | notEqual
  | less
  | lessEqual
  | greater
  | greaterEqual
  | and
  | or
  deriving DecidableEq

namespace UnaryOp

/-- All operators in order. -/
def all : List UnaryOp := [.not, .negate]

/-- The operator as it is written. -/
def symbol : UnaryOp → String
  | .not => "not"
  | .negate => "-"

end UnaryOp

namespace BinaryOp

/-- All operators in order. -/
def all : List BinaryOp :=
  [.add, .sub, .mul, .div, .equal, .notEqual, .less, .lessEqual, .greater, .greaterEqual, .and, .or]

/-- The operator as it is written. -/
def symbol : BinaryOp → String
  | .add => "+"
  | .sub => "-"
  | .mul => "*"
  | .div => "/"
  | .equal => "=="
  | .notEqual => "!="
  | .less => "<"
  | .lessEqual => "<="
  | .greater => ">"
  | .greaterEqual => ">="
  | .and => "and"
  | .or => "or"

/-- The result has the pattern of the operands. -/
def isArithmetic : BinaryOp → Bool
  | .add | .sub | .mul | .div => true
  | _ => false

/-- The operands are truth values. -/
def isLogical : BinaryOp → Bool
  | .and | .or => true
  | _ => false

end BinaryOp

/-- A value that is written out. -/
inductive Literal where
  | none
  | bool (b : Bool)
  | int (i : Int64)
  | number (x : Number)
  | string (s : String)
  deriving DecidableEq

/-- What a property index refers to. -/
inductive PropertyRef where
  | unresolved (name : Mention)
  | state (handle : StateId)
  | function (handle : FunctionId)
  deriving DecidableEq

/-- What a call refers to. -/
inductive Callee where
  | unresolved (name : Mention)
  | function (handle : FunctionId)
  deriving DecidableEq

/-- A rule of a match or of a conditional: a head that is tested and the result it selects. -/
structure Rule (ε : Type) where
  head : ε
  result : ε
  span : Span := .dummy

/-- An expression. -/
inductive Expr where
  | unresolved (name : Mention) (span : Span)
  | var (handle : VarId) (span : Span)
  | enumValue (handle : EnumValueId) (span : Span)
  | literal (value : Literal) (span : Span)
  | list (items : List Expr) (span : Span)
  | instances (items : List Expr) (span : Span)
  | unary (op : UnaryOp) (operand : Expr) (span : Span)
  | binary (op : BinaryOp) (lhs rhs : Expr) (span : Span)
  | property (subject : Expr) (target : PropertyRef) (span : Span)
  | select (subject : Expr) (rules : List (Rule Expr)) (span : Span)
  | call (callee : Callee) (args : List Expr) (span : Span)
  | cond (rules : List (Rule Expr)) (otherwise : Option Expr) (span : Span)
  | index (subject position : Expr) (span : Span)
  | invalid (span : Span)

namespace Expr

instance : Inhabited Expr := ⟨.invalid .dummy⟩

/-- The place of an expression. -/
def span : Expr → Span
  | .unresolved _ s | .var _ s | .enumValue _ s | .literal _ s | .list _ s | .instances _ s
  | .unary _ _ s | .binary _ _ _ s | .property _ _ s | .select _ _ s | .call _ _ s | .cond _ _ s
  | .index _ _ s | .invalid s => s

/-- The expression has been reported as meaningless. -/
def isInvalid : Expr → Bool
  | .invalid _ => true
  | _ => false

/-- Two operands joined by an operator, at the place that covers both. -/
def join (op : BinaryOp) (lhs rhs : Expr) : Expr :=
  .binary op lhs rhs (lhs.span.merge rhs.span)

end Expr

end EntityLang
