import EntityLang.Json.Text
import EntityLang.Span

/-!
# Diagnostics

A diagnostic is a problem in the source that is shown to the user: its kind, a message and a place.
-/

namespace EntityLang

/-- The kinds of problem. -/
inductive DiagnosticKind where
  | unresolvedIdentity
  | notAPattern
  | notAValue
  | notCallable
  | ambiguousIdentity
  | unknownProperty
  | noMatchingOverload
  | redeclaration
  | incorrectType
  | invalidCondition
  | unreachableRule
  | inconsistentRules
  deriving DecidableEq, Inhabited

namespace DiagnosticKind

/-- All kinds in order. -/
def all : List DiagnosticKind :=
  [.unresolvedIdentity, .notAPattern, .notAValue, .notCallable, .ambiguousIdentity,
    .unknownProperty, .noMatchingOverload, .redeclaration, .incorrectType, .invalidCondition,
    .unreachableRule, .inconsistentRules]

/-- The name of a kind. -/
def name : DiagnosticKind → String
  | .unresolvedIdentity => "UnresolvedIdentity"
  | .notAPattern => "NotAPattern"
  | .notAValue => "NotAValue"
  | .notCallable => "NotCallable"
  | .ambiguousIdentity => "AmbiguousIdentity"
  | .unknownProperty => "UnknownProperty"
  | .noMatchingOverload => "NoMatchingOverload"
  | .redeclaration => "Redeclaration"
  | .incorrectType => "IncorrectType"
  | .invalidCondition => "InvalidCondition"
  | .unreachableRule => "UnreachableRule"
  | .inconsistentRules => "InconsistentRules"

/-- The stable code of a kind: names and declarations from 1, patterns of values from 101. -/
def code : DiagnosticKind → String
  | .unresolvedIdentity => "E0001"
  | .notAPattern => "E0002"
  | .notAValue => "E0003"
  | .notCallable => "E0004"
  | .ambiguousIdentity => "E0005"
  | .unknownProperty => "E0006"
  | .noMatchingOverload => "E0007"
  | .redeclaration => "E0008"
  | .incorrectType => "E0101"
  | .invalidCondition => "E0102"
  | .unreachableRule => "E0103"
  | .inconsistentRules => "E0104"

end DiagnosticKind

/-- A problem that is shown to the user. -/
structure Diagnostic where
  kind : DiagnosticKind
  message : String
  span : Span
  deriving DecidableEq, Inhabited

namespace Diagnostic

/-- A diagnostic in one line. -/
def text (d : Diagnostic) : String :=
  "error[" ++ d.kind.code ++ "] " ++ d.span.text ++ ": " ++ d.message

/-- A place as a JSON object. -/
def spanJson (s : Span) : Json :=
  .object
    [("start", .nat s.start), ("end", .nat s.stop), ("line", .nat s.line),
      ("column", .nat s.column)]

/-- A diagnostic as a JSON object. -/
def toJson (d : Diagnostic) : Json :=
  .object [("kind", .string d.kind.name), ("message", .string d.message), ("span", spanJson d.span)]

/-- The number of diagnostics of one kind. -/
def countOf (kind : DiagnosticKind) (ds : List Diagnostic) : Nat :=
  ds.countP fun d => d.kind = kind

/-- A list of diagnostics as JSON text. -/
def listing (ds : List Diagnostic) : String :=
  (Json.array (ds.map toJson)).pretty

end Diagnostic

end EntityLang
