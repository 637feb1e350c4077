import EntityLang.Binding
import EntityLang.Diagnostic

/-!
# Problems

Every problem that resolving or checking a program can find, with the kind it is reported under and
the wording of its message.
-/

namespace EntityLang

/-- A problem with the names and patterns of a program. -/
inductive Problem where
  /-- A name in a value position stands for nothing. -/
  | unboundName (identity : String)
  /-- A name in a pattern position stands for nothing. -/
  | unboundPattern (identity : String)
  /-- No property has the name. -/
  | unboundProperty (identity : String)
  /-- No function has the name. -/
  | unboundFunction (identity : String)
  /-- A name in a pattern position stands for something else. -/
  | notAPattern (identity : String) (kind : BindingKind)
  /-- A name in a value position stands for something else. -/
  | notAValue (identity : String) (kind : BindingKind)
  /-- The name of a callee stands for something else. -/
  | notAFunction (identity : String) (kind : BindingKind)
  /-- The name of a property stands for something else. -/
  | notAProperty (identity : String) (kind : BindingKind)
  /-- A bare name is a value of several enums. -/
  | ambiguousValue (identity : String) (count : Nat)
  /-- An enum has no value of the name. -/
  | noSuchValue (enum value : String)
  /-- Every function of the name needs arguments. -/
  | needsArguments (identity : String)
  /-- No function of the name takes the arguments. -/
  | noOverload (identity : String) (count : Nat)
  /-- A name is declared twice in one scope. -/
  | redeclared (identity : String)
  /-- The initial value of a state does not fit. -/
  | stateValue (identity : String)
  /-- The result of a function does not fit. -/
  | functionResult (identity produced declared : String)
  /-- An assigned value does not fit. -/
  | assignedValue
  /-- The initial value of a variable does not fit. -/
  | variableValue (identity : String)
  /-- A condition is neither a truth value nor optional. -/
  | condition
  /-- A rule can never match. -/
  | unreachable
  /-- The results of the rules of a match have nothing in common. -/
  | inconsistent

namespace Problem

/-- The kind that a problem is reported under. -/
def kind : Problem → DiagnosticKind
  | unboundName _ | unboundPattern _ | unboundProperty _ | unboundFunction _ => .unresolvedIdentity
  | notAPattern _ _ => .notAPattern
  | notAValue _ _ => .notAValue
  | notAFunction _ _ => .notCallable
  | ambiguousValue _ _ => .ambiguousIdentity
  | notAProperty _ _ | noSuchValue _ _ => .unknownProperty
  | needsArguments _ | noOverload _ _ => .noMatchingOverload
  | redeclared _ => .redeclaration
  | stateValue _ | functionResult _ _ _ | assignedValue | variableValue _ => .incorrectType
  | condition => .invalidCondition
  | unreachable => .unreachableRule
  | inconsistent => .inconsistentRules

/-- The wording of a problem. -/
def message : Problem → String
  | unboundName id => s!"Unable to resolve `{id}`."
  | unboundPattern id => s!"Unable to resolve pattern `{id}`."
  | unboundProperty id => s!"Unable to resolve property `{id}`."
  | unboundFunction id => s!"Unable to resolve function `{id}`."
  | notAPattern id kind => s!"`{id}` is a {kind.text}, not a pattern."
  | notAValue id kind => s!"`{id}` is a {kind.text}, not a value."
  | notAFunction id kind => s!"`{id}` is a {kind.text}, not a function."
  | notAProperty id kind => s!"`{id}` is a {kind.text}, not a property."
  | ambiguousValue id n =>
    s!"`{id}` is a value of {n} different enums; qualify it with the enum name."
  | noSuchValue enum value => s!"Enum `{enum}` has no value `{value}`."
  | needsArguments id => s!"No overload of `{id}` can be indexed without arguments."
  | noOverload id n => s!"No overload of `{id}` accepts these {n} argument(s)."
  | redeclared id => s!"`{id}` is already declared in this scope."
  | stateValue id => s!"Default value for state `{id}` is the incorrect type."
  | functionResult id produced declared =>
    s!"Function `{id}` produces {produced} but is declared as {declared}."
  | assignedValue => "Assigned value is the incorrect type."
  | variableValue id => s!"Initial value of `{id}` is the incorrect type."
  | condition =>
    "Condition must evaluate either to true or false, or potentially to none. " ++
      "This condition will never be true, false, or none."
  | unreachable => "This rule's pattern will never match."
  | inconsistent => "The results of this match's rules have incompatible patterns."

/-- The report of a problem at a place. -/
def reportAt (problem : Problem) (span : Span) : Diagnostic :=
  ⟨problem.kind, problem.message, span⟩

end Problem

end EntityLang
