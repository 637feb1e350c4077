import EntityLang.Binding
import EntityLang.Statement
import Std.Data.TreeMap

/-!
# Programs

A program is a forest of scopes in which names are bound, and a table for each kind of node that the
names stand for. Nodes refer to each other by handles only.
-/

namespace EntityLang

/-- A set of names and what they stand for. -/
structure Scope where
  /-- The scope in which names are looked up next. -/
  parent : Option ScopeId := none
  /-- What each name stands for. -/
  bindings : Std.TreeMap String Binding := ∅
  /-- Declarations of names that were taken, not reported yet. -/
  rejected : List Binding := []
  deriving Inhabited

/-- A variable or a parameter. -/
structure Variable where
  identity : String
  pattern : Pattern
  span : Span := .dummy
  deriving Inhabited

/-- A type of the host system. -/
structure NativeType where
  identity : String
  hostIdentity : String
  span : Span := .dummy
  deriving Inhabited

/-- A type with finitely many named values. -/
structure EnumType where
  identity : String
  values : List EnumValueId
  span : Span := .dummy
  deriving Inhabited

/-- A value of an enum type. -/
structure EnumValue where
  identity : String
  owner : EnumId
  span : Span := .dummy
  deriving Inhabited

/-- An entity. -/
structure Entity where
  identity : String
  span : Span := .dummy
  deriving Inhabited

/-- A property that holds a value. -/
structure StateProperty where
  identity : String
  pattern : Pattern
  scope : ScopeId
  parameters : List VarId
  initialValue : Option Expr := none
  span : Span := .dummy
  deriving Inhabited

/-- A property that is computed. -/
structure FunctionProperty where
  identity : String
  pattern : Pattern
  scope : ScopeId
  parameters : List VarId
  body : Option Block := none
  span : Span := .dummy
  deriving Inhabited

/-- How far the names of a program are resolved. -/
inductive Phase where
  | unresolved
  | signaturesResolved
  | resolved
  deriving DecidableEq, Inhabited

/-- The phase after the signatures are resolved: a later phase stays. -/
def Phase.afterSignatures : Phase → Phase
  | .resolved => .resolved
  | _ => .signaturesResolved

/-- The name of a phase. -/
def Phase.name : Phase → String
  | .unresolved => "Unresolved"
  | .signaturesResolved => "SignaturesResolved"
  | .resolved => "Resolved"

/-- A program. -/
structure Program where
  scopes : Table .scope Scope := {}
  vars : Table .var Variable := {}
  natives : Table .native NativeType := {}
  enums : Table .enum EnumType := {}
  enumValues : Table .enumValue EnumValue := {}
  entities : Table .entity Entity := {}
  states : Table .state StateProperty := {}
  functions : Table .function FunctionProperty := {}
  phase : Phase := .unresolved
  deriving Inhabited

namespace Program

/-- The scope that every other scope of a source lies in. -/
def globalScope : ScopeId := ⟨0⟩

/-- The scope of a handle. -/
def scope (p : Program) (h : ScopeId) : Scope := p.scopes.get h

/-- The variable of a handle. -/
def var (p : Program) (h : VarId) : Variable := p.vars.get h

/-- The native type of a handle. -/
def native (p : Program) (h : NativeId) : NativeType := p.natives.get h

/-- The enum of a handle. -/
def enum (p : Program) (h : EnumId) : EnumType := p.enums.get h

/-- The enum value of a handle. -/
def enumValue (p : Program) (h : EnumValueId) : EnumValue := p.enumValues.get h

/-- The entity of a handle. -/
def entity (p : Program) (h : EntityId) : Entity := p.entities.get h

/-- The state of a handle. -/
def state (p : Program) (h : StateId) : StateProperty := p.states.get h

/-- The function of a handle. -/
def function (p : Program) (h : FunctionId) : FunctionProperty := p.functions.get h

/-- The number of states and functions. -/
def propertyCount (p : Program) : Nat := p.states.size + p.functions.size

/-- The name that a declaration was made under. -/
def declIdentity (p : Program) : Decl → String
  | .var h => (p.var h).identity
  | .native h => (p.native h).identity
  | .enum h => (p.enum h).identity
  | .entity h => (p.entity h).identity
  | .state h => (p.state h).identity
  | .function h => (p.function h).identity

/-- The place of a declaration. -/
def declSpan (p : Program) : Decl → Span
  | .var h => (p.var h).span
  | .native h => (p.native h).span
  | .enum h => (p.enum h).span
  | .entity h => (p.entity h).span
  | .state h => (p.state h).span
  | .function h => (p.function h).span

/-- The name of a binding. -/
def identity (p : Program) : Binding → String
  | .decl d => p.declIdentity d
  | .overloaded own _ => own

/-- The place of a binding; an overload set has none of its own. -/
def bindingSpan (p : Program) : Binding → Span
  | .decl d => p.declSpan d
  | .overloaded _ _ => .dummy

/-- The declarations bound in a scope, in the order of their names. -/
def declared (p : Program) (h : ScopeId) : List Decl :=
  (p.scope h).bindings.values.flatMap Binding.overloads

/-- A pattern as messages show it. -/
def describe (p : Program) : Pattern → String
  | .unresolved name => name.identity
  | .optional inner => p.describe inner ++ "?"
  | .invalid => "<invalid>"
  | .enum h => (p.enum h).identity
  | .entity h => (p.entity h).identity
  | .native h => (p.native h).identity

/-- Replace the pattern of a variable. -/
def setVarPattern (p : Program) (h : VarId) (pattern : Pattern) : Program :=
  { p with vars := p.vars.modify h fun v => { v with pattern } }

/-- Replace the pattern of a state. -/
def setStatePattern (p : Program) (h : StateId) (pattern : Pattern) : Program :=
  { p with states := p.states.modify h fun s => { s with pattern } }

/-- Replace the pattern of a function. -/
def setFunctionPattern (p : Program) (h : FunctionId) (pattern : Pattern) : Program :=
  { p with functions := p.functions.modify h fun f => { f with pattern } }

/-- Replace the initial value of a state. -/
def setInitialValue (p : Program) (h : StateId) (initialValue : Option Expr) : Program :=
  { p with states := p.states.modify h fun s => { s with initialValue } }

/-- Give a function a body. -/
def setBody (p : Program) (h : FunctionId) (body : Block) : Program :=
  { p with functions := p.functions.modify h fun f => { f with body := some body } }

/-- Forget the rejected declarations of a scope. -/
def clearRejected (p : Program) (h : ScopeId) : Program :=
  { p with scopes := p.scopes.modify h fun s => { s with rejected := [] } }

end Program

end EntityLang
