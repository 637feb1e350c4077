import EntityLang.Program.Basic

/-!
# Looking names up

A name is looked up along the chain of a scope: the scope itself, its parent, and so on outward. The
nearest binding counts, with one exception: the name of a property passes over bindings that are not
properties.
-/

namespace EntityLang.Program

/-- The scopes from `h` outward, at most `bound` of them. -/
def chainUpTo (p : Program) : Nat → ScopeId → List ScopeId
  | 0, _ => []
  | bound + 1, h =>
    h :: match (p.scope h).parent with
      | none => []
      | some parent => p.chainUpTo bound parent

/-- The scopes from `h` outward. A chain without a cycle has no more members than there are
scopes. -/
def chain (p : Program) (h : ScopeId) : List ScopeId := p.chainUpTo p.scopes.size h

/-- What a name stands for in one scope, ancestors apart. -/
def boundIn (p : Program) (identity : String) (h : ScopeId) : Option Binding :=
  (p.scope h).bindings[identity]?

/-- What a name stands for when it is used in a scope. -/
def fetch (p : Program) (h : ScopeId) (identity : String) : Option Binding :=
  (p.chain h).findSome? (p.boundIn identity)

/-- The declarations that a name stands for when it is used in a scope. -/
def fetchOverloads (p : Program) (h : ScopeId) (identity : String) : List Decl :=
  match p.fetch h identity with
  | some b => b.overloads
  | none => []

/-- The declarations that a name stands for when it is used as the name of a property. -/
def fetchProperty (p : Program) (h : ScopeId) (identity : String) : List Decl :=
  match (p.chain h).findSome? fun s => (p.boundIn identity s).filter Binding.isProperty with
  | some b => b.overloads
  | none => []

/-- The first value of an enum that has a name. -/
def enumValueNamed (p : Program) (h : EnumId) (identity : String) : Option EnumValueId :=
  (p.enum h).values.find? fun v => (p.enumValue v).identity = identity

/-- The name of an enum stands for that enum when it is used in a scope. -/
def isVisibleEnum (p : Program) (h : ScopeId) (e : EnumId) : Bool :=
  match p.fetch h (p.enum e).identity with
  | some (.decl d) => d = .enum e
  | _ => false

/-- The enums bound in one scope, in the order of their names. -/
def enumsIn (p : Program) (h : ScopeId) : List EnumId :=
  (p.scope h).bindings.values.filterMap fun
    | .decl (.enum e) => some e
    | _ => none

/-- The values of a name that belong to an enum visible from a scope, from the scope outward. -/
def enumValuesInReach (p : Program) (h : ScopeId) (identity : String) : List EnumValueId :=
  (((p.chain h).flatMap p.enumsIn).filter (p.isVisibleEnum h)).filterMap
    fun e => p.enumValueNamed e identity

end EntityLang.Program
