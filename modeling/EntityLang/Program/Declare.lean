import EntityLang.Program.Basic

/-!
# Building programs

A node is added to its table and declared in a scope under its name. The first declaration of a name
binds it, further functions join an overload set, and any other second declaration is rejected: it
keeps its node, and the scope remembers it until it is reported.
-/

namespace EntityLang

/-- Declare a binding under a name; the result says whether the name was free for it. -/
def Scope.declare (s : Scope) (identity : String) (b : Binding) : Bool × Scope :=
  match s.bindings[identity]? with
  | none => (true, { s with bindings := s.bindings.insert identity b })
  | some existing =>
    match existing.combine? identity b with
    | some both => (true, { s with bindings := s.bindings.insert identity both })
    | none => (false, { s with rejected := s.rejected ++ [b] })

/-- Add several nodes; their handles follow each other. -/
def Table.pushAll {kind : NodeKind} {α : Type} (t : Table kind α) :
    List α → List (Handle kind) × Table kind α
  | [] => ([], t)
  | a :: rest =>
    let (handles, extended) := (t.push a).pushAll rest
    (t.next :: handles, extended)

namespace Program

/-- Declare a binding in a scope under its own name; the result says whether the name was free for
it. -/
def declare (p : Program) (scope : ScopeId) (b : Binding) : Bool × Program :=
  let identity := p.identity b
  (((p.scope scope).declare identity b).1,
    { p with scopes := p.scopes.modify scope fun s => (s.declare identity b).2 })

/-- Bind a name in a scope, whatever it stood for before. -/
def bind (p : Program) (scope : ScopeId) (identity : String) (b : Binding) : Program :=
  { p with
    scopes := p.scopes.modify scope fun s => { s with bindings := s.bindings.insert identity b } }

/-- Add an empty scope. -/
def addScope (p : Program) (parent : Option ScopeId) : ScopeId × Program :=
  (p.scopes.next, { p with scopes := p.scopes.push { parent } })

/-- Add a variable. -/
def addVar (p : Program) (scope : ScopeId) (node : Variable) : VarId × Program :=
  let h := p.vars.next
  (h, ({ p with vars := p.vars.push node }.declare scope (.decl (.var h))).2)

/-- Add a native type. -/
def addNative (p : Program) (scope : ScopeId) (node : NativeType) : NativeId × Program :=
  let h := p.natives.next
  (h, ({ p with natives := p.natives.push node }.declare scope (.decl (.native h))).2)

/-- Add an enum with its values, each with its place. -/
def addEnum (p : Program) (scope : ScopeId) (identity : String) (values : List (String × Span))
    (span : Span) : EnumId × Program :=
  let h := p.enums.next
  let nodes := values.map fun (name, place) => ⟨name, h, place⟩
  let (handles, enumValues) := p.enumValues.pushAll nodes
  let extended := { p with enumValues, enums := p.enums.push ⟨identity, handles, span⟩ }
  (h, (extended.declare scope (.decl (.enum h))).2)

/-- Add an entity. -/
def addEntity (p : Program) (scope : ScopeId) (node : Entity) : EntityId × Program :=
  let h := p.entities.next
  (h, ({ p with entities := p.entities.push node }.declare scope (.decl (.entity h))).2)

/-- Add a state. -/
def addState (p : Program) (scope : ScopeId) (node : StateProperty) : StateId × Program :=
  let h := p.states.next
  (h, ({ p with states := p.states.push node }.declare scope (.decl (.state h))).2)

/-- Add a function. -/
def addFunction (p : Program) (scope : ScopeId) (node : FunctionProperty) : FunctionId × Program :=
  let h := p.functions.next
  (h, ({ p with functions := p.functions.push node }.declare scope (.decl (.function h))).2)

/-- Add variables from left to right. -/
def addVars (p : Program) (scope : ScopeId) : List (String × Pattern) → List VarId × Program
  | [] => ([], p)
  | (identity, pattern) :: rest =>
    let (h, extended) := p.addVar scope { identity, pattern }
    let (handles, final) := extended.addVars scope rest
    (h :: handles, final)

/-- Add a state together with a scope of its own that holds its parameters. -/
def declareState (p : Program) (scope : ScopeId) (identity : String) (pattern : Pattern)
    (parameters : List (String × Pattern)) (initialValue : Option Expr) : StateId × Program :=
  let (own, withScope) := p.addScope (some scope)
  let (handles, withVars) := withScope.addVars own parameters
  withVars.addState scope { identity, pattern, scope := own, parameters := handles, initialValue }

/-- Add a function without a body, together with a scope of its own that holds its parameters. -/
def declareFunction (p : Program) (scope : ScopeId) (identity : String) (pattern : Pattern)
    (parameters : List (String × Pattern)) : FunctionId × Program :=
  let (own, withScope) := p.addScope (some scope)
  let (handles, withVars) := withScope.addVars own parameters
  withVars.addFunction scope { identity, pattern, scope := own, parameters := handles }

/-- The intrinsic native types, in the order of their handles. -/
def intrinsics : List NativeType :=
  [{ identity := "none", hostIdentity := "unit" }, { identity := "bool", hostIdentity := "bool" },
    { identity := "int", hostIdentity := "i64" }, { identity := "number", hostIdentity := "f64" },
    { identity := "string", hostIdentity := "str" }]

/-- The program that declares the intrinsic native types only. -/
def fresh : Program :=
  intrinsics.foldl (fun p node => (p.addNative globalScope node).2) (addScope {} none).2

end Program

end EntityLang
