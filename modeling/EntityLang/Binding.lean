import EntityLang.Handle

/-!
# What names stand for

A name is bound to one declaration, or to an overload set when several functions share it. Overload
sets may be nested; `overloads` lists the declarations at the leaves from left to right.
-/

namespace EntityLang

/-- A single thing that a name can stand for. -/
inductive Decl where
  | var (handle : VarId)
  | native (handle : NativeId)
  | enum (handle : EnumId)
  | entity (handle : EntityId)
  | state (handle : StateId)
  | function (handle : FunctionId)
  deriving DecidableEq

/-- What a name stands for in a scope. -/
inductive Binding where
  | decl (declaration : Decl)
  | overloaded (identity : String) (members : List Binding)

/-- The sort of thing that a name stands for. -/
inductive BindingKind where
  | var
  | native
  | enum
  | entity
  | state
  | function
  | overloaded
  deriving DecidableEq

/-- The sort as messages name it. -/
def BindingKind.text : BindingKind → String
  | .var => "variable"
  | .native => "native type"
  | .enum => "enum type"
  | .entity => "entity"
  | .state => "state property"
  | .function => "function property"
  | .overloaded => "overloaded function property"

namespace Decl

/-- The sort of a declaration. -/
def kind : Decl → BindingKind
  | .var _ => .var
  | .native _ => .native
  | .enum _ => .enum
  | .entity _ => .entity
  | .state _ => .state
  | .function _ => .function

/-- The function that a declaration is. -/
def function? : Decl → Option FunctionId
  | .function handle => some handle
  | _ => none

/-- The state that a declaration is. -/
def state? : Decl → Option StateId
  | .state handle => some handle
  | _ => none

end Decl

namespace Binding

instance : Inhabited Binding := ⟨.overloaded "" []⟩

/-- The sort of a binding. -/
def kind : Binding → BindingKind
  | .decl declaration => declaration.kind
  | .overloaded _ _ => .overloaded

/-- Another function may be declared under the same name. -/
def isOverloadable (b : Binding) : Bool :=
  match b.kind with
  | .function | .overloaded => true
  | _ => false

/-- The binding belongs to a property. -/
def isProperty (b : Binding) : Bool :=
  match b.kind with
  | .state | .function | .overloaded => true
  | _ => false

mutual

/-- The declarations at the leaves, from left to right. -/
def overloads : Binding → List Decl
  | .decl declaration => [declaration]
  | .overloaded _ members => overloadsAll members

/-- The declarations at the leaves of several bindings. -/
def overloadsAll : List Binding → List Decl
  | [] => []
  | b :: rest => b.overloads ++ overloadsAll rest

end

/-- The leaves of several bindings are those of each in turn. -/
theorem overloadsAll_eq_flatMap (bs : List Binding) : overloadsAll bs = bs.flatMap overloads := by
  induction bs with
  | nil => rfl
  | cons b rest ih => simp [overloadsAll, ih]

/-- One binding for both, if both may share the name `identity`: the leaves of the newcomer follow
those that are there. -/
def combine? (identity : String) (existing newcomer : Binding) : Option Binding :=
  if existing.isOverloadable && newcomer.isOverloadable then
    match existing with
    | .overloaded own members => some (.overloaded own (members ++ newcomer.overloads.map .decl))
    | .decl declaration =>
      some (.overloaded identity (.decl declaration :: newcomer.overloads.map .decl))
  else none

end Binding

end EntityLang
