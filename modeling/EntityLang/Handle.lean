/-!
# Handles and tables

The nodes of a program are kept in one table for each kind of node, in order of creation. A handle
names a node by its kind and its place in that order, so handles of different kinds cannot be mixed.

Tables only grow, and a node is changed in place. The lemmas state what a read sees after each of
the two changes.
-/

namespace EntityLang

/-- The kinds of node that a program holds. -/
inductive NodeKind where
  | scope
  | var
  | native
  | enum
  | enumValue
  | entity
  | state
  | function
  deriving DecidableEq

/-- The name of a node: its place among the nodes of its kind. -/
@[ext]
structure Handle (kind : NodeKind) where
  index : Nat
  deriving DecidableEq, Inhabited

/-- The handle of a scope. -/
abbrev ScopeId := Handle .scope

/-- The handle of a variable. -/
abbrev VarId := Handle .var

/-- The handle of a native type. -/
abbrev NativeId := Handle .native

/-- The handle of an enum type. -/
abbrev EnumId := Handle .enum

/-- The handle of a value of an enum type. -/
abbrev EnumValueId := Handle .enumValue

/-- The handle of an entity. -/
abbrev EntityId := Handle .entity

/-- The handle of a state property. -/
abbrev StateId := Handle .state

/-- The handle of a function property. -/
abbrev FunctionId := Handle .function

/-- The nodes of one kind, in order of creation. -/
structure Table (kind : NodeKind) (α : Type) where
  nodes : Array α := #[]

namespace Table

variable {kind : NodeKind} {α : Type}

/-- The number of nodes. -/
def size (t : Table kind α) : Nat := t.nodes.size

/-- The handle that the next node will get. -/
def next (t : Table kind α) : Handle kind := ⟨t.size⟩

/-- The node of a handle, if the handle is in range. -/
def get? (t : Table kind α) (h : Handle kind) : Option α := t.nodes[h.index]?

/-- The node of a handle; a handle out of range reads as the blank node. -/
def get [Inhabited α] (t : Table kind α) (h : Handle kind) : α := (t.get? h).getD default

/-- Add a node under the handle `next`. -/
def push (t : Table kind α) (a : α) : Table kind α := ⟨t.nodes.push a⟩

/-- Change the node of one handle. -/
def modify (t : Table kind α) (h : Handle kind) (f : α → α) : Table kind α :=
  ⟨t.nodes.modify h.index f⟩

/-- All nodes in order of creation. -/
def toList (t : Table kind α) : List α := t.nodes.toList

/-- A handle is in range exactly when it has a node. -/
theorem isSome_get? (t : Table kind α) (h : Handle kind) :
    (t.get? h).isSome ↔ h.index < t.size := by
  simp [get?, size]

/-- A new node makes a table longer by one. -/
@[simp] theorem size_push (t : Table kind α) (a : α) : (t.push a).size = t.size + 1 := by
  simp [push, size]

/-- A change to a node keeps the number of nodes. -/
@[simp] theorem size_modify (t : Table kind α) (h : Handle kind) (f : α → α) :
    (t.modify h f).size = t.size := by
  simp [modify, size]

/-- A new node is found under the handle that was next. -/
theorem get?_push (t : Table kind α) (a : α) (h : Handle kind) :
    (t.push a).get? h = if h = t.next then some a else t.get? h := by
  simp [push, get?, next, size, Array.getElem?_push, Handle.ext_iff]

/-- A change is seen under its own handle only. -/
theorem get?_modify (t : Table kind α) (h k : Handle kind) (f : α → α) :
    (t.modify h f).get? k = if k = h then (t.get? k).map f else t.get? k := by
  by_cases hk : k = h
  · subst hk
    simp [modify, get?, Array.getElem?_modify]
  · have : h.index ≠ k.index := fun e => hk (Handle.ext e.symm)
    simp [modify, get?, Array.getElem?_modify, hk, this]

end Table

end EntityLang
