import EntityLang.Binding
import EntityLang.Proofs.Renaming.Pattern
import EntityLang.Statement

/-!
# Renaming handles in bindings, expressions and blocks

Two expressions or blocks are related by a renaming if they are the same tree, with every handle of
the one renamed in the other. The values of enums that an expression mentions are among the first
`n`, which is how many there are: the value of an enum is asked for its owner, and a value that does
not exist has no owner that could be renamed.
-/

namespace EntityLang

/-- A declaration under new handles. -/
def Decl.rename (ρ : Renaming) : Decl → Decl
  | .var h => .var (ρ.handle h)
  | .native h => .native (ρ.handle h)
  | .enum h => .enum (ρ.handle h)
  | .entity h => .entity (ρ.handle h)
  | .state h => .state (ρ.handle h)
  | .function h => .function (ρ.handle h)

namespace Decl

variable (ρ : Renaming)

/-- Renaming keeps the sort of a declaration. -/
@[simp] theorem kind_rename (d : Decl) : (d.rename ρ).kind = d.kind := by
  cases d <;> rfl

/-- The state that a declaration is is renamed with it. -/
@[simp] theorem state?_rename (d : Decl) : (d.rename ρ).state? = d.state?.map ρ.handle := by
  cases d <;> rfl

/-- The function that a declaration is is renamed with it. -/
@[simp] theorem function?_rename (d : Decl) :
    (d.rename ρ).function? = d.function?.map ρ.handle := by
  cases d <;> rfl

/-- A renamed declaration is the renamed enum exactly if the declaration is the enum. -/
@[simp] theorem rename_eq_enum_iff (d : Decl) (e : EnumId) :
    d.rename ρ = .enum (ρ.handle e) ↔ d = .enum e := by
  cases d <;> simp [rename]

end Decl

namespace Binding

mutual

/-- Bindings can be compared. -/
def decEq : (b c : Binding) → Decidable (b = c)
  | .decl d, .decl e => decidable_of_iff (d = e) (by simp)
  | .decl _, .overloaded _ _ => isFalse (by simp)
  | .overloaded _ _, .decl _ => isFalse (by simp)
  | .overloaded identity bs, .overloaded identity' cs =>
    have := decEqAll bs cs
    decidable_of_iff (identity = identity' ∧ bs = cs) (by simp)

/-- Lists of bindings can be compared. -/
def decEqAll : (bs cs : List Binding) → Decidable (bs = cs)
  | [], [] => isTrue rfl
  | [], _ :: _ => isFalse (by simp)
  | _ :: _, [] => isFalse (by simp)
  | b :: bs, c :: cs =>
    have := decEq b c
    have := decEqAll bs cs
    decidable_of_iff (b = c ∧ bs = cs) (by simp)

end

instance : DecidableEq Binding := decEq

variable (ρ : Renaming)

mutual

/-- A binding under new handles. -/
def rename : Binding → Binding
  | .decl d => .decl (d.rename ρ)
  | .overloaded identity members => .overloaded identity (renameAll members)

/-- Bindings under new handles. -/
def renameAll : List Binding → List Binding
  | [] => []
  | b :: rest => b.rename :: renameAll rest

end

/-- Renaming a list of bindings renames each of them. -/
theorem renameAll_eq_map (bs : List Binding) : renameAll ρ bs = bs.map (rename ρ) := by
  induction bs with
  | nil => rfl
  | cons b rest ih => rw [renameAll, ih, List.map_cons]

/-- Renaming keeps the sort of a binding. -/
@[simp] theorem kind_rename (b : Binding) : (b.rename ρ).kind = b.kind := by
  cases b with
  | decl d => exact d.kind_rename ρ
  | overloaded identity members => rfl

/-- Renaming keeps whether a binding is a property. -/
@[simp] theorem isProperty_rename (b : Binding) : (b.rename ρ).isProperty = b.isProperty := by
  simp [isProperty]

mutual

/-- The overloads of a renamed binding are the renamed overloads. -/
@[simp] theorem overloads_rename : (b : Binding) →
    (b.rename ρ).overloads = b.overloads.map (Decl.rename ρ)
  | .decl _ => rfl
  | .overloaded _ members => overloadsAll_renameAll members

/-- The overloads of renamed bindings are the renamed overloads. -/
theorem overloadsAll_renameAll : (bs : List Binding) →
    overloadsAll (renameAll ρ bs) = (overloadsAll bs).map (Decl.rename ρ)
  | [] => rfl
  | b :: rest => by
    rw [renameAll, overloadsAll, overloadsAll, List.map_append, overloads_rename b,
      overloadsAll_renameAll rest]

end

end Binding

/-- What a property index refers to, under new handles. -/
def PropertyRef.rename (ρ : Renaming) : PropertyRef → PropertyRef
  | .unresolved name => .unresolved name
  | .state h => .state (ρ.handle h)
  | .function h => .function (ρ.handle h)

/-- What a call refers to, under new handles. -/
def Callee.rename (ρ : Renaming) : Callee → Callee
  | .unresolved name => .unresolved name
  | .function h => .function (ρ.handle h)

namespace Expr

mutual

/-- The second expression is the first one under new handles, and all values of enums in it are
among the first `n`. -/
inductive Renames (ρ : Renaming) (n : Nat) : Expr → Expr → Prop
  | unresolved (name : Mention) (span : Span) :
    Renames ρ n (.unresolved name span) (.unresolved name span)
  | var (h : VarId) (span : Span) : Renames ρ n (.var h span) (.var (ρ.handle h) span)
  | enumValue {v : EnumValueId} (hv : v.index < n) (span : Span) :
    Renames ρ n (.enumValue v span) (.enumValue (ρ.handle v) span)
  | literal (value : Literal) (span : Span) :
    Renames ρ n (.literal value span) (.literal value span)
  | list {items items' : List Expr} {span : Span} (h : RenamesAll ρ n items items') :
    Renames ρ n (.list items span) (.list items' span)
  | instances {items items' : List Expr} {span : Span} (h : RenamesAll ρ n items items') :
    Renames ρ n (.instances items span) (.instances items' span)
  | unary {op : UnaryOp} {operand operand' : Expr} {span : Span}
    (h : Renames ρ n operand operand') :
    Renames ρ n (.unary op operand span) (.unary op operand' span)
  | binary {op : BinaryOp} {lhs lhs' rhs rhs' : Expr} {span : Span} (hl : Renames ρ n lhs lhs')
    (hr : Renames ρ n rhs rhs') : Renames ρ n (.binary op lhs rhs span) (.binary op lhs' rhs' span)
  | property {subject subject' : Expr} {target : PropertyRef} {span : Span}
    (h : Renames ρ n subject subject') :
    Renames ρ n (.property subject target span) (.property subject' (target.rename ρ) span)
  | select {subject subject' : Expr} {rules rules' : List (Rule Expr)} {span : Span}
    (hs : Renames ρ n subject subject') (hr : RenamesRules ρ n rules rules') :
    Renames ρ n (.select subject rules span) (.select subject' rules' span)
  | call {callee : Callee} {args args' : List Expr} {span : Span} (h : RenamesAll ρ n args args') :
    Renames ρ n (.call callee args span) (.call (callee.rename ρ) args' span)
  | cond {rules rules' : List (Rule Expr)} {otherwise otherwise' : Option Expr} {span : Span}
    (hr : RenamesRules ρ n rules rules') (ho : RenamesOption ρ n otherwise otherwise') :
    Renames ρ n (.cond rules otherwise span) (.cond rules' otherwise' span)
  | index {subject subject' position position' : Expr} {span : Span}
    (hs : Renames ρ n subject subject') (hp : Renames ρ n position position') :
    Renames ρ n (.index subject position span) (.index subject' position' span)
  | invalid (span : Span) : Renames ρ n (.invalid span) (.invalid span)

/-- Expressions under new handles. -/
inductive RenamesAll (ρ : Renaming) (n : Nat) : List Expr → List Expr → Prop
  | nil : RenamesAll ρ n [] []
  | cons {e e' : Expr} {rest rest' : List Expr} (he : Renames ρ n e e')
    (hrest : RenamesAll ρ n rest rest') : RenamesAll ρ n (e :: rest) (e' :: rest')

/-- Rules under new handles. -/
inductive RenamesRules (ρ : Renaming) (n : Nat) : List (Rule Expr) → List (Rule Expr) → Prop
  | nil : RenamesRules ρ n [] []
  | cons {head head' result result' : Expr} {span : Span} {rest rest' : List (Rule Expr)}
    (hh : Renames ρ n head head') (hr : Renames ρ n result result')
    (hrest : RenamesRules ρ n rest rest') :
    RenamesRules ρ n (⟨head, result, span⟩ :: rest) (⟨head', result', span⟩ :: rest')

/-- An expression that may be absent, under new handles. -/
inductive RenamesOption (ρ : Renaming) (n : Nat) : Option Expr → Option Expr → Prop
  | none : RenamesOption ρ n none none
  | some {e e' : Expr} (h : Renames ρ n e e') : RenamesOption ρ n (some e) (some e')

end

variable {ρ : Renaming} {n : Nat}

/-- The place stays the same. -/
theorem Renames.span_eq {e e' : Expr} (h : Renames ρ n e e') : e'.span = e.span := by
  cases h <;> rfl

/-- Related lists of expressions have the same length. -/
theorem RenamesAll.length_eq {es es' : List Expr} (h : RenamesAll ρ n es es') :
    es'.length = es.length := by
  induction es generalizing es' with
  | nil =>
    cases h
    rfl
  | cons e rest ih =>
    cases h with
    | cons he hrest => exact congrArg Nat.succ (ih hrest)

/-- Related lists of rules are both empty or neither is. -/
theorem RenamesRules.isEmpty_eq {rules rules' : List (Rule Expr)}
    (h : RenamesRules ρ n rules rules') : rules'.isEmpty = rules.isEmpty := by
  cases h <;> rfl

end Expr

mutual

/-- The second block is the first one under new handles. -/
inductive Block.Renames (ρ : Renaming) (n : Nat) : Block → Block → Prop
  | mk {singleton : Bool} {scope : ScopeId} {statements statements' : List Statement} {span : Span}
    (h : Statement.RenamesAll ρ n statements statements') :
    Block.Renames ρ n ⟨singleton, scope, statements, span⟩
      ⟨singleton, ρ.handle scope, statements', span⟩

/-- The second statement is the first one under new handles. -/
inductive Statement.Renames (ρ : Renaming) (n : Nat) : Statement → Statement → Prop
  | expr {value value' : Expr} (h : value.Renames ρ n value') :
    Statement.Renames ρ n (.expr value) (.expr value')
  | block {body body' : Block} (h : Block.Renames ρ n body body') :
    Statement.Renames ρ n (.block body) (.block body')
  | cond {branches branches' : List (Branch Block)} {otherwise otherwise' : Option Block}
    {span : Span} (hb : Statement.RenamesBranches ρ n branches branches')
    (ho : Statement.RenamesOtherwise ρ n otherwise otherwise') :
    Statement.Renames ρ n (.cond branches otherwise span) (.cond branches' otherwise' span)
  | forEach {item : VarId} {range range' : Expr} {body body' : Block} {span : Span}
    (hr : range.Renames ρ n range') (hb : Block.Renames ρ n body body') :
    Statement.Renames ρ n (.forEach item range body span)
      (.forEach (ρ.handle item) range' body' span)
  | assign {subject subject' value value' : Expr} {span : Span}
    (hs : subject.Renames ρ n subject') (hv : value.Renames ρ n value') :
    Statement.Renames ρ n (.assign subject value span) (.assign subject' value' span)
  | declare {target : VarId} {value value' : Option Expr} {span : Span}
    (h : Expr.RenamesOption ρ n value value') :
    Statement.Renames ρ n (.declare target value span) (.declare (ρ.handle target) value' span)

/-- Statements under new handles. -/
inductive Statement.RenamesAll (ρ : Renaming) (n : Nat) : List Statement → List Statement → Prop
  | nil : Statement.RenamesAll ρ n [] []
  | cons {x x' : Statement} {rest rest' : List Statement} (h : Statement.Renames ρ n x x')
    (hrest : Statement.RenamesAll ρ n rest rest') :
    Statement.RenamesAll ρ n (x :: rest) (x' :: rest')

/-- Branches under new handles. -/
inductive Statement.RenamesBranches (ρ : Renaming) (n : Nat) :
    List (Branch Block) → List (Branch Block) → Prop
  | nil : Statement.RenamesBranches ρ n [] []
  | cons {condition condition' : Expr} {body body' : Block} {span : Span}
    {rest rest' : List (Branch Block)} (hc : condition.Renames ρ n condition')
    (hb : Block.Renames ρ n body body') (hrest : Statement.RenamesBranches ρ n rest rest') :
    Statement.RenamesBranches ρ n (⟨condition, body, span⟩ :: rest)
      (⟨condition', body', span⟩ :: rest')

/-- A block that may be absent, under new handles. -/
inductive Statement.RenamesOtherwise (ρ : Renaming) (n : Nat) : Option Block → Option Block → Prop
  | none : Statement.RenamesOtherwise ρ n none none
  | some {body body' : Block} (h : Block.Renames ρ n body body') :
    Statement.RenamesOtherwise ρ n (some body) (some body')

end

section Result

variable {ρ : Renaming} {n : Nat}

/-- Related lists of statements are both empty or neither is. -/
theorem Statement.RenamesAll.isEmpty_eq {xs xs' : List Statement}
    (h : Statement.RenamesAll ρ n xs xs') : xs'.isEmpty = xs.isEmpty := by
  cases h <;> rfl

/-- The last statements are related. -/
theorem Statement.RenamesAll.getLast? {xs xs' : List Statement}
    (h : Statement.RenamesAll ρ n xs xs') :
    Option.Rel (Statement.Renames ρ n) xs.getLast? xs'.getLast? := by
  induction xs generalizing xs' with
  | nil =>
    cases h
    exact .none
  | cons x rest ih =>
    cases h with
    | cons h hrest =>
      cases hrest with
      | nil => exact .some h
      | cons h' hrest' =>
        rw [List.getLast?_cons_cons, List.getLast?_cons_cons]
        exact ih (.cons h' hrest')

/-- The values that blocks stand for are related. -/
theorem Block.Renames.result? {b b' : Block} (h : Block.Renames ρ n b b') :
    Option.Rel (Expr.Renames ρ n) b.result? b'.result? := by
  cases h with
  | @mk singleton scope statements statements' span h =>
    cases singleton with
    | false => exact .none
    | true =>
      have hlast := Statement.RenamesAll.getLast? h
      simp only [Block.result?]
      cases hx : statements.getLast? <;> cases hx' : statements'.getLast? <;>
        rw [hx, hx'] at hlast <;> cases hlast
      · exact .none
      · rename_i hrel
        cases hrel with
        | expr h => exact .some h
        | _ => exact .none

end Result

end EntityLang
