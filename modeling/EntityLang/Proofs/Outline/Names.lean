import EntityLang.Outline.Program
import EntityLang.Proofs.Block.Variables

/-!
# Names in an outline

The outline of a name is a node of its own kind. The outline of a pattern holds one if the core of
the pattern is a name, and the outline of an expression if a part of the expression is one. A block
shows the names in its expressions, in the patterns of its variables, and in what is written of its
scopes.
-/

namespace EntityLang

namespace Json

/-- The value is the text. -/
def isText (text : String) : Json → Bool
  | .string s => s == text
  | _ => false

mutual

/-- Somewhere in the value there is an object whose field `node` is the kind. -/
def holdsNode (kind : String) : Json → Bool
  | .array items => anyHoldsNode kind items
  | .object fields => fieldsHoldNode kind fields
  | _ => false

/-- Somewhere in the values there is such an object. -/
def anyHoldsNode (kind : String) : List Json → Bool
  | [] => false
  | j :: rest => j.holdsNode kind || anyHoldsNode kind rest

/-- One of the fields makes an object such an object, or there is one in its value. -/
def fieldsHoldNode (kind : String) : List (String × Json) → Bool
  | [] => false
  | (key, value) :: rest =>
    ((key == "node" && value.isText kind) || value.holdsNode kind) || fieldsHoldNode kind rest

end

/-- The field makes an object one of the kind, or there is such an object in its value. -/
def fieldHoldsNode (kind : String) (field : String × Json) : Bool :=
  (field.1 == "node" && field.2.isText kind) || field.2.holdsNode kind

section Holds

variable (kind : String)

/-- There is no node in null. -/
@[simp] theorem holdsNode_null : null.holdsNode kind = false := rfl

/-- There is no node in a truth value. -/
@[simp] theorem holdsNode_bool (b : Bool) : (bool b).holdsNode kind = false := rfl

/-- There is no node in an integer. -/
@[simp] theorem holdsNode_int (i : Int) : (int i).holdsNode kind = false := rfl

/-- There is no node in a natural number. -/
@[simp] theorem holdsNode_nat (n : Nat) : (nat n).holdsNode kind = false := rfl

/-- There is no node in a string. -/
@[simp] theorem holdsNode_string (s : String) : (string s).holdsNode kind = false := rfl

/-- There is no node in a number, nor in the null that stands for one. -/
@[simp] theorem holdsNode_ofNumber (x : Number) : (ofNumber x).holdsNode kind = false := by
  unfold ofNumber
  split <;> rfl

/-- The nodes in an array are those in its items. -/
@[simp] theorem holdsNode_array (items : List Json) :
    (array items).holdsNode kind = items.any (holdsNode kind) := by
  rw [holdsNode]
  induction items with
  | nil => rfl
  | cons j rest ih => rw [anyHoldsNode, List.any_cons, ih]

/-- An object holds a node exactly if one of its fields makes it one or holds one. -/
@[simp] theorem holdsNode_object (fields : List (String × Json)) :
    (object fields).holdsNode kind = fields.any (fieldHoldsNode kind) := by
  rw [holdsNode]
  induction fields with
  | nil => rfl
  | cons field rest ih =>
    rw [fieldsHoldNode, List.any_cons, ih]
    rfl

/-- Putting a field in its place adds what the field holds. -/
theorem any_insertField (P : String × Json → Bool) (key : String) (value : Json)
    (fields : List (String × Json)) :
    (insertField key value fields).any P = (P (key, value) || fields.any P) := by
  induction fields with
  | nil => rfl
  | cons field rest ih =>
    rw [insertField]
    split
    · rfl
    · rw [List.any_cons, ih, List.any_cons, Bool.or_left_comm]

/-- Sorted fields hold what the fields hold. -/
@[simp] theorem holdsNode_record (fields : List (String × Json)) :
    (record fields).holdsNode kind = fields.any (fieldHoldsNode kind) := by
  rw [record, holdsNode_object]
  induction fields with
  | nil => rfl
  | cons field rest ih => rw [List.foldr_cons, any_insertField, ih, List.any_cons]

/-- A node is of the kind or there is one in its fields. -/
@[simp] theorem holdsNode_node (k : String) (fields : List (String × Json)) :
    (node k fields).holdsNode kind = (k == kind || fields.any (fieldHoldsNode kind)) := by
  rw [node, holdsNode_record, List.any_cons]
  simp [fieldHoldsNode, isText]

/-- A field of another name does not say what kind of node an object is. -/
@[simp] theorem fieldHoldsNode_of_ne {key : String} (hkey : key ≠ "node") (value : Json) :
    fieldHoldsNode kind (key, value) = value.holdsNode kind := by
  simp [fieldHoldsNode, hkey]

/-- An object in a field does not say what kind of node the object around it is. -/
theorem fieldHoldsNode_node (key k : String) (fields : List (String × Json)) :
    fieldHoldsNode kind (key, node k fields) = (node k fields).holdsNode kind := by
  simp [fieldHoldsNode, node, record, isText]

end Holds

/-- Somewhere in the value there is a name that is not resolved. -/
abbrev holdsName (j : Json) : Bool := j.holdsNode "UnresolvedIdentity"

end Json

/-! ### Patterns and expressions -/

/-- The outline of a name is a name. -/
@[simp] theorem Mention.holdsName_outline (name : Mention) : name.outline.holdsName = true := by
  simp [outline]

/-- The outline of a pattern holds a name exactly if the pattern does. -/
@[simp] theorem Pattern.holdsName_outline (p : Program) (x : Pattern) :
    (x.outline p).holdsName = x.unresolved?.isSome := by
  induction x with
  | unresolved name => exact name.holdsName_outline
  | optional inner ih =>
    have hcore : (optional inner).unresolved? = inner.unresolved? := rfl
    simp [outline, hcore, ih]
  | _ => simp [outline, unresolved?, core]

/-- The outline of a literal holds no name. -/
@[simp] theorem Literal.holdsName_outline (value : Literal) : value.outline.holdsName = false := by
  cases value <;> simp [outline]

/-- The outline of an enum value holds no name. -/
@[simp] theorem Program.holdsName_enumValueOutline (p : Program) (h : EnumValueId) :
    (p.enumValueOutline h).holdsName = false := by
  simp [enumValueOutline]

namespace Expr

variable (p : Program)

/-- The outlines of expressions hold a name if one of them does. -/
@[simp] theorem any_holdsName_outlineAll (es : List Expr) :
    (outlineAll p es).any Json.holdsName = es.any fun e => (e.outline p).holdsName := by
  induction es with
  | nil => rfl
  | cons e rest ih => rw [outlineAll, List.any_cons, ih, List.any_cons]

/-- The outlines of rules hold a name if that of a head or of a result does. -/
@[simp] theorem any_holdsName_outlineRules {headName : String} (hname : headName ≠ "node")
    (rules : List (Rule Expr)) :
    (outlineRules p headName rules).any Json.holdsName =
      (rules.flatMap fun r => [r.head, r.result]).any fun e => (e.outline p).holdsName := by
  induction rules with
  | nil => rfl
  | cons r rest ih =>
    rw [outlineRules, List.any_cons, ih, List.flatMap_cons, List.any_append]
    simp [hname]

/-- The outline of an expression that may be absent holds a name if it is there and does. -/
@[simp] theorem holdsName_outlineOption (o : Option Expr) :
    (outlineOption p o).holdsName = o.toList.any fun e => (e.outline p).holdsName := by
  cases o with
  | none => rfl
  | some e => simp [outlineOption]

/-- The outline of an expression holds a name if the node is one or the outline of a child holds
one. -/
theorem holdsName_outline (e : Expr) : (e.outline p).holdsName =
    (e.mention?.isSome || e.children.any fun x => (x.outline p).holdsName) := by
  cases e with
  | property subject target span =>
    cases target <;> simp [outline, PropertyRef.outline, mention?, children]
  | call callee args span => cases callee <;> simp [outline, Callee.outline, mention?, children]
  | _ => simp [outline, mention?, children]

/-- The outline of an expression holds no name exactly if the expression is resolved. -/
theorem holdsName_outline_eq_false_iff (e : Expr) :
    (e.outline p).holdsName = false ↔ e.IsResolved := by
  induction e using induction_children with
  | node e ih =>
    rw [holdsName_outline, Bool.or_eq_false_iff, Option.isSome_eq_false_iff,
      Option.isNone_iff_eq_none, List.any_eq_false, IsResolved, everywhere_iff]
    refine and_congr_right fun _ => forall₂_congr fun x hx => ?_
    rw [Bool.not_eq_true]
    exact ih x hx

end Expr

/-! ### Blocks -/

/-- The pattern of the variable is a name. -/
def Program.isNamed (p : Program) (v : VarId) : Bool := (p.var v).pattern.unresolved?.isSome

/-- The outline of a variable holds a name exactly if its pattern is one. -/
@[simp] theorem Program.holdsName_varOutline (p : Program) (v : VarId) :
    (p.varOutline v).holdsName = p.isNamed v := by
  simp [varOutline, isNamed]

/-- What is written at a site holds a name. -/
def Site.holdsName (p : Program) (enter : ScopeId → Option Json) : Site → Bool
  | .enter _ c => (enter c).any Json.holdsName
  | .eval _ _ e => (e.outline p).holdsName
  | .declare _ _ => false

section Blocks

variable (p : Program) (enter : ScopeId → Option Json)

mutual

/-- If the scopes of a block have outlines, so has the block, and it holds the names at its sites
and those of its variables. -/
theorem Block.map_holdsName_outline (outer : ScopeId) (hinted : Bool) : (b : Block) →
    (∀ o c, .enter o c ∈ b.sites outer hinted → (enter c).isSome) →
    (b.outline p enter).map Json.holdsName =
      some ((b.sites outer hinted).any (Site.holdsName p enter) ||
        b.variables.any fun x => p.isNamed x.2)
  | ⟨singleton, scope, statements, _⟩, h => by
    obtain ⟨j, hj⟩ := Option.isSome_iff_exists.mp (h outer scope List.mem_cons_self)
    obtain ⟨js, hjs, hholds⟩ := Option.map_eq_some_iff.mp
      (Statement.map_any_outlineAll scope (hinted && singleton) statements fun o c hc =>
        h o c (List.mem_cons_of_mem _ hc))
    simp [Block.outline, Block.sites, Block.variables, Site.holdsName, hj, hjs, hholds,
      Bool.or_assoc]

/-- The outline of a statement. -/
theorem Statement.map_holdsName_outline (s : ScopeId) (hinted : Bool) : (statement : Statement) →
    (∀ o c, .enter o c ∈ statement.sites s hinted → (enter c).isSome) →
    (statement.outline p enter).map Json.holdsName =
      some ((statement.sites s hinted).any (Site.holdsName p enter) ||
        (statement.variables s).any fun x => p.isNamed x.2)
  | .expr value, _ => by
    simp [Statement.outline, Statement.sites, Statement.variables, Site.holdsName]
  | .block body, h => Block.map_holdsName_outline s false body h
  | .cond branches otherwise _, h => by
    obtain ⟨js, hjs, hbranches⟩ := Option.map_eq_some_iff.mp
      (Statement.map_any_outlineBranches s branches fun o c hc =>
        h o c (List.mem_append_left _ hc))
    obtain ⟨j, hj, hotherwise⟩ := Option.map_eq_some_iff.mp
      (Statement.map_holdsName_outlineOtherwise s otherwise fun o c hc =>
        h o c (List.mem_append_right _ hc))
    simp [Statement.outline, Statement.sites, Statement.variables, hjs, hj, hbranches, hotherwise,
      Bool.or_assoc, Bool.or_left_comm]
  | .forEach item range body _, h => by
    obtain ⟨j, hj, hbody⟩ := Option.map_eq_some_iff.mp
      (Block.map_holdsName_outline s false body fun o c hc =>
        h o c (List.mem_cons_of_mem _ hc))
    simp [Statement.outline, Statement.sites, Statement.variables, Site.holdsName, hj, hbody,
      Json.holdsName, Bool.or_assoc, Bool.or_left_comm]
  | .assign subject value _, _ => by
    simp [Statement.outline, Statement.sites, Statement.variables, Site.holdsName]
  | .declare target value _, _ => by
    cases value <;>
      simp [Statement.outline, Statement.sites, Statement.variables, Site.holdsName, Bool.or_comm]

/-- The outlines of statements. -/
theorem Statement.map_any_outlineAll (s : ScopeId) (hinted : Bool) :
    (statements : List Statement) →
    (∀ o c, .enter o c ∈ Statement.sitesAll s hinted statements → (enter c).isSome) →
    (Statement.outlineAll p enter statements).map (List.any · Json.holdsName) =
      some ((Statement.sitesAll s hinted statements).any (Site.holdsName p enter) ||
        (Statement.variablesAll s statements).any fun x => p.isNamed x.2)
  | [], _ => rfl
  | statement :: rest, h => by
    obtain ⟨j, hj, hstatement⟩ := Option.map_eq_some_iff.mp
      (Statement.map_holdsName_outline s _ statement fun o c hc =>
        h o c (List.mem_append_left _ hc))
    obtain ⟨js, hjs, hrest⟩ := Option.map_eq_some_iff.mp
      (Statement.map_any_outlineAll s hinted rest fun o c hc =>
        h o c (List.mem_append_right _ hc))
    simp [Statement.outlineAll, Statement.sitesAll, Statement.variablesAll, hj, hjs, hstatement,
      hrest, Bool.or_assoc, Bool.or_left_comm]

/-- The outlines of branches. -/
theorem Statement.map_any_outlineBranches (s : ScopeId) : (branches : List (Branch Block)) →
    (∀ o c, .enter o c ∈ Statement.sitesBranches s branches → (enter c).isSome) →
    (Statement.outlineBranches p enter branches).map (List.any · Json.holdsName) =
      some ((Statement.sitesBranches s branches).any (Site.holdsName p enter) ||
        (Statement.variablesBranches branches).any fun x => p.isNamed x.2)
  | [], _ => rfl
  | ⟨condition, body, _⟩ :: rest, h => by
    obtain ⟨j, hj, hbody⟩ := Option.map_eq_some_iff.mp
      (Block.map_holdsName_outline s false body fun o c hc =>
        h o c (List.mem_cons_of_mem _ (List.mem_append_left _ hc)))
    obtain ⟨js, hjs, hrest⟩ := Option.map_eq_some_iff.mp
      (Statement.map_any_outlineBranches s rest fun o c hc =>
        h o c (List.mem_cons_of_mem _ (List.mem_append_right _ hc)))
    simp [Statement.outlineBranches, Statement.sitesBranches, Statement.variablesBranches,
      Site.holdsName, hj, hjs, hbody, hrest, Bool.or_assoc, Bool.or_left_comm]

/-- The outline of the last block of a conditional, null if there is none. -/
theorem Statement.map_holdsName_outlineOtherwise (s : ScopeId) : (otherwise : Option Block) →
    (∀ o c, .enter o c ∈ Statement.sitesOtherwise s otherwise → (enter c).isSome) →
    (Statement.outlineOtherwise p enter otherwise).map Json.holdsName =
      some ((Statement.sitesOtherwise s otherwise).any (Site.holdsName p enter) ||
        (Statement.variablesOtherwise otherwise).any fun x => p.isNamed x.2)
  | none, _ => rfl
  | some body, h => Block.map_holdsName_outline s false body h

end

end Blocks

end EntityLang
