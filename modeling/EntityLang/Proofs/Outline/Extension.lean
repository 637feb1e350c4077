import EntityLang.Outline.Program
import EntityLang.Proofs.Program.Extension

/-!
# Outlines inside larger programs

An intact program and a program that extends it have the same outline of every scope, to every
depth. So an outline never reads a node that is not there.
-/

namespace EntityLang

namespace Expr

variable {p q : Program}

/-- Expressions that are outlined alike one by one are so in a list. -/
theorem outlineAll_congr (es : List Expr) (h : ∀ e ∈ es, e.outline q = e.outline p) :
    outlineAll q es = outlineAll p es := by
  induction es with
  | nil => rfl
  | cons e rest ih =>
    rw [List.forall_mem_cons] at h
    rw [outlineAll, outlineAll, h.1, ih h.2]

/-- Rules whose parts are outlined alike are outlined alike. -/
theorem outlineRules_congr {rules : List (Rule Expr)}
    (h : ∀ r ∈ rules,
      r.head.outline q = r.head.outline p ∧ r.result.outline q = r.result.outline p)
    (headName : String) : outlineRules q headName rules = outlineRules p headName rules := by
  induction rules with
  | nil => rfl
  | cons r rest ih =>
    rw [List.forall_mem_cons] at h
    rw [outlineRules, outlineRules, h.1.1, h.1.2, ih h.2]

/-- An expression that may be absent is outlined alike if it is when present. -/
theorem outlineOption_congr {o : Option Expr} (h : ∀ e ∈ o.toList, e.outline q = e.outline p) :
    outlineOption q o = outlineOption p o := by
  cases o with
  | none => rfl
  | some e => exact h e (by simp)

end Expr

namespace Program.Extends

section

variable {p q : Program} (h : p.Extends q)
include h

/-- A pattern is outlined alike. -/
theorem outlinePattern_eq {x : Pattern} (hx : Within p.count x.refs) :
    x.outline q = x.outline p := by
  induction x with
  | optional inner ih => rw [Pattern.outline, Pattern.outline, ih hx]
  | enum k =>
    have heq : q.enum k = p.enum k := (h.enums k (within_cons.mp hx).1).2
    rw [Pattern.outline, Pattern.outline, heq]
  | entity k =>
    have heq : q.entity k = p.entity k := (h.entities k (within_cons.mp hx).1).2
    rw [Pattern.outline, Pattern.outline, heq]
  | native k =>
    have heq : q.native k = p.native k := (h.natives k (within_cons.mp hx).1).2
    rw [Pattern.outline, Pattern.outline, heq]
  | _ => rfl

variable (hp : p.Intact)
include hp

/-- A variable is outlined alike. -/
theorem varOutline_eq {v : VarId} (hv : v.index < p.vars.size) :
    q.varOutline v = p.varOutline v := by
  have heq : q.var v = p.var v := (h.vars v hv).2
  have hpattern : Within p.count (p.var v).pattern.refs := hp.declPattern (d := .var v) hv
  simp only [varOutline, heq, h.outlinePattern_eq hpattern]

/-- An enum value is outlined alike. -/
theorem enumValueOutline_eq {v : EnumValueId} (hv : v.index < p.enumValues.size) :
    q.enumValueOutline v = p.enumValueOutline v := by
  have heq : q.enumValue v = p.enumValue v := (h.enumValues v hv).2
  have howner : q.enum (p.enumValue v).owner = p.enum (p.enumValue v).owner :=
    (h.enums _ (hp.owner_lt hv)).2
  simp only [enumValueOutline, heq, howner]

/-- An expression is outlined alike. -/
theorem outlineExpr_eq {e : Expr} (he : Within p.count e.refs) : e.outline q = e.outline p := by
  induction e using Expr.induction_children with
  | node e ih =>
    have hchild : ∀ x ∈ e.children, x.outline q = x.outline p := fun x hx =>
      ih x hx (Expr.within_child he hx)
    obtain ⟨hhandle, hvalue⟩ := (within_expr_iff.mp he).self
    cases e with
    | var k span =>
      have heq : q.var k = p.var k := (h.vars k (hhandle (.var k) rfl)).2
      rw [Expr.outline, Expr.outline, heq]
    | enumValue v span => exact h.enumValueOutline_eq hp (hvalue v rfl)
    | list items span =>
      rw [Expr.outline, Expr.outline, Expr.outlineAll_congr items hchild]
    | instances items span =>
      rw [Expr.outline, Expr.outline, Expr.outlineAll_congr items hchild]
    | unary op operand span =>
      rw [Expr.outline, Expr.outline, hchild operand (by simp [Expr.children])]
    | binary op lhs rhs span =>
      rw [Expr.outline, Expr.outline, hchild lhs (by simp [Expr.children]),
        hchild rhs (by simp [Expr.children])]
    | property subject target span =>
      have htarget : target.outline q = target.outline p := by
        cases target with
        | unresolved name => rfl
        | state k =>
          have heq : q.state k = p.state k := (h.states k (hhandle (.state k) rfl)).2
          rw [PropertyRef.outline, PropertyRef.outline, heq]
        | function k =>
          have heq : q.function k = p.function k := (h.functions k (hhandle (.function k) rfl)).2
          rw [PropertyRef.outline, PropertyRef.outline, heq]
      rw [Expr.outline, Expr.outline, hchild subject (by simp [Expr.children]), htarget]
    | select subject rules span =>
      obtain ⟨hsubject, hrules⟩ := List.forall_mem_cons.mp hchild
      rw [Expr.forall_mem_rules_iff] at hrules
      rw [Expr.outline, Expr.outline, hsubject, Expr.outlineRules_congr hrules]
    | call callee args span =>
      have hcallee : callee.outline q = callee.outline p := by
        cases callee with
        | unresolved name => rfl
        | function k =>
          have heq : q.function k = p.function k := (h.functions k (hhandle (.function k) rfl)).2
          rw [Callee.outline, Callee.outline, heq]
      rw [Expr.outline, Expr.outline, hcallee, Expr.outlineAll_congr args hchild]
    | cond rules otherwise span =>
      obtain ⟨hrules, hotherwise⟩ := List.forall_mem_append.mp hchild
      rw [Expr.forall_mem_rules_iff] at hrules
      rw [Expr.outline, Expr.outline, Expr.outlineRules_congr hrules,
        Expr.outlineOption_congr hotherwise]
    | index subject position span =>
      rw [Expr.outline, Expr.outline, hchild subject (by simp [Expr.children]),
        hchild position (by simp [Expr.children])]
    | _ => rfl

/-- An expression that may be absent is outlined alike. -/
theorem outlineOption_eq {o : Option Expr} (ho : Within p.count (o.toList.flatMap Expr.refs)) :
    Expr.outlineOption q o = Expr.outlineOption p o :=
  Expr.outlineOption_congr fun e he => h.outlineExpr_eq hp (within_flatMap.mp ho e he)

/-- Parameters are outlined alike. -/
theorem outlineParameters_eq {vs : List VarId} (hvs : ∀ v ∈ vs, v.index < p.vars.size) :
    vs.map q.varOutline = vs.map p.varOutline :=
  List.map_congr_left fun v hv => h.varOutline_eq hp (hvs v hv)

end

section Blocks

variable {p q : Program} {enter enter' : ScopeId → Option Json}

mutual

/-- A block is outlined alike, if the scopes are. -/
theorem outlineBlock_eq (h : p.Extends q) (hp : p.Intact)
    (henter : p.EntersAlike enter enter') :
    (b : Block) → Within p.count b.refs →
    b.outline q enter' = b.outline p enter
  | ⟨singleton, scope, statements, span⟩, hb => by
    obtain ⟨hscope, hstatements⟩ := within_cons.mp hb
    rw [Block.outline, Block.outline, henter scope hscope,
      h.outlineStatements_eq hp henter statements hstatements]

/-- A statement is outlined alike, if the scopes are. -/
theorem outlineStatement_eq (h : p.Extends q) (hp : p.Intact)
    (henter : p.EntersAlike enter enter') :
    (x : Statement) → Within p.count x.refs →
    x.outline q enter' = x.outline p enter
  | .expr value, hvalue => by
    rw [Statement.outline, Statement.outline, h.outlineExpr_eq hp hvalue]
  | .block body, hbody => by
    rw [Statement.outline, Statement.outline, h.outlineBlock_eq hp henter body hbody]
  | .cond branches otherwise span, hcond => by
    obtain ⟨hbranches, hotherwise⟩ := within_append.mp hcond
    rw [Statement.outline, Statement.outline, h.outlineBranches_eq hp henter branches hbranches,
      h.outlineOtherwise_eq hp henter otherwise hotherwise]
  | .forEach item range body span, hloop => by
    obtain ⟨hhead, hbody⟩ := within_append.mp hloop
    obtain ⟨hitem, hrange⟩ := within_cons.mp hhead
    rw [Statement.outline, Statement.outline, h.outlineBlock_eq hp henter body hbody,
      h.varOutline_eq hp hitem, h.outlineExpr_eq hp hrange]
  | .assign subject value span, hassign => by
    obtain ⟨hsubject, hvalue⟩ := within_append.mp hassign
    rw [Statement.outline, Statement.outline, h.outlineExpr_eq hp hsubject,
      h.outlineExpr_eq hp hvalue]
  | .declare target value span, hdeclare => by
    obtain ⟨htarget, hvalue⟩ := within_cons.mp hdeclare
    rw [Statement.outline, Statement.outline, h.varOutline_eq hp htarget,
      h.outlineOption_eq hp hvalue]

/-- A list of statements is outlined alike, if the scopes are. -/
theorem outlineStatements_eq (h : p.Extends q) (hp : p.Intact)
    (henter : p.EntersAlike enter enter') :
    (xs : List Statement) → Within p.count (Statement.refsAll xs) →
    Statement.outlineAll q enter' xs = Statement.outlineAll p enter xs
  | [], _ => rfl
  | x :: rest, hall => by
    obtain ⟨hx, hrest⟩ := within_append.mp hall
    rw [Statement.outlineAll, Statement.outlineAll, h.outlineStatement_eq hp henter x hx,
      h.outlineStatements_eq hp henter rest hrest]

/-- Branches are outlined alike, if the scopes are. -/
theorem outlineBranches_eq (h : p.Extends q) (hp : p.Intact)
    (henter : p.EntersAlike enter enter') :
    (bs : List (Branch Block)) →
    Within p.count (Statement.refsBranches bs) →
    Statement.outlineBranches q enter' bs = Statement.outlineBranches p enter bs
  | [], _ => rfl
  | ⟨condition, body, span⟩ :: rest, hall => by
    obtain ⟨hfirst, hrest⟩ := within_append.mp hall
    obtain ⟨hcondition, hbody⟩ := within_append.mp hfirst
    rw [Statement.outlineBranches, Statement.outlineBranches, h.outlineExpr_eq hp hcondition,
      h.outlineBlock_eq hp henter body hbody, h.outlineBranches_eq hp henter rest hrest]

/-- A last block is outlined alike, if the scopes are. -/
theorem outlineOtherwise_eq (h : p.Extends q) (hp : p.Intact)
    (henter : p.EntersAlike enter enter') :
    (o : Option Block) → Within p.count (Statement.refsOtherwise o) →
    Statement.outlineOtherwise q enter' o = Statement.outlineOtherwise p enter o
  | none, _ => rfl
  | some body, hbody => by
    rw [Statement.outlineOtherwise, Statement.outlineOtherwise, h.outlineBlock_eq hp henter body hbody]

end

/-! ### Declarations and scopes -/

/-- A declaration is outlined alike, if the scopes are. -/
theorem outlineDecl_eq (h : p.Extends q) (hp : p.Intact) (henter : p.EntersAlike enter enter')
    {d : Decl} (hd : p.HasNode d) : d.outline q enter' = d.outline p enter := by
  cases d with
  | var k => rw [Decl.outline, Decl.outline, h.varOutline_eq hp hd]
  | native k =>
    have heq : q.native k = p.native k := (h.natives k hd).2
    simp only [Decl.outline, heq]
  | entity k =>
    have heq : q.entity k = p.entity k := (h.entities k hd).2
    simp only [Decl.outline, heq]
  | enum k =>
    have heq : q.enum k = p.enum k := (h.enums k hd).2
    have hvalues : (p.enum k).values.map q.enumValueOutline =
        (p.enum k).values.map p.enumValueOutline :=
      List.map_congr_left fun v hv => h.enumValueOutline_eq hp (hp.value_lt hv)
    simp only [Decl.outline, heq, hvalues]
  | state k =>
    have heq : q.state k = p.state k := (h.states k hd).2
    have hrefs := hp.state hd
    simp only [StateProperty.refs, within_append, within_cons, within_map_ref] at hrefs
    obtain ⟨⟨hpattern, -, hparameters⟩, hvalue⟩ := hrefs
    simp only [Decl.outline, heq, h.outlinePattern_eq hpattern,
      h.outlineParameters_eq hp hparameters, h.outlineOption_eq hp hvalue]
  | function k =>
    have heq : q.function k = p.function k := (h.functions k hd).2
    have hrefs := hp.function hd
    simp only [FunctionProperty.refs, within_append, within_cons, within_map_ref] at hrefs
    obtain ⟨⟨hpattern, -, hparameters⟩, hbody⟩ := hrefs
    simp only [Decl.outline, heq, h.outlinePattern_eq hpattern,
      h.outlineParameters_eq hp hparameters, h.outlineOtherwise_eq hp henter _ hbody]

mutual

/-- What a name stands for is outlined alike, if the scopes are. -/
theorem outlineBinding_eq (h : p.Extends q) (hp : p.Intact)
    (henter : p.EntersAlike enter enter') :
    (b : Binding) → Within p.count b.refs →
    b.outline q enter' = b.outline p enter
  | .decl d, hb => by
    rw [Binding.outline, Binding.outline]
    exact h.outlineDecl_eq hp henter (within_binding_iff.mp hb d (by simp [Binding.overloads]))
  | .overloaded identity members, hb => by
    rw [Binding.outline, Binding.outline,
      h.outlineMembers_eq hp henter members fun _ hm => Binding.within_member hb hm]

/-- The members of an overload set are outlined alike, if the scopes are. -/
theorem outlineMembers_eq (h : p.Extends q) (hp : p.Intact)
    (henter : p.EntersAlike enter enter') :
    (bs : List Binding) → (∀ b ∈ bs, Within p.count b.refs) →
    Binding.outlineAll q enter' bs = Binding.outlineAll p enter bs
  | [], _ => rfl
  | b :: rest, hbs => by
    rw [List.forall_mem_cons] at hbs
    rw [Binding.outlineAll, Binding.outlineAll, h.outlineBinding_eq hp henter b hbs.1,
      h.outlineMembers_eq hp henter rest hbs.2]

end

/-- The bindings of a scope are outlined alike, if the scopes that they lead into are. -/
theorem outlineNamed_eq (h : p.Extends q) (hp : p.Intact) (henter : p.EntersAlike enter enter')
    {fields : List (String × Binding)}
    (hfields : ∀ x ∈ fields, Within p.count x.2.refs) :
    Binding.outlineNamed q enter' fields = Binding.outlineNamed p enter fields := by
  induction fields with
  | nil => rfl
  | cons x rest ih =>
    rw [List.forall_mem_cons] at hfields
    rw [Binding.outlineNamed, Binding.outlineNamed, h.outlineBinding_eq hp henter x.2 hfields.1,
      ih hfields.2]

/-- A scope is outlined alike, to any depth. -/
theorem scopeOutlineUpTo_eq (h : p.Extends q) (hp : p.Intact) (depth : Nat) {s : ScopeId}
    (hs : s.index < p.scopes.size) : q.scopeOutlineUpTo depth s = p.scopeOutlineUpTo depth s := by
  induction depth generalizing s with
  | zero => rfl
  | succ depth ih =>
    have hscope : q.scope s = p.scope s := (h.scopes s hs).2
    have hbound := (Scope.within_refs_iff.mp (hp.scope s)).2.1
    rw [scopeOutlineUpTo, scopeOutlineUpTo, hscope, h.outlineNamed_eq hp fun c hc => ih hc]
    intro x hx
    exact hbound x.1 x.2 (Std.TreeMap.mem_toList_iff_getElem?_eq_some.mp hx)

end Blocks

end Program.Extends

end EntityLang
