import EntityLang.Expr.Resolve

/-!
# The parts of an expression

An expression is a tree. Facts about whole trees are proved from the children of a node, whatever
the node is, and stated of all subexpressions at any depth. Two such facts carry the theory of
resolving: no node is a name any more, and every handle belongs to some set of declarations.

Resolving and reading lists, rules and options under hints works member by member.
-/

namespace EntityLang

namespace Expr

/-- The expressions that a node is built from, from left to right. -/
def children : Expr → List Expr
  | .unresolved _ _ | .var _ _ | .enumValue _ _ | .literal _ _ | .invalid _ => []
  | .list items _ | .instances items _ => items
  | .unary _ operand _ => [operand]
  | .binary _ lhs rhs _ => [lhs, rhs]
  | .property subject _ _ => [subject]
  | .select subject rules _ => subject :: rules.flatMap fun r => [r.head, r.result]
  | .call _ args _ => args
  | .cond rules otherwise _ => (rules.flatMap fun r => [r.head, r.result]) ++ otherwise.toList
  | .index subject position _ => [subject, position]

/-- The children that rules contribute are their heads and results. -/
theorem forall_mem_rules_iff {P : Expr → Prop} (rules : List (Rule Expr)) :
    (∀ x ∈ rules.flatMap fun r => [r.head, r.result], P x) ↔
      ∀ r ∈ rules, P r.head ∧ P r.result := by
  induction rules with
  | nil => simp
  | cons r rest ih =>
    rw [List.flatMap_cons, List.forall_mem_append, ih, List.forall_mem_cons]
    simp

/-- The head of a rule is among the children that the rules contribute. -/
theorem head_mem_rules {r : Rule Expr} {rules : List (Rule Expr)} (hr : r ∈ rules) :
    r.head ∈ rules.flatMap fun r => [r.head, r.result] :=
  List.mem_flatMap.mpr ⟨r, hr, by simp⟩

/-- The result of a rule is among the children that the rules contribute. -/
theorem result_mem_rules {r : Rule Expr} {rules : List (Rule Expr)} (hr : r ∈ rules) :
    r.result ∈ rules.flatMap fun r => [r.head, r.result] :=
  List.mem_flatMap.mpr ⟨r, hr, by simp⟩

/-- What holds of a node whenever it holds of its children holds of every expression. -/
@[elab_as_elim]
theorem induction_children {P : Expr → Prop} (e : Expr)
    (node : ∀ e, (∀ x ∈ e.children, P x) → P e) : P e :=
  @Expr.rec P (fun es => ∀ x ∈ es, P x) (fun rules => ∀ r ∈ rules, P r.head ∧ P r.result)
    (fun o => ∀ x ∈ o.toList, P x) (fun r => P r.head ∧ P r.result)
    (fun _ _ => node _ (by simp [children])) (fun _ _ => node _ (by simp [children]))
    (fun _ _ => node _ (by simp [children])) (fun _ _ => node _ (by simp [children]))
    (fun _ _ ih => node _ ih) (fun _ _ ih => node _ ih)
    (fun _ _ _ ih => node _ (by simpa [children] using ih))
    (fun _ _ _ _ ihl ihr => node _ (by simpa [children] using ⟨ihl, ihr⟩))
    (fun _ _ _ ih => node _ (by simpa [children] using ih))
    (fun _ _ _ ih ihr => node _ (List.forall_mem_cons.mpr ⟨ih, (forall_mem_rules_iff _).mpr ihr⟩))
    (fun _ _ _ ih => node _ ih)
    (fun _ _ _ ihr iho =>
      node _ (List.forall_mem_append.mpr ⟨(forall_mem_rules_iff _).mpr ihr, iho⟩))
    (fun _ _ _ ihs ihp => node _ (by simpa [children] using ⟨ihs, ihp⟩))
    (fun _ => node _ (by simp [children]))
    (by simp) (fun _ _ ih ihs => List.forall_mem_cons.mpr ⟨ih, ihs⟩)
    (by simp) (fun _ _ ih ihs => List.forall_mem_cons.mpr ⟨ih, ihs⟩)
    (by simp) (fun _ ih => by simpa using ih) (fun _ _ _ ihh ihr => ⟨ihh, ihr⟩) e

mutual

/-- An expression and all its parts at any depth. -/
def subexprs : Expr → List Expr
  | .list items span => .list items span :: subexprsAll items
  | .instances items span => .instances items span :: subexprsAll items
  | .unary op operand span => .unary op operand span :: operand.subexprs
  | .binary op lhs rhs span => .binary op lhs rhs span :: (lhs.subexprs ++ rhs.subexprs)
  | .property subject target span => .property subject target span :: subject.subexprs
  | .select subject rules span =>
    .select subject rules span :: (subject.subexprs ++ subexprsRules rules)
  | .call callee args span => .call callee args span :: subexprsAll args
  | .cond rules otherwise span =>
    .cond rules otherwise span :: (subexprsRules rules ++ subexprsOption otherwise)
  | .index subject position span =>
    .index subject position span :: (subject.subexprs ++ position.subexprs)
  | leaf => [leaf]

/-- All parts of several expressions. -/
def subexprsAll : List Expr → List Expr
  | [] => []
  | e :: rest => e.subexprs ++ subexprsAll rest

/-- All parts of the heads and the results of rules. -/
def subexprsRules : List (Rule Expr) → List Expr
  | [] => []
  | ⟨head, result, _⟩ :: rest => head.subexprs ++ (result.subexprs ++ subexprsRules rest)

/-- All parts of an expression that may be absent. -/
def subexprsOption : Option Expr → List Expr
  | none => []
  | some e => e.subexprs

end

/-- The parts of several expressions are those of each in turn. -/
theorem subexprsAll_eq_flatMap (es : List Expr) : subexprsAll es = es.flatMap subexprs := by
  induction es with
  | nil => rfl
  | cons e rest ih => simp [subexprsAll, ih]

/-- The parts of rules are those of each head and result in turn. -/
theorem subexprsRules_eq_flatMap (rules : List (Rule Expr)) :
    subexprsRules rules = (rules.flatMap fun r => [r.head, r.result]).flatMap subexprs := by
  induction rules with
  | nil => rfl
  | cons r rest ih => simp [subexprsRules, ih]

/-- The parts of an expression are itself and the parts of its children. -/
theorem subexprs_eq (e : Expr) : e.subexprs = e :: e.children.flatMap subexprs := by
  cases e with
  | cond rules otherwise span =>
    cases otherwise <;>
      simp [subexprs, children, subexprsRules_eq_flatMap, subexprsOption, List.flatMap_append]
  | _ =>
    simp [subexprs, children, subexprsAll_eq_flatMap, subexprsRules_eq_flatMap]

/-- The parts of a part are parts. -/
theorem mem_subexprs_trans {e x y : Expr} (hx : x ∈ e.subexprs) (hy : y ∈ x.subexprs) :
    y ∈ e.subexprs := by
  induction e using induction_children with
  | node e ih =>
    rw [subexprs_eq e, List.mem_cons, List.mem_flatMap] at hx
    obtain rfl | ⟨c, hc, hx⟩ := hx
    · exact hy
    · rw [subexprs_eq e]
      exact List.mem_cons_of_mem _ (List.mem_flatMap.mpr ⟨c, hc, ih c hc hx⟩)

/-- Something holds of an expression and of all its parts at any depth. -/
def Everywhere (Q : Expr → Prop) (e : Expr) : Prop := ∀ x ∈ e.subexprs, Q x

/-- What holds everywhere holds of the node and everywhere in its children. -/
theorem everywhere_iff {Q : Expr → Prop} (e : Expr) :
    e.Everywhere Q ↔ Q e ∧ ∀ x ∈ e.children, x.Everywhere Q := by
  unfold Everywhere
  rw [subexprs_eq e, List.forall_mem_cons]
  simp only [List.mem_flatMap, forall_exists_index, and_imp]
  exact and_congr_right fun _ => ⟨fun h x hx y hy => h y x hx hy, fun h y x hx hy => h x hx y hy⟩

/-- What holds everywhere holds of the expression itself. -/
theorem Everywhere.self {Q : Expr → Prop} {e : Expr} (h : e.Everywhere Q) : Q e :=
  ((everywhere_iff e).mp h).1

/-- What holds everywhere holds everywhere in a child. -/
theorem Everywhere.child {Q : Expr → Prop} {e x : Expr} (h : e.Everywhere Q)
    (hx : x ∈ e.children) : x.Everywhere Q :=
  ((everywhere_iff e).mp h).2 x hx

section Nodes

variable {Q : Expr → Prop}

-- A node without children is its only part.

/-- A name has no part but itself. -/
@[simp] theorem everywhere_unresolved (name : Mention) (span : Span) :
    (unresolved name span).Everywhere Q ↔ Q (.unresolved name span) :=
  (everywhere_iff _).trans (by simp [children])

/-- A variable has no part but itself. -/
@[simp] theorem everywhere_var (h : VarId) (span : Span) :
    (var h span).Everywhere Q ↔ Q (.var h span) :=
  (everywhere_iff _).trans (by simp [children])

/-- An enum value has no part but itself. -/
@[simp] theorem everywhere_enumValue (h : EnumValueId) (span : Span) :
    (enumValue h span).Everywhere Q ↔ Q (.enumValue h span) :=
  (everywhere_iff _).trans (by simp [children])

/-- A literal has no part but itself. -/
@[simp] theorem everywhere_literal (value : Literal) (span : Span) :
    (literal value span).Everywhere Q ↔ Q (.literal value span) :=
  (everywhere_iff _).trans (by simp [children])

/-- The invalid expression has no part but itself. -/
@[simp] theorem everywhere_invalid (span : Span) :
    (invalid span).Everywhere Q ↔ Q (.invalid span) :=
  (everywhere_iff _).trans (by simp [children])

-- Any other node is followed by the parts of its children.

/-- The parts of a list are itself and those of its items. -/
@[simp] theorem everywhere_list (items : List Expr) (span : Span) :
    (list items span).Everywhere Q ↔ Q (.list items span) ∧ ∀ x ∈ items, x.Everywhere Q :=
  everywhere_iff _

/-- The parts of a list of instances are itself and those of its items. -/
@[simp] theorem everywhere_instances (items : List Expr) (span : Span) :
    (instances items span).Everywhere Q ↔
      Q (.instances items span) ∧ ∀ x ∈ items, x.Everywhere Q :=
  everywhere_iff _

/-- The parts of a unary operation are itself and those of its operand. -/
@[simp] theorem everywhere_unary (op : UnaryOp) (operand : Expr) (span : Span) :
    (unary op operand span).Everywhere Q ↔ Q (.unary op operand span) ∧ operand.Everywhere Q :=
  (everywhere_iff _).trans (by simp [children])

/-- The parts of a binary operation are itself and those of its operands. -/
@[simp] theorem everywhere_binary (op : BinaryOp) (lhs rhs : Expr) (span : Span) :
    (binary op lhs rhs span).Everywhere Q ↔
      Q (.binary op lhs rhs span) ∧ lhs.Everywhere Q ∧ rhs.Everywhere Q :=
  (everywhere_iff _).trans (by simp [children])

/-- The parts of a property are itself and those of its subject. -/
@[simp] theorem everywhere_property (subject : Expr) (target : PropertyRef) (span : Span) :
    (property subject target span).Everywhere Q ↔
      Q (.property subject target span) ∧ subject.Everywhere Q :=
  (everywhere_iff _).trans (by simp [children])

/-- The parts of a match are itself and those of its subject and of its rules. -/
@[simp] theorem everywhere_select (subject : Expr) (rules : List (Rule Expr)) (span : Span) :
    (select subject rules span).Everywhere Q ↔ Q (.select subject rules span) ∧
      subject.Everywhere Q ∧ ∀ r ∈ rules, r.head.Everywhere Q ∧ r.result.Everywhere Q := by
  rw [everywhere_iff, children, List.forall_mem_cons, forall_mem_rules_iff]

/-- The parts of a call are itself and those of its arguments. -/
@[simp] theorem everywhere_call (callee : Callee) (args : List Expr) (span : Span) :
    (call callee args span).Everywhere Q ↔
      Q (.call callee args span) ∧ ∀ x ∈ args, x.Everywhere Q :=
  everywhere_iff _

/-- The parts of a conditional are itself and those of its rules and of its last result. -/
@[simp] theorem everywhere_cond (rules : List (Rule Expr)) (otherwise : Option Expr)
    (span : Span) :
    (cond rules otherwise span).Everywhere Q ↔ Q (.cond rules otherwise span) ∧
      (∀ r ∈ rules, r.head.Everywhere Q ∧ r.result.Everywhere Q) ∧
        ∀ x ∈ otherwise, x.Everywhere Q := by
  rw [everywhere_iff, children, List.forall_mem_append, forall_mem_rules_iff]
  simp

/-- The parts of an access by index are itself and those of its subject and its position. -/
@[simp] theorem everywhere_index (subject position : Expr) (span : Span) :
    (index subject position span).Everywhere Q ↔
      Q (.index subject position span) ∧ subject.Everywhere Q ∧ position.Everywhere Q :=
  (everywhere_iff _).trans (by simp [children])

end Nodes

/-- The name that a node still is. -/
def mention? : Expr → Option Mention
  | .unresolved name _ => some name
  | .property _ (.unresolved name) _ => some name
  | .call (.unresolved name) _ _ => some name
  | _ => none

/-- The declaration that a node refers to. -/
def handle? : Expr → Option Decl
  | .var h _ => some (.var h)
  | .property _ (.state h) _ => some (.state h)
  | .property _ (.function h) _ => some (.function h)
  | .call (.function h) _ _ => some (.function h)
  | _ => none

/-- The value of an enum that a node is. -/
def enumValue? : Expr → Option EnumValueId
  | .enumValue v _ => some v
  | _ => none

/-- No part of the expression is a name any more. -/
def IsResolved (e : Expr) : Prop := e.Everywhere fun x => x.mention? = none

/-- Every declaration that a part of the expression refers to belongs to a set. -/
def HandlesIn (A : Decl → Prop) (e : Expr) : Prop := e.Everywhere fun x => ∀ d ∈ x.handle?, A d

/-- A larger set holds the handles too. -/
theorem HandlesIn.mono {A B : Decl → Prop} {e : Expr} (h : e.HandlesIn A) (hAB : ∀ d, A d → B d) :
    e.HandlesIn B := fun x hx d hd => hAB d (h x hx d hd)

/-- Expressions are resolved one by one. -/
theorem resolveAll_value (p : Program) (s : ScopeId) (es : List Expr) :
    (resolveAll p s es).value = es.map fun e => (e.resolve p s none).value := by
  induction es with
  | nil => simp [resolveAll]
  | cons e rest ih => simp [resolveAll, ih]

/-- The reports on several expressions follow each other. -/
theorem resolveAll_reports (p : Program) (s : ScopeId) (es : List Expr) :
    (resolveAll p s es).reports = es.flatMap fun e => (e.resolve p s none).reports := by
  induction es with
  | nil => simp [resolveAll]
  | cons e rest ih => simp [resolveAll, ih]

/-- Rules are resolved one by one. -/
theorem resolveRules_value (p : Program) (s : ScopeId) (headHint resultHint : Option Pattern)
    (rules : List (Rule Expr)) :
    (resolveRules p s headHint resultHint rules).value = rules.map fun r =>
      ⟨(r.head.resolve p s headHint).value, (r.result.resolve p s resultHint).value, r.span⟩ := by
  induction rules with
  | nil => simp [resolveRules]
  | cons r rest ih => simp [resolveRules, ih]

/-- The reports on rules follow each other, those on a head before those on its result. -/
theorem resolveRules_reports (p : Program) (s : ScopeId) (headHint resultHint : Option Pattern)
    (rules : List (Rule Expr)) :
    (resolveRules p s headHint resultHint rules).reports = rules.flatMap fun r =>
      (r.head.resolve p s headHint).reports ++ (r.result.resolve p s resultHint).reports := by
  induction rules with
  | nil => simp [resolveRules]
  | cons r rest ih => simp [resolveRules, ih]

/-- An expression that is there is resolved. -/
theorem resolveOption_value (p : Program) (s : ScopeId) (hint : Option Pattern)
    (o : Option Expr) :
    (resolveOption p s hint o).value = o.map fun e => (e.resolve p s hint).value := by
  cases o <;> simp [resolveOption]

/-- An expression that is absent has no reports. -/
theorem resolveOption_reports (p : Program) (s : ScopeId) (hint : Option Pattern)
    (o : Option Expr) :
    (resolveOption p s hint o).reports =
      o.toList.flatMap fun e => (e.resolve p s hint).reports := by
  cases o <;> simp [resolveOption]

/-- The results of rules are read under a hint one by one. -/
theorem coerceResults_eq_map (hint : Pattern) (rules : List (Rule Expr)) :
    coerceResults hint rules = rules.map fun r => { r with result := r.result.coerce hint } := by
  induction rules with
  | nil => rfl
  | cons r rest ih => simp [coerceResults, ih]

/-- An expression that is there is read under a hint. -/
theorem coerceOption_eq_map (hint : Pattern) (o : Option Expr) :
    coerceOption hint o = o.map (coerce hint) := by
  cases o <;> rfl

end Expr

end EntityLang
