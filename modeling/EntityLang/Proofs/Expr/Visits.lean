import EntityLang.Proofs.Expr.Hints
import EntityLang.Proofs.Expr.Positions
import EntityLang.Proofs.Program.FirstFit
import Mathlib.Data.List.Forall2
import Mathlib.Logic.Relation

/-!
# What resolving does at each node

Resolving a node resolves children of it, each under a hint of its own, and then does one of three
things. It keeps the node; it replaces a name by what the name stands for; or it poisons the node,
which is the only way to report anything. The arguments of a call are the only children that change
once more after they have been resolved.

So every report belongs to a position, and the reports on an expression are those at its positions,
children first.
-/

namespace EntityLang

/-- Members that correspond stand at the same index. -/
theorem exists_getElem?_of_forall₂ {α β : Type} {R : α → β → Prop} {as : List α} {bs : List β}
    (h : List.Forall₂ R as bs) {i : Nat} {a : α} (ha : as[i]? = some a) :
    ∃ b, bs[i]? = some b ∧ R a b := by
  induction h generalizing i with
  | nil => simp at ha
  | cons hab _ ih =>
    cases i with
    | zero =>
      obtain rfl := Option.some.inj ha
      exact ⟨_, rfl, hab⟩
    | succ i => exact ih ha

/-- Members correspond through those of a list between. -/
theorem forall₂_trans {α : Type} {R : α → α → Prop} (htrans : ∀ {a b c}, R a b → R b c → R a c)
    {as bs cs : List α} (hab : List.Forall₂ R as bs) (hbc : List.Forall₂ R bs cs) :
    List.Forall₂ R as cs := by
  induction hab generalizing cs with
  | nil => exact hbc
  | cons h _ ih =>
    cases hbc with
    | cons h' hrest => exact .cons (htrans h h') (ih hrest)

/-- Either the invalid expression with a single report at its place, or something else without
reports. -/
inductive Reported.Settled (span : Span) (r : Reported Expr) : Prop
  | poisoned (d : Diagnostic) (hspan : d.span = span) (h : r = ⟨.invalid span, [d]⟩)
  | silent (hvalid : r.value.isInvalid = false) (hreports : r.reports = [])

namespace Program

variable (p : Program) (s : ScopeId) (identity : String) (span : Span)

/-- A poisoned node is settled. -/
theorem settled_poison (problem : Problem) : (poison problem span).Settled span :=
  .poisoned (problem.reportAt span) rfl rfl

/-- A bare name is settled by resolving it. -/
theorem settled_resolveName (hint : Option Pattern) :
    (p.resolveName s hint identity span).Settled span := by
  unfold resolveName
  split
  · exact .silent rfl rfl
  · split
    · exact .silent rfl rfl
    · split
      · exact settled_poison span _
      · split
        · exact .silent rfl rfl
        · exact settled_poison span _
        · exact settled_poison span _

/-- A qualified value is settled by resolving it. -/
theorem settled_resolveQualified (enumName : String) (e : EnumId) :
    (p.resolveQualified enumName e identity span).Settled span := by
  unfold resolveQualified
  split
  · exact .silent rfl rfl
  · exact settled_poison span _

/-- The name of a property is settled by resolving it. -/
theorem settled_resolveProperty (subject : Expr) :
    (p.resolveProperty s subject identity span).Settled span := by
  unfold resolveProperty
  split
  · split
    · exact settled_poison span _
    · exact settled_poison span _
  · split
    · exact .silent rfl rfl
    · dsimp only
      split
      · exact .silent rfl rfl
      · exact settled_poison span _

/-- A call is settled by resolving it. -/
theorem settled_resolveCall (args : List Expr) :
    (p.resolveCall s identity args span).Settled span := by
  obtain ⟨f, -, heq⟩ | ⟨-, d, hspan, -, heq⟩ := p.resolveCall_cases s identity args span
  · rw [heq]
    exact .silent rfl rfl
  · exact .poisoned d hspan heq

end Program

namespace Expr

/-- The second expression is the first one read under hints, any number of them one after the
other. -/
def Reread : Expr → Expr → Prop := Relation.ReflTransGen fun x y => ∃ q, y = x.coerce q

/-- An expression can be read as it is. -/
theorem Reread.refl (e : Expr) : e.Reread e := Relation.ReflTransGen.refl

/-- Reading an expression under one hint is a way of reading it anew. -/
theorem Reread.coerce (e : Expr) (q : Pattern) : e.Reread (e.coerce q) :=
  Relation.ReflTransGen.single ⟨q, rfl⟩

/-- What no hint changes is not changed by any number of them. -/
theorem Reread.eq_of_coerce_eq {x y : Expr} (h : x.Reread y) (hx : ∀ q, x.coerce q = x) :
    y = x := by
  induction h with
  | refl => rfl
  | tail _ hstep ih =>
    obtain ⟨q, rfl⟩ := hstep
    rw [ih, hx q]

/-- Hints do not change whether an expression is invalid. -/
theorem isInvalid_coerce (e : Expr) (q : Pattern) : (e.coerce q).isInvalid = e.isInvalid := by
  cases e with
  | unary op operand span => cases op <;> rfl
  | binary op lhs rhs span =>
    rw [Expr.coerce]
    split <;> rfl
  | _ => rfl

/-- Reading an expression anew does not make it invalid, nor valid. -/
theorem Reread.isInvalid_eq {x y : Expr} (h : x.Reread y) : y.isInvalid = x.isInvalid := by
  induction h with
  | refl => rfl
  | tail _ hstep ih =>
    obtain ⟨q, rfl⟩ := hstep
    rw [isInvalid_coerce, ih]

/-- Heads stay and results are read under the hint. -/
theorem forall₂_coerceResults (q : Pattern) (rules : List (Rule Expr)) :
    List.Forall₂ Reread (rules.flatMap fun r => [r.head, r.result])
      ((coerceResults q rules).flatMap fun r => [r.head, r.result]) := by
  induction rules with
  | nil => exact .nil
  | cons r rest ih => exact .cons (.refl _) (.cons (.coerce _ q) ih)

/-- The children of an expression read under a hint are its children, some of them read under it. -/
theorem forall₂_children_coerce (e : Expr) (q : Pattern) :
    List.Forall₂ Reread e.children (e.coerce q).children := by
  have hsame (xs : List Expr) : List.Forall₂ Reread xs xs :=
    List.forall₂_same.mpr fun x _ => .refl x
  cases e with
  | unary op operand span =>
    cases op with
    | not => exact hsame _
    | negate => exact .cons (.coerce _ q) .nil
  | binary op lhs rhs span =>
    rw [Expr.coerce]
    split
    · exact .cons (.coerce _ q) (.cons (.coerce _ q) .nil)
    · exact hsame _
  | select subject rules span => exact .cons (.refl _) (forall₂_coerceResults q rules)
  | cond rules otherwise span =>
    refine List.rel_append (forall₂_coerceResults q rules) ?_
    cases otherwise with
    | none => exact .nil
    | some x => exact .cons (.coerce _ q) .nil
  | _ => exact hsame _

/-- The children of an expression read under hints are its children, read under hints. -/
theorem Reread.children {x y : Expr} (h : x.Reread y) :
    List.Forall₂ Reread x.children y.children := by
  induction h with
  | refl => exact List.forall₂_same.mpr fun x _ => .refl x
  | tail _ hstep ih =>
    obtain ⟨q, rfl⟩ := hstep
    exact forall₂_trans Relation.ReflTransGen.trans ih (forall₂_children_coerce _ q)

/-- The children that resolving a node resolves, from left to right, each with its hint. The name of
an enum that qualifies a value is not resolved. -/
def visits (p : Program) (s : ScopeId) (hint : Option Pattern) :
    Expr → List (Option Pattern × Expr)
  | .unresolved _ _ | .var _ _ | .enumValue _ _ | .literal _ _ | .invalid _ => []
  | .list items _ | .instances items _ => items.map fun x => (none, x)
  | .unary op operand _ => [(op.operandHint hint, operand)]
  | .binary op lhs rhs _ =>
    let left := (lhs.resolve p s (op.leftHint hint)).value.pattern p
    [(op.leftHint hint, lhs), (op.rightHint hint left, rhs)]
  | .property subject (.unresolved _) _ =>
    if (p.qualifier? s subject).isSome then [] else [(none, subject)]
  | .property subject _ _ => [(none, subject)]
  | .select subject rules _ =>
    let matched := (subject.resolve p s none).value.pattern p
    (none, subject) :: rules.flatMap fun r => [(some matched, r.head), (hint, r.result)]
  | .call _ args _ => args.map fun x => (none, x)
  | .cond rules otherwise _ =>
    (rules.flatMap fun r => [(some .bool, r.head), (hint, r.result)]) ++
      otherwise.toList.map fun x => (hint, x)
  | .index subject position _ => [(none, subject), (some .int, position)]

/-- The reports on the children of a node. -/
def childReports (p : Program) (s : ScopeId) (hint : Option Pattern) (e : Expr) :
    List Diagnostic :=
  (e.visits p s hint).flatMap fun v => (v.2.resolve p s v.1).reports

/-- What resolving does at a node. -/
inductive Fate (p : Program) (s : ScopeId) (hint : Option Pattern) (e : Expr) : Prop
  /-- The node means nothing: it becomes invalid, and that is reported at its place. -/
  | poisoned (d : Diagnostic) (hspan : d.span = e.span) (hvalid : e.isInvalid = false)
    (hvisits : e.visits p s hint = [] ∨ (e.visits p s hint).map Prod.snd = e.children)
    (hvalue : (e.resolve p s hint).value = .invalid e.span)
    (hreports : (e.resolve p s hint).reports = e.childReports p s hint ++ [d])
  /-- The node is a name, perhaps qualified by another, and something without children takes its
  place. -/
  | replaced (hnames : ∀ x ∈ e.children, ∃ name span, x = .unresolved name span)
    (hvisits : e.visits p s hint = []) (hchildren : (e.resolve p s hint).value.children = [])
    (hvalid : (e.resolve p s hint).value.isInvalid = false)
    (hreports : (e.resolve p s hint).reports = [])
  /-- All children are resolved, and the node stays around them. -/
  | kept (hvisits : (e.visits p s hint).map Prod.snd = e.children)
    (hchildren : List.Forall₂ (fun v x => (v.2.resolve p s v.1).value.Reread x)
      (e.visits p s hint) (e.resolve p s hint).value.children)
    (hvalid : (e.resolve p s hint).value.isInvalid = e.isInvalid)
    (hreports : (e.resolve p s hint).reports = e.childReports p s hint)

section Fates

variable {p : Program} {s : ScopeId} {hint : Option Pattern} {e : Expr}

/-- Most nodes stay around what resolving makes of their children. -/
theorem Fate.of_children (hvisits : (e.visits p s hint).map Prod.snd = e.children)
    (hchildren : (e.resolve p s hint).value.children =
      (e.visits p s hint).map fun v => (v.2.resolve p s v.1).value)
    (hvalid : (e.resolve p s hint).value.isInvalid = e.isInvalid)
    (hreports : (e.resolve p s hint).reports = e.childReports p s hint) : e.Fate p s hint := by
  refine .kept hvisits ?_ hvalid hreports
  rw [hchildren, List.forall₂_map_right_iff, List.forall₂_same]
  exact fun v _ => .refl _

/-- Arguments are resolved without a hint and read under the patterns of the parameters. -/
theorem forall₂_coerceArguments (args : List Expr) (parameters : List VarId) :
    List.Forall₂ Reread args (p.coerceArguments args parameters) := by
  induction args generalizing parameters with
  | nil => exact .nil
  | cons arg args ih =>
    cases parameters with
    | nil => exact List.forall₂_same.mpr fun x _ => .refl x
    | cons v vs => exact .cons (.coerce _ _) (ih vs)

/-- A bare name is replaced or poisoned. -/
theorem fate_unresolved {name : Mention} {span : Span} :
    (unresolved name span).Fate p s hint := by
  cases Program.settled_resolveName p s name.identity span hint with
  | poisoned d hspan h =>
    refine .poisoned d hspan rfl (.inl rfl) ?_ ?_
    · simp [resolve, h, Expr.span]
    · simp [resolve, h, childReports, visits]
  | silent hvalid hreports =>
    refine .replaced (by simp [children]) rfl ?_ hvalid hreports
    obtain ⟨h, -, heq⟩ | ⟨v, -, -, -, heq⟩ | heq :=
      Program.resolveName_value p s name.identity span hint
    · simp [resolve, heq, children]
    · simp [resolve, heq, children]
    · simp [heq] at hvalid

/-- A qualified value is replaced or poisoned; its qualifier is a bare name. -/
theorem fate_qualified {subject : Expr} {name : Mention} {span : Span}
    {qualifier : String × EnumId} (hqualifier : p.qualifier? s subject = some qualifier) :
    (property subject (.unresolved name) span).Fate p s hint := by
  have hvisits : (property subject (.unresolved name) span).visits p s hint = [] := by
    simp [visits, hqualifier]
  cases Program.settled_resolveQualified p name.identity span qualifier.1 qualifier.2 with
  | poisoned d hspan h =>
    refine .poisoned d hspan rfl (.inl hvisits) ?_ ?_
    · simp [resolve, hqualifier, h, Expr.span]
    · simp [resolve, hqualifier, h, childReports, hvisits]
  | silent hvalid hreports =>
    refine .replaced ?_ hvisits ?_ ?_ ?_
    · rw [children, List.forall_mem_singleton]
      cases subject with
      | unresolved name span => exact ⟨name, span, rfl⟩
      | _ => simp [Program.qualifier?] at hqualifier
    · obtain ⟨v, -, heq⟩ | heq :=
        Program.resolveQualified_value p name.identity span qualifier.1 qualifier.2
      · simp [resolve, hqualifier, heq, children]
      · simp [heq] at hvalid
    · simpa [resolve, hqualifier] using hvalid
    · simpa [resolve, hqualifier] using hreports

/-- A property of a subject stays or is poisoned. -/
theorem fate_property {subject : Expr} {name : Mention} {span : Span}
    (hqualifier : p.qualifier? s subject = none) :
    (property subject (.unresolved name) span).Fate p s hint := by
  have hvisits :
      (property subject (.unresolved name) span).visits p s hint = [(none, subject)] := by
    simp [visits, hqualifier]
  cases Program.settled_resolveProperty p s name.identity span (subject.resolve p s none).value with
  | poisoned d hspan h =>
    refine .poisoned d hspan rfl (.inr (by simp [hvisits, children])) ?_ ?_
    · simp [resolve, hqualifier, h, Expr.span]
    · simp [resolve, hqualifier, h, childReports, hvisits]
  | silent hvalid hreports =>
    apply Fate.of_children
    · simp [hvisits, children]
    · obtain ⟨h, -, heq⟩ | ⟨h, -, heq⟩ | heq := Program.resolveProperty_value p s name.identity span
        (subject.resolve p s none).value
      · simp [resolve, hqualifier, heq, hvisits, children]
      · simp [resolve, hqualifier, heq, hvisits, children]
      · simp [heq] at hvalid
    · simpa [resolve, hqualifier, isInvalid] using hvalid
    · simp [resolve, hqualifier, hreports, childReports, hvisits]

/-- A call by name stays, with arguments read under the patterns of the parameters, or is
poisoned. -/
theorem fate_call {name : Mention} {args : List Expr} {span : Span} :
    (call (.unresolved name) args span).Fate p s hint := by
  have hvisits : ((call (.unresolved name) args span).visits p s hint).map Prod.snd = args := by
    simp [visits, Function.comp_def]
  cases Program.settled_resolveCall p s name.identity span (resolveAll p s args).value with
  | poisoned d hspan h =>
    refine .poisoned d hspan rfl (.inr hvisits) ?_ ?_
    · simp [resolve, h, Expr.span]
    · simp [resolve, h, childReports, visits, resolveAll_reports, List.flatMap_map]
  | silent hvalid hreports =>
    refine .kept hvisits ?_ ?_ ?_
    · obtain ⟨f, -, heq⟩ | heq := Program.resolveCall_value p s name.identity span
        (resolveAll p s args).value
      · simp only [resolve, Reported.value_bind, heq, children, visits, List.forall₂_map_left_iff]
        rw [resolveAll_value, ← List.forall₂_map_left_iff]
        exact forall₂_coerceArguments _ _
      · simp [heq] at hvalid
    · simpa [resolve, isInvalid] using hvalid
    · simp [resolve, hreports, childReports, visits, resolveAll_reports, List.flatMap_map]

/-- Whatever a node is, resolving poisons it, replaces it or keeps it. -/
theorem fate (p : Program) (s : ScopeId) (hint : Option Pattern) (e : Expr) :
    e.Fate p s hint := by
  cases e with
  | unresolved name span => exact fate_unresolved
  | var h span => exact .kept rfl .nil rfl rfl
  | enumValue h span => exact .kept rfl .nil rfl rfl
  | literal value span => exact .kept rfl .nil rfl rfl
  | invalid span => exact .kept rfl .nil rfl rfl
  | list items span | instances items span =>
    apply Fate.of_children
    · simp [visits, children, Function.comp_def]
    · simp [resolve, visits, children, resolveAll_value]
    · rfl
    · simp [resolve, childReports, visits, resolveAll_reports, List.flatMap_map]
  | unary op operand span =>
    apply Fate.of_children
    · simp [visits, children]
    · simp [resolve, visits, children]
    · rfl
    · simp [resolve, childReports, visits]
  | binary op lhs rhs span =>
    apply Fate.of_children
    · simp [visits, children]
    · simp [resolve, visits, children]
    · rfl
    · simp [resolve, childReports, visits]
  | property subject target span =>
    cases target with
    | unresolved name =>
      cases hqualifier : p.qualifier? s subject with
      | some qualifier => exact fate_qualified hqualifier
      | none => exact fate_property hqualifier
    | state h | function h =>
      apply Fate.of_children
      · simp [visits, children]
      · simp [resolve, visits, children]
      · rfl
      · simp [resolve, childReports, visits]
  | select subject rules span =>
    apply Fate.of_children
    · simp [visits, children, List.map_flatMap]
    · simp [resolve, visits, children, resolveRules_value, List.map_flatMap, List.flatMap_map]
    · rfl
    · simp [resolve, childReports, visits, resolveRules_reports, List.flatMap_assoc]
  | call callee args span =>
    cases callee with
    | unresolved name => exact fate_call
    | function f =>
      apply Fate.of_children
      · simp [visits, children, Function.comp_def]
      · simp [resolve, visits, children, resolveAll_value]
      · rfl
      · simp [resolve, childReports, visits, resolveAll_reports, List.flatMap_map]
  | cond rules otherwise span =>
    apply Fate.of_children
    · simp [visits, children, List.map_flatMap, Function.comp_def]
    · cases otherwise <;>
        simp [resolve, visits, children, resolveRules_value, resolveOption_value,
          List.map_flatMap, List.flatMap_map]
    · rfl
    · simp [resolve, childReports, visits, resolveRules_reports, resolveOption_reports,
        List.flatMap_assoc, List.flatMap_map]
  | index subject position span =>
    apply Fate.of_children
    · simp [visits, children]
    · simp [resolve, visits, children]
    · rfl
    · simp [resolve, childReports, visits]

end Fates

section ReportsAt

variable (p : Program) (s : ScopeId)

/-- The reports on a node itself: what follows the reports on its children. -/
def ownReports (hint : Option Pattern) (e : Expr) : List Diagnostic :=
  (e.resolve p s hint).reports.drop (e.childReports p s hint).length

/-- The reports on a node come after those on its children. -/
theorem reports_eq_append (hint : Option Pattern) (e : Expr) :
    (e.resolve p s hint).reports = e.childReports p s hint ++ e.ownReports p s hint := by
  unfold ownReports
  cases fate p s hint e with
  | poisoned d hspan hvalid hvisits hvalue hreports => rw [hreports, List.drop_left]
  | replaced hnames hvisits hchildren hvalid hreports => simp [hreports, childReports, hvisits]
  | kept hvisits hchildren hvalid hreports => rw [hreports, List.drop_length, List.append_nil]

/-- The reports on the part at a position itself. -/
def reportsAt : Option Pattern → Expr → Position → List Diagnostic
  | hint, e, [] => e.ownReports p s hint
  | hint, e, i :: π =>
    match (e.visits p s hint)[i]? with
    | some (h, x) => x.reportsAt h π
    | none => []

variable {p s}

/-- The reports at a position inside a child are those of the child there. -/
theorem reportsAt_cons {hint h : Option Pattern} {e x : Expr} {i : Nat}
    (hx : (e.visits p s hint)[i]? = some (h, x)) (π : Position) :
    e.reportsAt p s hint (i :: π) = x.reportsAt p s h π := by
  rw [reportsAt, hx]

/-- Resolving passes over no children or over all of them. -/
theorem visits_eq_nil_or (p : Program) (s : ScopeId) (hint : Option Pattern) (e : Expr) :
    e.visits p s hint = [] ∨ (e.visits p s hint).map Prod.snd = e.children := by
  cases fate p s hint e with
  | poisoned d hspan hvalid hvisits hvalue hreports => exact hvisits
  | replaced hnames hvisits hchildren hvalid hreports => exact .inl hvisits
  | kept hvisits hchildren hvalid hreports => exact .inr hvisits

/-- Only children are resolved. -/
theorem snd_mem_children {hint : Option Pattern} {e : Expr} {v : Option Pattern × Expr}
    (hv : v ∈ e.visits p s hint) : v.2 ∈ e.children := by
  rcases visits_eq_nil_or p s hint e with hvisits | hvisits
  · simp [hvisits] at hv
  · rw [← hvisits]
    exact List.mem_map_of_mem hv

/-- The reports on an expression are those at its positions, children first. -/
theorem reports_eq_flatMap (p : Program) (s : ScopeId) (hint : Option Pattern) (e : Expr) :
    (e.resolve p s hint).reports = e.positions.flatMap (e.reportsAt p s hint) := by
  induction e using induction_children generalizing hint with
  | node e ih =>
    have hchildren : e.childReports p s hint =
        (positionsAll 0 e.children).flatMap (e.reportsAt p s hint) := by
      rcases visits_eq_nil_or p s hint e with hvisits | hvisits
      · have hnone (i : Nat) (π : Position) : e.reportsAt p s hint (i :: π) = [] := by
          rw [reportsAt, hvisits, List.getElem?_nil]
        have hskipped := flatMap_positionsAll id e.children 0 (e.reportsAt p s hint)
          (fun _ _ => []) fun i _ _ π => hnone (0 + i) π
        rw [List.map_id] at hskipped
        simp [hskipped, childReports, hvisits]
      · have hvisited := flatMap_positionsAll Prod.snd (e.visits p s hint) 0
          (e.reportsAt p s hint) (fun v => v.2.reportsAt p s v.1) fun i v hv π => by
            rw [Nat.zero_add]
            exact reportsAt_cons hv π
        rw [← hvisits, hvisited, childReports]
        exact List.flatMap_congr fun v hv => ih v.2 (snd_mem_children hv) v.1
    rw [reports_eq_append, positions_eq, List.flatMap_append, hchildren]
    simp [reportsAt]

end ReportsAt

end Expr

end EntityLang
