import EntityLang.Proofs.Expr.Visits

/-!
# Invalid nodes and reports account for each other

A node that becomes invalid is reported at its place, and nothing else is reported. A node may lose
invalid children together with all its children when it becomes invalid itself; their reports stay.
So the invalid nodes that are left stand at places that were reported, in the order of the reports,
and there are some as soon as anything was reported.
-/

namespace EntityLang

namespace Expr

/-- The part of `out` at a position, if it is invalid while the part of `e` there is not. -/
def newlyInvalidAt (e out : Expr) (π : Position) : Option Expr :=
  (out.part? π).filter fun x => x.isInvalid && (e.part? π).any fun y => !y.isInvalid

/-- The parts of `out` that are invalid while the part of `e` at the same position is not, children
first. -/
def newlyInvalid (e out : Expr) : List Expr := out.positions.filterMap (e.newlyInvalidAt out)

/-- Children with the same positions give their parents the same positions. -/
theorem positionsAll_eq_of_forall₂ {xs ys : List Expr}
    (h : List.Forall₂ (fun x y => y.positions = x.positions) xs ys) (n : Nat) :
    positionsAll n ys = positionsAll n xs := by
  induction h generalizing n with
  | nil => rfl
  | cons hxy _ ih => rw [positionsAll, positionsAll, hxy, ih]

/-- Hints keep all positions. -/
theorem Reread.positions_eq {x y : Expr} (h : x.Reread y) : y.positions = x.positions := by
  induction x using induction_children generalizing y with
  | node x ih =>
    have hchildren := (List.forall₂_and_left _ _).mpr ⟨ih, h.children⟩
    rw [Expr.positions_eq, Expr.positions_eq,
      positionsAll_eq_of_forall₂ (hchildren.imp fun _ _ hxy => hxy.1 hxy.2)]

/-- Hints change the parts of an expression no more than the expression. -/
theorem Reread.part? {x y : Expr} (h : x.Reread y) (π : Position) :
    Option.Rel Reread (x.part? π) (y.part? π) := by
  induction π generalizing x y with
  | nil => exact .some h
  | cons i π ih =>
    rw [part?_cons, part?_cons]
    cases hx : x.children[i]? with
    | none =>
      rw [List.getElem?_eq_none_iff, h.children.length_eq, ← List.getElem?_eq_none_iff] at hx
      rw [hx]
      exact .none
    | some a =>
      obtain ⟨b, hb, hab⟩ := exists_getElem?_of_forall₂ h.children hx
      rw [hb]
      exact ih hab

/-- Hints neither make parts invalid nor change invalid parts. -/
theorem Reread.newlyInvalid_eq {x y : Expr} (h : x.Reread y) (e : Expr) :
    e.newlyInvalid y = e.newlyInvalid x := by
  unfold newlyInvalid
  rw [h.positions_eq]
  refine List.filterMap_congr fun π _ => ?_
  unfold newlyInvalidAt
  have hparts := h.part? π
  generalize x.part? π = a at hparts ⊢
  generalize y.part? π = b at hparts ⊢
  cases hparts with
  | none => rfl
  | some hab =>
    rename_i a b
    cases hinvalid : a.isInvalid with
    | false => simp [Option.filter_some, hab.isInvalid_eq, hinvalid]
    | true =>
      cases a with
      | invalid span => rw [hab.eq_of_coerce_eq fun q => coerce_invalid q span]
      | _ => simp [isInvalid] at hinvalid

/-- The new invalid parts of a node that stays are those of its children. -/
theorem newlyInvalid_of_children {e out : Expr} (hvalid : out.isInvalid = e.isInvalid)
    (hlength : e.children.length = out.children.length) :
    e.newlyInvalid out = (e.children.zip out.children).flatMap fun v => v.1.newlyInvalid v.2 := by
  have hroot : e.newlyInvalidAt out [] = none := by
    simp [newlyInvalidAt, hvalid]
  have hchildren := flatMap_positionsAll Prod.snd (e.children.zip out.children) 0
    (fun π => (e.newlyInvalidAt out π).toList) (fun v π => (v.1.newlyInvalidAt v.2 π).toList)
    fun i v hv π => by
      rw [List.getElem?_zip_eq_some] at hv
      rw [Nat.zero_add, newlyInvalidAt, newlyInvalidAt, part?_cons, part?_cons, hv.1, hv.2,
        Option.bind_some, Option.bind_some]
  rw [List.map_snd_zip (Nat.le_of_eq hlength.symm)] at hchildren
  unfold newlyInvalid
  simp only [List.filterMap_eq_flatMap_toList]
  rw [positions_eq, List.flatMap_append, hchildren]
  simp [hroot]

/-- An invalid expression has itself for its only new invalid part, if it is new. -/
theorem newlyInvalid_invalid {e : Expr} (he : e.isInvalid = false) (span : Span) :
    e.newlyInvalid (.invalid span) = [.invalid span] := by
  have hroot : e.newlyInvalidAt (.invalid span) [] = some (.invalid span) := by
    simp [newlyInvalidAt, Option.filter_some, he]
  rw [newlyInvalid, positions_eq]
  exact List.filterMap_cons_some hroot

/-- An expression without children that is not invalid has no invalid parts. -/
theorem newlyInvalid_leaf {e out : Expr} (hchildren : out.children = [])
    (hvalid : out.isInvalid = false) : e.newlyInvalid out = [] := by
  simp [newlyInvalid, newlyInvalidAt, positions_eq, hchildren, positionsAll, hvalid]

/-- The expressions stand at places that were reported, in the order of the reports, and there are
some exactly if anything was reported. -/
structure AccountFor (xs : List Expr) (reports : List Diagnostic) : Prop where
  sublist : (xs.map span).Sublist (reports.map Diagnostic.span)
  nonempty_iff : reports ≠ [] ↔ xs ≠ []

/-- No expressions account for no reports. -/
theorem AccountFor.nil : AccountFor [] [] := ⟨.slnil, by simp⟩

/-- Expressions that account for reports do so one list after the other. -/
theorem AccountFor.append {xs ys : List Expr} {rs ts : List Diagnostic} (h : AccountFor xs rs)
    (h' : AccountFor ys ts) : AccountFor (xs ++ ys) (rs ++ ts) := by
  constructor
  · rw [List.map_append, List.map_append]
    exact h.sublist.append h'.sublist
  · have := h.nonempty_iff
    have := h'.nonempty_iff
    simp only [ne_eq, List.append_eq_nil_iff]
    tauto

/-- Children that account for their reports do so together. -/
theorem AccountFor.flatMap {α : Type} {part : α → Expr} {reports : α → List Diagnostic}
    {as : List α} {outs : List Expr}
    (h : List.Forall₂ (fun a out => AccountFor ((part a).newlyInvalid out) (reports a)) as outs) :
    AccountFor (((as.map part).zip outs).flatMap fun v => v.1.newlyInvalid v.2)
      (as.flatMap reports) := by
  induction h with
  | nil => exact .nil
  | cons hhead _ ih => exact hhead.append ih

/-- What becomes invalid accounts for the reports. -/
theorem accountFor_resolve (p : Program) (s : ScopeId) (hint : Option Pattern) (e : Expr) :
    AccountFor (e.newlyInvalid (e.resolve p s hint).value) (e.resolve p s hint).reports := by
  induction e using induction_children generalizing hint with
  | node e ih =>
    cases fate p s hint e with
    | poisoned d hspan hvalid hvisits hvalue hreports =>
      rw [hvalue, hreports, newlyInvalid_invalid hvalid]
      constructor
      · rw [List.map_append, List.map_singleton, List.map_singleton, hspan, Expr.span]
        exact List.sublist_append_right _ _
      · simp
    | replaced hnames hvisits hchildren hvalid hreports =>
      rw [newlyInvalid_leaf hchildren hvalid, hreports]
      exact .nil
    | kept hvisits hchildren hvalid hreports =>
      have hlength : e.children.length = (e.resolve p s hint).value.children.length := by
        rw [← hvisits, List.length_map, hchildren.length_eq]
      rw [newlyInvalid_of_children hvalid hlength, hreports, ← hvisits]
      apply AccountFor.flatMap
      have hvisit : ∀ v ∈ e.visits p s hint, v.2 ∈ e.children := fun v hv => snd_mem_children hv
      refine ((List.forall₂_and_left _ _).mpr ⟨hvisit, hchildren⟩).imp fun v out hv => ?_
      rw [hv.2.newlyInvalid_eq]
      exact ih v.2 hv.1 v.1

/-- The parts that have become invalid stand, children first, at places that were reported in this
order. Something is reported exactly if something has become invalid. -/
theorem newlyInvalid_accounts (p : Program) (s : ScopeId) (hint : Option Pattern) (e : Expr) :
    ((e.newlyInvalid (e.resolve p s hint).value).map span).Sublist
        ((e.resolve p s hint).reports.map Diagnostic.span) ∧
      ((e.resolve p s hint).reports ≠ [] ↔ e.newlyInvalid (e.resolve p s hint).value ≠ []) :=
  ⟨(accountFor_resolve p s hint e).sublist, (accountFor_resolve p s hint e).nonempty_iff⟩

end Expr

end EntityLang
