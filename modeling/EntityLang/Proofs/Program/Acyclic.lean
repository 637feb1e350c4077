import EntityLang.Proofs.Program.Refs
import EntityLang.Proofs.Resolution.Isolation
import EntityLang.Resolution.Body
import Mathlib.Data.List.Count

/-!
# Scopes without circles

A walk through a program can only be endless if it comes back to a property inside that property.
Where this is ruled out, the properties behind a scope become fewer with every scope that is
entered, so no more scopes lie inside each other than there are properties. In the same way a chain
of parents without a circle ends before it is longer than the list of scopes.

Bodies may be cyclic: a function that is met again inside its own body is not walked a second time,
so the functions that are idle become fewer with every body that is entered. A walk from a scope
only depends on what lies behind that scope, so circles elsewhere do no harm.
-/

namespace EntityLang.Program

open Relation (ReflTransGen TransGen)

/-- The declaration is bound in the scope or in one that the scope leads to. -/
def Behind (p : Program) (busy : FunctionId → Prop) (s : ScopeId) (d : Decl) : Prop :=
  ∃ u, p.Reaches busy s u ∧ d ∈ p.declared u

/-- The first scope lies in the second one. -/
def LiesIn (p : Program) (s t : ScopeId) : Prop := (p.scope s).parent = some t

instance (p : Program) (s t : ScopeId) : Decidable (p.LiesIn s t) :=
  inferInstanceAs (Decidable ((p.scope s).parent = some t))

/-- One step of the body walk, from the bodies and the scope that it is in to those that it enters:
into the scope of a property, or into a block of a function that is not busy. -/
inductive Descends (p : Program) : List FunctionId × ScopeId → List FunctionId × ScopeId → Prop
  | own {busy : List FunctionId} {s t : ScopeId} {d : Decl} (hd : d ∈ p.declared s)
    (ht : p.ownScope? d = some t) : Descends p (busy, s) (busy, t)
  | block {busy : List FunctionId} {s c : ScopeId} {h : FunctionId} {b : Block}
    (hd : .function h ∈ p.declared s) (hh : h ∉ busy) (hb : (p.function h).body = some b)
    (hc : c ∈ b.scopes) : Descends p (busy, s) (h :: busy, c)

/-- From the scope one cannot go into the scopes of properties forever. -/
def OwningEnds (p : Program) (s : ScopeId) : Prop := Acc (fun t s => p.Owns s t) s

/-- The body walk cannot go down from here forever. -/
def DescentEnds (p : Program) (x : List FunctionId × ScopeId) : Prop :=
  Acc (fun y x => p.Descends x y) x

/-- What is bound has a node, and no scope of a property is found again inside itself. -/
structure Grounded (p : Program) : Prop where
  hasNode : ∀ s, ∀ d ∈ p.declared s, p.HasNode d
  acyclic : ∀ s, ¬ TransGen p.Owns s s

/-- A relation along which something grows has no circle. -/
theorem not_transGen_self {α : Type} {r : α → α → Prop} (f : α → Nat)
    (hf : ∀ a b, r a b → f a < f b) (a : α) : ¬ TransGen r a a := by
  have hlt {b c : α} (h : TransGen r b c) : f b < f c := by
    induction h with
    | single h => exact hf _ _ h
    | tail _ h ih => exact ih.trans (hf _ _ h)
  exact fun h => Nat.lt_irrefl _ (hlt h)

/-- Where one cannot go on forever, there is no circle. -/
theorem not_transGen_of_acc {α : Type} {r : α → α → Prop} {a : α} (h : Acc (fun b a => r a b) a) :
    ¬ TransGen r a a := by
  induction h with
  | intro a _ ih =>
    intro hcircle
    obtain ⟨b, hab, hba⟩ := TransGen.head'_iff.mp hcircle
    exact ih b hab (TransGen.tail' hba hab)

variable {p : Program}

/-- The scopes of properties are among those that the body walk enters. -/
theorem DescentEnds.owning {busy : List FunctionId} {s : ScopeId}
    (h : p.DescentEnds (busy, s)) : p.OwningEnds s := by
  generalize hx : (busy, s) = x at h
  induction h generalizing s with
  | intro x _ ih =>
    subst hx
    refine Acc.intro s fun t hst => ?_
    obtain ⟨d, hd, ht⟩ := hst
    exact ih (busy, t) (.own hd ht) rfl

section Behind

variable {busy : FunctionId → Prop}

open Classical in
/-- The number of properties behind a scope. -/
noncomputable def countBehind (p : Program) (busy : FunctionId → Prop) (s : ScopeId) : Nat :=
  p.properties.countP fun d => decide (p.Behind busy s d)

/-- No more properties are behind a scope than there are. -/
theorem countBehind_le (p : Program) (busy : FunctionId → Prop) (s : ScopeId) :
    p.countBehind busy s ≤ p.propertyCount := by
  rw [← length_properties]
  exact List.countP_le_length

/-- On entering a scope through a property that is not found again inside, the properties behind
become fewer. -/
theorem countBehind_lt {s t : ScopeId} {d : Decl} (hd : d ∈ p.declared s) (hnode : d ∈ p.properties)
    (ht : p.Enters busy d t) (hcircle : ¬ p.Behind busy t d) :
    p.countBehind busy t < p.countBehind busy s := by
  classical
  refine countP_lt_countP hnode (fun e _ he => ?_) ?_ ?_
  · obtain ⟨u, hu, he⟩ := of_decide_eq_true he
    exact decide_eq_true ⟨u, ReflTransGen.head ⟨d, hd, ht⟩ hu, he⟩
  · exact decide_eq_false hcircle
  · exact decide_eq_true ⟨s, ReflTransGen.refl, hd⟩

/-- If all functions are busy, one gets into the scopes of properties only. -/
theorem owns_of_leads {s t : ScopeId} (h : p.Leads (fun _ => True) s t) : p.Owns s t := by
  obtain ⟨d, hd, ht⟩ := h
  cases ht with
  | own ht => exact ⟨d, hd, ht⟩
  | block hh => exact absurd trivial hh

/-- Into the scope of a property without a circle, the properties behind become fewer. -/
theorem countBehind_own_lt {s t : ScopeId} {d : Decl} (hd : d ∈ p.declared s) (hnode : p.HasNode d)
    (ht : p.ownScope? d = some t) (hcircle : ¬ TransGen p.Owns t t) :
    p.countBehind (fun _ => True) t < p.countBehind (fun _ => True) s := by
  apply countBehind_lt hd (mem_properties hnode ht) (.own ht)
  rintro ⟨u, hu, hd⟩
  have hback : p.Owns u t := ⟨d, hd, ht⟩
  exact hcircle (TransGen.tail' (ReflTransGen.mono (fun _ _ => owns_of_leads) _ _ hu) hback)

end Behind

/-- The number of functions that are not busy. -/
def idle (p : Program) (busy : List FunctionId) : Nat :=
  p.functions.handles.countP fun h => !busy.contains h

/-- No more functions are idle than there are. -/
theorem idle_le (p : Program) (busy : List FunctionId) : p.idle busy ≤ p.functions.size := by
  have hlength : p.functions.handles.length = p.functions.size := by simp [Table.handles]
  rw [← hlength]
  exact List.countP_le_length

/-- A bound for the number of steps that the body walk can still go down. -/
noncomputable def descentRank (p : Program) (x : List FunctionId × ScopeId) : Nat :=
  p.idle x.1 * (p.propertyCount + 1) + p.countBehind (fun _ => True) x.2

/-- The depth of the body walk is enough for every scope. -/
theorem descentRank_lt_bodyDepth (p : Program) (x : List FunctionId × ScopeId) :
    p.descentRank x < p.bodyDepth := by
  have hidle : p.idle x.1 * (p.propertyCount + 1) ≤ p.functions.size * (p.propertyCount + 1) :=
    Nat.mul_le_mul_right _ (p.idle_le x.1)
  have hbehind := p.countBehind_le (fun _ => True) x.2
  rw [bodyDepth, Nat.add_mul, Nat.one_mul, descentRank]
  omega

/-- A step of the body walk to where there is no circle lowers the rank. -/
theorem descentRank_lt {x y : List FunctionId × ScopeId} (h : p.Descends x y)
    (hnodes : ∀ d ∈ p.declared x.2, p.HasNode d) (hcircle : ¬ TransGen p.Owns y.2 y.2) :
    p.descentRank y < p.descentRank x := by
  cases h with
  | own hd ht => exact Nat.add_lt_add_left (countBehind_own_lt hd (hnodes _ hd) ht hcircle) _
  | @block busy s c h b hd hh hb hc =>
    have hidle : p.idle (h :: busy) < p.idle busy := by
      have hmem : h ∈ p.functions.handles := (Table.mem_handles _ _).mpr (hnodes _ hd)
      refine countP_lt_countP hmem (fun k _ hk => ?_) ?_ ?_
      · rw [List.contains_cons, Bool.not_or, Bool.and_eq_true] at hk
        exact hk.2
      · simp
      · simpa using hh
    have hbehind := p.countBehind_le (fun _ => True) c
    have hproduct : (p.idle (h :: busy) + 1) * (p.propertyCount + 1) ≤
        p.idle busy * (p.propertyCount + 1) := Nat.mul_le_mul_right _ hidle
    rw [Nat.add_mul, Nat.one_mul] at hproduct
    simp only [descentRank]
    omega

/-- The body walk cannot go down forever. -/
theorem Grounded.wellFounded_descends (hp : p.Grounded) :
    WellFounded fun y x => p.Descends x y :=
  Subrelation.wf (fun h => descentRank_lt h (hp.hasNode _) (hp.acyclic _))
    (measure p.descentRank).wf

/-- If the scope of a property lies in the scope that binds the property, it comes after it. -/
theorem Sound.grounded (hp : p.Sound)
    (hown : ∀ s d t, d ∈ p.declared s → p.ownScope? d = some t → p.LiesIn t s) : p.Grounded where
  hasNode s d hd := hp.hasNode s d (.inl hd)
  acyclic := by
    refine not_transGen_self Handle.index fun s t hst => ?_
    obtain ⟨d, hd, ht⟩ := hst
    exact hp.parent t s (hown s d t hd ht)

/-- A program that a parser builds is grounded. -/
theorem ParserShaped.grounded (hp : p.ParserShaped) : p.Grounded :=
  hp.built.sound.grounded fun _ _ _ => hp.parent_own

section Parents

open Classical in
/-- The number of scopes that a scope lies in, directly or not. -/
noncomputable def countAround (p : Program) (s : ScopeId) : Nat :=
  p.scopes.handles.countP fun t => decide (TransGen p.LiesIn s t)

variable (hp : p.Ranged) (hparents : ∀ s, ¬ TransGen p.LiesIn s s)
include hp hparents

/-- From a scope to its parent, the scopes around become fewer. -/
theorem countAround_lt {s t : ScopeId} (ht : p.LiesIn s t) :
    p.countAround t < p.countAround s := by
  classical
  have hmem : t ∈ p.scopes.handles := (Table.mem_handles _ _).mpr (hp.parent ht)
  refine countP_lt_countP hmem (fun u _ hu => ?_) ?_ ?_
  · exact decide_eq_true (TransGen.head ht (of_decide_eq_true hu))
  · exact decide_eq_false (hparents t)
  · exact decide_eq_true (TransGen.single ht)

/-- A chain ends within as many steps as there are scopes around. -/
theorem parent_eq_none_of_countAround {bound : Nat} {s : ScopeId} (hs : p.countAround s < bound) :
    ∀ t ∈ (p.chainUpTo bound s).getLast?, (p.scope t).parent = none := by
  induction bound generalizing s with
  | zero => omega
  | succ bound ih =>
    rw [chainUpTo]
    cases hparent : (p.scope s).parent with
    | none => simpa using hparent
    | some t =>
      have ht := countAround_lt hp hparents hparent
      obtain ⟨bound, rfl⟩ := Nat.exists_eq_succ_of_ne_zero (n := bound) (by omega)
      have hrest := ih (s := t) (by omega)
      rw [chainUpTo] at hrest
      simpa only [chainUpTo, List.getLast?_cons_cons] using hrest

/-- The chain of every scope ends. -/
theorem Ranged.chainEnds {s : ScopeId} (hs : s.index < p.scopes.size) : p.ChainEnds s := by
  classical
  apply parent_eq_none_of_countAround hp hparents
  have hmem : s ∈ p.scopes.handles := (Table.mem_handles _ _).mpr hs
  have hlength : p.scopes.handles.length = p.scopes.size := by simp [Table.handles]
  rw [← hlength]
  exact List.countP_lt_length_iff.mpr ⟨s, hmem, decide_eq_false (hparents s)⟩

end Parents

end EntityLang.Program
