import EntityLang.Proofs.Program.Shape
import Mathlib.Logic.Relation

/-!
# Reachable scopes

A walk goes from a scope into the scopes of the properties bound there and into the blocks of their
bodies. The bodies of busy functions are passed over. The scopes that the global scope leads to when
no function is busy are the reachable ones.

If one more function is busy, the walk still reaches all that does not lie behind the body of that
function; the rest is reached from the blocks of the body.
-/

namespace EntityLang.Program

open Relation (ReflTransGen)

/-- Through the declaration one gets into the scope. -/
inductive Enters (p : Program) (busy : FunctionId → Prop) : Decl → ScopeId → Prop
  /-- The scope of a property. -/
  | own {d : Decl} {t : ScopeId} (ht : p.ownScope? d = some t) : Enters p busy d t
  /-- The scope of a block in the body of a function. -/
  | block {h : FunctionId} {b : Block} {c : ScopeId} (hh : ¬ busy h)
    (hb : (p.function h).body = some b) (hc : c ∈ b.scopes) : Enters p busy (.function h) c

/-- Through a declaration bound in the first scope one gets into the second one. -/
def Leads (p : Program) (busy : FunctionId → Prop) (s t : ScopeId) : Prop :=
  ∃ d ∈ p.declared s, p.Enters busy d t

/-- Through declarations one gets from the first scope to the second one. -/
def Reaches (p : Program) (busy : FunctionId → Prop) : ScopeId → ScopeId → Prop :=
  ReflTransGen (p.Leads busy)

/-- Through declarations one gets from the global scope to this one. -/
def Reachable (p : Program) (s : ScopeId) : Prop := p.Reaches (fun _ => False) globalScope s

/-- The first scope binds a property whose scope is the second one. -/
def Owns (p : Program) (s t : ScopeId) : Prop := ∃ d ∈ p.declared s, p.ownScope? d = some t

/-- The expressions of the initial value or of the body. -/
@[simp] def ownExprs (p : Program) : Decl → List Expr
  | .state h => (p.state h).initialValue.toList
  | .function h => (p.function h).body.toList.flatMap Block.exprs
  | _ => []

variable {p q : Program} {busy : FunctionId → Prop}

/-- The global scope is reachable. -/
theorem reachable_globalScope (p : Program) : p.Reachable globalScope := ReflTransGen.refl

/-- Whatever one gets into from a reachable scope is reachable. -/
theorem Reachable.enter {s t : ScopeId} {d : Decl} (hs : p.Reachable s) (hd : d ∈ p.declared s)
    (ht : p.Enters (fun _ => False) d t) : p.Reachable t :=
  ReflTransGen.tail hs ⟨d, hd, ht⟩

/-- The scopes of properties that are reached from a reachable scope are reachable. -/
theorem Reachable.owns {s t : ScopeId} (hs : p.Reachable s) (ht : ReflTransGen p.Owns s t) :
    p.Reachable t := by
  induction ht with
  | refl => exact hs
  | tail _ hstep ih =>
    obtain ⟨d, hd, hu⟩ := hstep
    exact ih.enter hd (.own hu)

section Shape

/-- Programs of the same shape declare the same in each scope. -/
theorem declared_of_skeleton_eq (h : q.skeleton = p.skeleton) (s : ScopeId) :
    q.declared s = p.declared s := by
  rw [← declared_skeleton, h, declared_skeleton]

/-- Programs of the same shape have the same chains of scopes. -/
theorem chain_of_skeleton_eq (h : q.skeleton = p.skeleton) (s : ScopeId) :
    q.chain s = p.chain s := by
  rw [← chain_skeleton, h, chain_skeleton]

/-- Programs of the same shape make the same visible. -/
theorem visible_of_skeleton_eq (h : q.skeleton = p.skeleton) : q.Visible = p.Visible := by
  funext s d
  simp only [Visible, chain_of_skeleton_eq h, declared_of_skeleton_eq h]

/-- Declarations own the same scopes in programs of the same shape. -/
theorem ownScope?_of_skeleton_eq (h : q.skeleton = p.skeleton) (d : Decl) :
    q.ownScope? d = p.ownScope? d := by
  rw [← ownScope?_skeleton, h, ownScope?_skeleton]

/-- Programs of the same shape have the same scopes of states. -/
theorem stateScope_of_skeleton_eq (h : q.skeleton = p.skeleton) (k : StateId) :
    (q.state k).scope = (p.state k).scope :=
  Option.some.inj (ownScope?_of_skeleton_eq h (.state k))

/-- Programs of the same shape have the same scopes of functions. -/
theorem functionScope_of_skeleton_eq (h : q.skeleton = p.skeleton) (k : FunctionId) :
    (q.function k).scope = (p.function k).scope :=
  Option.some.inj (ownScope?_of_skeleton_eq h (.function k))

/-- States have initial values in both of two programs of the same shape, or in neither. -/
theorem isSome_initialValue_of_skeleton_eq (h : q.skeleton = p.skeleton) (k : StateId) :
    (q.state k).initialValue.isSome = (p.state k).initialValue.isSome := by
  have hstate : (q.state k).skeleton = (p.state k).skeleton := by
    rw [← state_skeleton, h, state_skeleton]
  have hvalue := congrArg (fun s => s.initialValue.isSome) hstate
  simpa [StateProperty.skeleton] using hvalue

/-- Bodies of the same function in programs of the same shape have the same skeleton. -/
theorem body_of_skeleton_eq (h : q.skeleton = p.skeleton) (k : FunctionId) :
    (q.function k).body.map Block.skeleton = (p.function k).body.map Block.skeleton := by
  have hfunction : (q.function k).skeleton = (p.function k).skeleton := by
    rw [← function_skeleton, h, function_skeleton]
  exact congrArg FunctionProperty.body hfunction

/-- A declaration leads into the scopes it leads into in a program of the same shape. -/
theorem Enters.of_skeleton_eq (h : q.skeleton = p.skeleton) {d : Decl} {t : ScopeId}
    (ht : p.Enters busy d t) : q.Enters busy d t := by
  cases ht with
  | own ht => exact .own ((ownScope?_of_skeleton_eq h d).trans ht)
  | @block k b c hh hb hc =>
    have hbody := body_of_skeleton_eq h k
    rw [hb, Option.map_some, Option.map_eq_some_iff] at hbody
    obtain ⟨b', hb', hskeleton⟩ := hbody
    refine .block hh hb' ?_
    rwa [← Block.scopes_skeleton, hskeleton, Block.scopes_skeleton]

/-- Programs of the same shape lead to the same scopes. -/
theorem leads_of_skeleton_eq (h : q.skeleton = p.skeleton) : q.Leads busy = p.Leads busy := by
  funext s t
  refine propext ⟨?_, ?_⟩
  · rintro ⟨d, hd, ht⟩
    exact ⟨d, declared_of_skeleton_eq h s ▸ hd, ht.of_skeleton_eq h.symm⟩
  · rintro ⟨d, hd, ht⟩
    exact ⟨d, (declared_of_skeleton_eq h s).symm ▸ hd, ht.of_skeleton_eq h⟩

/-- Scopes own the same scopes in programs of the same shape. -/
theorem owns_of_skeleton_eq (h : q.skeleton = p.skeleton) : q.Owns = p.Owns := by
  funext s t
  simp only [Owns, declared_of_skeleton_eq h, ownScope?_of_skeleton_eq h]

/-- The same scopes are reachable in programs of the same shape. -/
theorem reachable_of_skeleton_eq (h : q.skeleton = p.skeleton) : q.Reachable = p.Reachable := by
  funext s
  rw [Reachable, Reachable, Reaches, Reaches, leads_of_skeleton_eq h]

end Shape

/-- The way to a scope can be taken without the body of `h`, or else from the last block of that
body on it. -/
theorem Reaches.cut {s u : ScopeId} (hu : p.Reaches busy s u) (h : FunctionId) :
    p.Reaches (fun k => k = h ∨ busy k) s u ∨
      ∃ b, (p.function h).body = some b ∧
        ∃ c ∈ b.scopes, p.Reaches (fun k => k = h ∨ busy k) c u := by
  induction hu with
  | refl => exact .inl ReflTransGen.refl
  | tail _ hstep ih =>
    obtain ⟨d, hd, ht⟩ := hstep
    cases ht with
    | own ht =>
      have hstep' : p.Leads (fun k => k = h ∨ busy k) _ _ := ⟨d, hd, .own ht⟩
      obtain hs | ⟨b, hb, c, hc, hs⟩ := ih
      · exact .inl (hs.tail hstep')
      · exact .inr ⟨b, hb, c, hc, hs.tail hstep'⟩
    | @block k b c hk hb hc =>
      by_cases hkh : k = h
      · subst hkh
        exact .inr ⟨b, hb, _, hc, ReflTransGen.refl⟩
      · have hstep' : p.Leads (fun k => k = h ∨ busy k) _ _ :=
          ⟨_, hd, .block (not_or.mpr ⟨hkh, hk⟩) hb hc⟩
        obtain hs | ⟨b', hb', c', hc', hs⟩ := ih
        · exact .inl (hs.tail hstep')
        · exact .inr ⟨b', hb', c', hc', hs.tail hstep'⟩

end EntityLang.Program
