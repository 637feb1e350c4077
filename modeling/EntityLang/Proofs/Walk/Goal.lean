import EntityLang.Proofs.Program.Cells
import EntityLang.Proofs.Program.Reach

/-!
# What resolving is to achieve

A goal says which patterns, initial values and bodies are good. A program advances to another one of
the same shape if each of these is left as it is or becomes good, and rejected declarations are left
as they are or forgotten. What has become good stays good, so a walk can be described by what each
of its steps achieves.
-/

namespace EntityLang

open Relation (ReflTransGen)

/-- Which patterns, initial values and bodies are good. -/
structure Goal where
  /-- The pattern of a variable, a state or a function is good. -/
  pattern : Decl → Pattern → Prop
  /-- The initial value of a state is good. -/
  value : StateId → Expr → Prop
  /-- The body of a function is good. -/
  body : FunctionId → Block → Prop

namespace Goal

variable {G : Goal} {p q r : Program}

/-- Each part of the program is left as it is or becomes good. -/
structure Advance (G : Goal) (p q : Program) : Prop where
  shape : q.skeleton = p.skeleton
  pattern : ∀ d, q.declPattern d = p.declPattern d ∨ G.pattern d (q.declPattern d)
  value : ∀ h e, (q.state h).initialValue = some e →
    (p.state h).initialValue = some e ∨ G.value h e
  body : ∀ h b, (q.function h).body = some b → (p.function h).body = some b ∨ G.body h b
  rejected : ∀ s, (q.scope s).rejected = (p.scope s).rejected ∨ (q.scope s).rejected = []

/-- A program left as it is advances. -/
theorem Advance.refl (G : Goal) (p : Program) : G.Advance p p where
  shape := rfl
  pattern _ := .inl rfl
  value _ _ h := .inl h
  body _ _ h := .inl h
  rejected _ := .inl rfl

/-- Advances compose. -/
theorem Advance.trans (hpq : G.Advance p q) (hqr : G.Advance q r) : G.Advance p r where
  shape := hqr.shape.trans hpq.shape
  pattern d := by
    obtain h | h := hqr.pattern d
    · rw [h]
      exact hpq.pattern d
    · exact .inr h
  value h e he := (hqr.value h e he).elim (hpq.value h e) .inr
  body h b hb := (hqr.body h b hb).elim (hpq.body h b) .inr
  rejected s := by
    obtain h | h := hqr.rejected s
    · rw [h]
      exact hpq.rejected s
    · exact .inr h

section Steps

variable (G) (p : Program)

/-- Rejected declarations may be forgotten. -/
theorem advance_clearRejected (s : ScopeId) : G.Advance p (p.clearRejected s) where
  shape := Program.skeleton_clearRejected p s
  pattern d := .inl (Program.declPattern_clearRejected p s d)
  value _ _ h := .inl h
  body _ _ h := .inl h
  rejected t := by
    by_cases ht : t = s
    · subst ht
      exact .inr (Program.rejected_clearRejected_self p t)
    · exact .inl (Program.rejected_clearRejected_of_ne p ht)

/-- The phase may change. -/
theorem advance_phase (phase : Phase) : G.Advance p { p with phase } where
  shape := rfl
  pattern d := by
    left
    cases d <;> rfl
  value _ _ h := .inl h
  body _ _ h := .inl h
  rejected _ := .inl rfl

variable {G}

/-- A good pattern may be written. -/
theorem advance_setDeclPattern {d : Decl} {x : Pattern} (hx : G.pattern d x)
    (hblank : p.declPattern d = .invalid → x = .invalid) :
    G.Advance p (p.setDeclPattern d x) where
  shape := Program.skeleton_setDeclPattern p d x
  pattern e := by
    by_cases he : e = d
    · subst he
      rw [Program.declPattern_setDeclPattern_self p e x hblank]
      exact .inr hx
    · exact .inl (Program.declPattern_setDeclPattern_of_ne p x he)
  value h e he := .inl (Program.initialValue_setDeclPattern p d x h ▸ he)
  body h b hb := .inl (Program.body_setDeclPattern p d x h ▸ hb)
  rejected s := .inl (Program.rejected_setDeclPattern p d x s)

/-- A good initial value may be written over another one. -/
theorem advance_setInitialValue {h : StateId} {v : Option Expr}
    (hv : v.isSome = (p.state h).initialValue.isSome) (hgood : ∀ e, v = some e → G.value h e) :
    G.Advance p (p.setInitialValue h v) where
  shape := Program.skeleton_setInitialValue p h v hv
  pattern d := .inl (Program.declPattern_setInitialValue p h v d)
  value k e he := by
    by_cases hk : k = h
    · subst hk
      rw [Program.initialValue_setInitialValue_self p k v hv] at he
      exact .inr (hgood e he)
    · rw [Program.initialValue_setInitialValue_of_ne p v hk] at he
      exact .inl he
  body _ _ hb := .inl hb
  rejected _ := .inl rfl

/-- A good body may be written over another one of the same skeleton. -/
theorem advance_setBody {h : FunctionId} {b : Block}
    (hb : (p.function h).body.map Block.skeleton = some b.skeleton) (hgood : G.body h b) :
    G.Advance p (p.setBody h b) where
  shape := Program.skeleton_setBody p h b hb
  pattern d := .inl (Program.declPattern_setBody p h b d)
  value _ _ he := .inl he
  body k b' hb' := by
    by_cases hk : k = h
    · subst hk
      have hnone : (p.function k).body ≠ none := by
        intro hnone
        simp [hnone] at hb
      rw [Program.body_setBody_self p k b hnone, Option.some.injEq] at hb'
      exact .inr (hb' ▸ hgood)
    · rw [Program.body_setBody_of_ne p b hk] at hb'
      exact .inl hb'
  rejected _ := .inl rfl

end Steps

/-- Nothing is rejected in the scope, and the patterns of what it binds are good. -/
def Settled (G : Goal) (q : Program) (s : ScopeId) : Prop :=
  (q.scope s).rejected = [] ∧ ∀ d ∈ q.declared s, G.pattern d (q.declPattern d)

/-- The scope is settled, and so are the scopes of its properties, and so on. -/
def Signed (G : Goal) (q : Program) (s : ScopeId) : Prop :=
  ∀ t, ReflTransGen q.Owns s t → G.Settled q t

/-- The pattern of the declaration is good, and its scope, if it has one, is signed. -/
def SignedDecl (G : Goal) (q : Program) (d : Decl) : Prop :=
  G.pattern d (q.declPattern d) ∧ ∀ t, q.ownScope? d = some t → G.Signed q t

/-- The initial value or the body of the declaration is good, and the scopes in the body are
signed. -/
def Filled (G : Goal) (q : Program) : Decl → Prop
  | .state h => ∀ e, (q.state h).initialValue = some e → G.value h e
  | .function h => ∀ b, (q.function h).body = some b → G.body h b ∧ ∀ c ∈ b.scopes, G.Signed q c
  | _ => True

/-- The declaration is a busy function. -/
def IsBusy (busy : FunctionId → Prop) : Decl → Prop
  | .function h => busy h
  | _ => False

/-- All that one gets to from the scope is filled, busy functions apart. -/
def Covered (G : Goal) (q : Program) (busy : FunctionId → Prop) (s : ScopeId) : Prop :=
  ∀ u, q.Reaches busy s u → ∀ d ∈ q.declared u, ¬ IsBusy busy d → G.Filled q d

section Stays

variable (hqr : G.Advance q r)
include hqr

/-- A good pattern stays good. -/
theorem Advance.good {d : Decl} (h : G.pattern d (q.declPattern d)) :
    G.pattern d (r.declPattern d) := by
  obtain heq | hgood := hqr.pattern d
  · rwa [heq]
  · exact hgood

/-- A settled scope stays settled. -/
theorem Settled.mono {s : ScopeId} (h : G.Settled q s) : G.Settled r s := by
  refine ⟨?_, ?_⟩
  · obtain heq | hnil := hqr.rejected s
    · exact heq.trans h.1
    · exact hnil
  · intro d hd
    rw [Program.declared_of_skeleton_eq hqr.shape] at hd
    exact hqr.good (h.2 d hd)

/-- A signed scope stays signed. -/
theorem Signed.mono {s : ScopeId} (h : G.Signed q s) : G.Signed r s := by
  intro t ht
  rw [Program.owns_of_skeleton_eq hqr.shape] at ht
  exact (h t ht).mono hqr

/-- A signed declaration stays signed. -/
theorem SignedDecl.mono {d : Decl} (h : G.SignedDecl q d) : G.SignedDecl r d := by
  refine ⟨hqr.good h.1, fun t ht => ?_⟩
  rw [Program.ownScope?_of_skeleton_eq hqr.shape] at ht
  exact (h.2 t ht).mono hqr

/-- A filled declaration stays filled. -/
theorem Filled.mono {d : Decl} (h : G.Filled q d) : G.Filled r d := by
  cases d with
  | state k =>
    intro e he
    exact (hqr.value k e he).elim (h e) id
  | function k =>
    intro b hb
    have hskeleton := Program.body_of_skeleton_eq hqr.shape k
    rw [hb, Option.map_some, eq_comm, Option.map_eq_some_iff] at hskeleton
    obtain ⟨b', hb', hskeleton⟩ := hskeleton
    obtain ⟨hgood, hsigned⟩ := h b' hb'
    refine ⟨?_, ?_⟩
    · obtain hsame | hnew := hqr.body k b hb
      · exact (h b hsame).1
      · exact hnew
    · intro c hc
      rw [← Block.scopes_skeleton, ← hskeleton, Block.scopes_skeleton] at hc
      exact (hsigned c hc).mono hqr
  | _ => trivial

/-- A covered scope stays covered. -/
theorem Covered.mono {busy : FunctionId → Prop} {s : ScopeId} (h : G.Covered q busy s) :
    G.Covered r busy s := by
  intro u hu d hd hbusy
  rw [Program.Reaches, Program.leads_of_skeleton_eq hqr.shape] at hu
  rw [Program.declared_of_skeleton_eq hqr.shape] at hd
  exact (h u hu d hd hbusy).mono hqr

end Stays

/-- A scope is signed if nothing is rejected in it and what it binds is signed. -/
theorem signed_of_signedDecl {s : ScopeId} (hs : (q.scope s).rejected = [])
    (hdecl : ∀ d ∈ q.declared s, G.SignedDecl q d) : G.Signed q s := by
  intro t ht
  obtain rfl | ⟨c, ⟨d, hd, hc⟩, hct⟩ := ht.cases_head
  · exact ⟨hs, fun d hd => (hdecl d hd).1⟩
  · exact (hdecl d hd).2 c hc t hct

/-- The scope of a property in a signed scope is signed. -/
theorem Signed.own {s t : ScopeId} (hs : G.Signed q s) {d : Decl} (hd : d ∈ q.declared s)
    (ht : q.ownScope? d = some t) : G.Signed q t :=
  fun u hu => hs u (ReflTransGen.head ⟨d, hd, ht⟩ hu)

/-- If the global scope is signed and everything from there on is filled, then every reachable scope
is settled and all that it binds is filled. -/
theorem reachable_complete (hsigned : G.Signed q Program.globalScope)
    (hcovered : G.Covered q (fun _ => False) Program.globalScope) {s : ScopeId}
    (hs : q.Reachable s) : G.Settled q s ∧ ∀ d ∈ q.declared s, G.Filled q d := by
  have hfilled {u : ScopeId} (hu : q.Reachable u) {d : Decl} (hd : d ∈ q.declared u) :
      G.Filled q d := by
    apply hcovered u hu d hd
    cases d <;> exact not_false
  suffices h : G.Signed q s from ⟨h s ReflTransGen.refl, fun d hd => hfilled hs hd⟩
  induction hs with
  | refl => exact hsigned
  | @tail m u hm hstep ih =>
    obtain ⟨d, hd, hu⟩ := hstep
    cases hu with
    | own hu => exact ih.own hd hu
    | block _ hb hc => exact (hfilled hm hd _ hb).2 u hc

end Goal

end EntityLang
