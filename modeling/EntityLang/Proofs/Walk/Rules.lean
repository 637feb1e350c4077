import EntityLang.Resolution.Walk

/-!
# Rules for walks

`Ensures` says what holds of the outcome of a walk if it ends, and `Keeps` that it does end and
stays within a set of programs. There is one rule for each way to build a walk, so that facts about
walks follow from facts about their steps. A walk over a list is described by a preorder on programs
that every step respects and by a fact about each member that later steps keep.
-/

namespace EntityLang.Walk

variable {α β : Type}

/-- Whatever outcome the walk has from `p` satisfies `Q`. -/
def Ensures (x : Walk α) (p : Program) (Q : Outcome α → Prop) : Prop :=
  ∀ o, x p = some o → Q o

/-- From every program in `I` the walk ends, in a program of `I` and with a value that satisfies
`Q`. -/
def Keeps (I : Program → Prop) (x : Walk α) (Q : α → Prop) : Prop :=
  ∀ q, I q → ∃ o, x q = some o ∧ I o.program ∧ Q o.value

/-- A weaker fact holds too. -/
theorem Ensures.imp {x : Walk α} {p : Program} {Q Q' : Outcome α → Prop} (h : x.Ensures p Q)
    (hQ : ∀ o, Q o → Q' o) : x.Ensures p Q' := fun o ho => hQ o (h o ho)

/-- A walk that only returns a value ensures what holds of it. -/
theorem ensures_pure {a : α} {p : Program} {Q : Outcome α → Prop} (h : Q ⟨a, p, []⟩) :
    (pure a : Walk α).Ensures p Q := by
  intro o ho
  rw [pure_apply] at ho
  exact Option.some.inj ho ▸ h

/-- Two walks in turn: the second starts where the first one stopped. -/
theorem ensures_bind {x : Walk α} {f : α → Walk β} {p : Program} {Q : Outcome β → Prop}
    (h : x.Ensures p fun first => (f first.value).Ensures first.program fun second =>
      Q { second with reports := first.reports ++ second.reports }) :
    (x >>= f).Ensures p Q := by
  intro o ho
  obtain ⟨first, second, hfirst, hsecond, rfl⟩ := (bind_eq_some_iff x f p o).mp ho
  exact h first hfirst second hsecond

/-- A walk that only reads ensures what holds of the value it reads. -/
theorem ensures_read {f : Program → α} {p : Program} {Q : Outcome α → Prop}
    (h : Q ⟨f p, p, []⟩) : (read f).Ensures p Q := by
  intro o ho
  exact Option.some.inj ho ▸ h

/-- A walk that only changes the program ensures what holds after the change. -/
theorem ensures_update {f : Program → Program} {p : Program} {Q : Outcome Unit → Prop}
    (h : Q ⟨(), f p, []⟩) : (update f).Ensures p Q := by
  intro o ho
  exact Option.some.inj ho ▸ h

/-- A walk that only reports ensures what holds of its value and its reports. -/
theorem ensures_reporting {f : Program → Reported α} {p : Program} {Q : Outcome α → Prop}
    (h : Q ⟨(f p).value, p, (f p).reports⟩) : (reporting f).Ensures p Q := by
  intro o ho
  exact Option.some.inj ho ▸ h

/-- A walk without end ensures anything. -/
theorem ensures_endless {p : Program} {Q : Outcome α → Prop} :
    (endless : Walk α).Ensures p Q := by
  intro o ho
  exact absurd ho (by simp [endless])

/-- A walk over a list moves along a preorder that each visit respects, and what a visit
establishes is still there at the end. -/
theorem ensures_forEach {R : Program → Program → Prop} (Post : α → Program → Prop)
    (hrefl : ∀ q, R q q) (htrans : ∀ {q r t}, R q r → R r t → R q t)
    (hmono : ∀ {a q r}, R q r → Post a q → Post a r) {visit : α → Walk Unit} {as : List α}
    {p : Program} (hvisit : ∀ a ∈ as, ∀ q, R p q →
      (visit a).Ensures q fun o => R q o.program ∧ Post a o.program) :
    (forEach visit as).Ensures p fun o => R p o.program ∧ ∀ a ∈ as, Post a o.program := by
  induction as generalizing p with
  | nil => exact ensures_pure ⟨hrefl p, by simp⟩
  | cons a rest ih =>
    rw [List.forall_mem_cons] at hvisit
    apply ensures_bind
    intro first hfirst
    obtain ⟨hmove, hpost⟩ := hvisit.1 p (hrefl p) first hfirst
    have hrest := ih fun b hb q hq => hvisit.2 b hb q (htrans hmove hq)
    refine hrest.imp fun second hsecond => ⟨htrans hmove hsecond.1, ?_⟩
    exact List.forall_mem_cons.mpr ⟨hmono hsecond.1 hpost, hsecond.2⟩

section Keeps

variable {I : Program → Prop} {Q : α → Prop}

/-- A walk that only returns a good value keeps every invariant. -/
theorem keeps_pure {a : α} (h : Q a) : Keeps I (pure a) Q := fun q hq => ⟨⟨a, q, []⟩, rfl, hq, h⟩

/-- A walk that only reads keeps every invariant, if it reads good values. -/
theorem keeps_read {f : Program → α} (h : ∀ q, I q → Q (f q)) : Keeps I (read f) Q :=
  fun q hq => ⟨_, rfl, hq, h q hq⟩

/-- A walk that only reports keeps every invariant, if its values are good. -/
theorem keeps_reporting {f : Program → Reported α} (h : ∀ q, I q → Q (f q).value) :
    Keeps I (reporting f) Q :=
  fun q hq => ⟨_, rfl, hq, h q hq⟩

/-- A walk that only changes the program keeps the invariants that the change keeps. -/
theorem keeps_update {f : Program → Program} (h : ∀ q, I q → I (f q)) :
    Keeps I (update f) fun _ => True :=
  fun q hq => ⟨_, rfl, h q hq, trivial⟩

/-- Two walks in turn: the second one may use what is known of the value of the first one. -/
theorem keeps_bind {x : Walk α} {f : α → Walk β} {Q' : β → Prop} (hx : Keeps I x Q)
    (hf : ∀ a, Q a → Keeps I (f a) Q') : Keeps I (x >>= f) Q' := by
  intro q hq
  obtain ⟨first, hfirst, hI, hQ⟩ := hx q hq
  obtain ⟨second, hsecond, hI', hQ'⟩ := hf first.value hQ first.program hI
  exact ⟨_, (bind_eq_some_iff x f q _).mpr ⟨first, second, hfirst, hsecond, rfl⟩, hI', hQ'⟩

/-- What all programs of `I` agree on may be read first. -/
theorem keeps_read_bind {f : Program → α} {a : α} {g : α → Walk β} {Q' : β → Prop}
    (hf : ∀ q, I q → f q = a) (h : Keeps I (g a) Q') : Keeps I (read f >>= g) Q' :=
  keeps_bind (Q := (· = a)) (keeps_read hf) fun _ hb => hb ▸ h

/-- Whatever is computed first, the walk stays within `I` if it does for every value. -/
theorem keeps_reporting_bind {f : Program → Reported α} {g : α → Walk β} {Q' : β → Prop}
    (h : ∀ a, Keeps I (g a) Q') : Keeps I (reporting f >>= g) Q' :=
  keeps_bind (Q := fun _ => True) (keeps_reporting fun _ _ => trivial) fun a _ => h a

/-- A walk over a list stays within `I` if each visit does. -/
theorem keeps_forEach {visit : α → Walk Unit} {as : List α}
    (h : ∀ a ∈ as, Keeps I (visit a) fun _ => True) :
    Keeps I (forEach visit as) fun _ => True := by
  induction as with
  | nil => exact keeps_pure trivial
  | cons a rest ih =>
    rw [List.forall_mem_cons] at h
    exact keeps_bind h.1 fun _ _ => ih h.2

end Keeps

end EntityLang.Walk
