import EntityLang.Proofs.Pattern.Order
import Mathlib.Data.List.DropRight
import Mathlib.Data.List.Infix

/-!
# Joins of several patterns

`unifyAll` takes patterns from left to right and keeps the join of those it has seen. For patterns
that are not invalid this is the join of all of them, whatever their order. An invalid pattern fits
everything, so it takes the place of the join, and the next pattern takes its place in turn: nothing
is left of what stands before it. What `unifyAll` knows at each point is the join of the run of
patterns since the last invalid one.
-/

namespace EntityLang.Pattern

/-- The pattern is not invalid, and all patterns of a list fit it. -/
def Bounds (c : Pattern) (ps : List Pattern) : Prop :=
  c.isInvalid = false ∧ ∀ x ∈ ps, x.fits c = true

/-- The pattern bounds a list, and fits every pattern that does. -/
def IsJoin (c : Pattern) (ps : List Pattern) : Prop :=
  c.Bounds ps ∧ ∀ d : Pattern, d.Bounds ps → c.fits d = true

section Bounds

variable {c x : Pattern} {ps qs : List Pattern}

/-- A bound of some patterns bounds any part of them. -/
theorem Bounds.mono (h : c.Bounds ps) (hqs : qs ⊆ ps) : c.Bounds qs :=
  ⟨h.1, fun x hx => h.2 x (hqs hx)⟩

/-- Whether some patterns have a bound does not depend on their order. -/
theorem exists_bounds_iff_of_perm (hperm : ps.Perm qs) :
    (∃ c : Pattern, c.Bounds ps) ↔ ∃ c : Pattern, c.Bounds qs :=
  exists_congr fun _ => ⟨fun h => h.mono hperm.symm.subset, fun h => h.mono hperm.subset⟩

/-- A pattern bounds a longer list exactly if it bounds the list and the last pattern fits it. -/
theorem bounds_concat_iff : c.Bounds (ps ++ [x]) ↔ c.Bounds ps ∧ x.fits c = true := by
  simp [Bounds, or_imp, forall_and, and_assoc]

/-- Patterns that are not invalid are bounded exactly if the whole list is. -/
theorem bounds_append_iff_of_isInvalid {before typed after : List Pattern}
    (hbefore : ∀ x ∈ before, x.isInvalid = true) (hafter : ∀ x ∈ after, x.isInvalid = true) :
    c.Bounds (before ++ typed ++ after) ↔ c.Bounds typed := by
  refine ⟨fun h => h.mono (by simp), fun h => ⟨h.1, ?_⟩⟩
  rw [List.forall_mem_append, List.forall_mem_append]
  exact ⟨⟨fun x hx => fits_of_isInvalid_left (hbefore x hx) c, h.2⟩,
    fun x hx => fits_of_isInvalid_left (hafter x hx) c⟩

/-- Joins of the same patterns fit each other. -/
theorem IsJoin.fits_of_perm {d : Pattern} (hc : c.IsJoin ps) (hd : d.IsJoin qs)
    (hperm : ps.Perm qs) : c.fits d = true :=
  hc.2 d (hd.1.mono hperm.subset)

/-- A valid pattern is its own join. -/
theorem isJoin_singleton (hx : x.isInvalid = false) : x.IsJoin [x] :=
  ⟨⟨hx, by simp⟩, fun _ hd => hd.2 x List.mem_cons_self⟩

/-- The join of a list joined with one more pattern is the join of the longer list. -/
theorem IsJoin.unify {j : Pattern} (hc : c.IsJoin ps) (hx : x.isInvalid = false)
    (h : unify c x = some j) : j.IsJoin (ps ++ [x]) := by
  obtain ⟨hj, hcj, hxj⟩ := fits_of_unify hc.1.1 hx h
  refine ⟨bounds_concat_iff.mpr ⟨⟨hj, fun y hy => ?_⟩, hxj⟩, fun d hd => ?_⟩
  · exact fits_trans hc.1.1 (hc.1.2 y hy) hcj
  · obtain ⟨hps, hxd⟩ := bounds_concat_iff.mp hd
    obtain ⟨k, hk, hkd⟩ := exists_unify_fits hc.1.1 hx hps.1 (hc.2 d hps) hxd
    rwa [Option.some.inj (h.symm.trans hk)]

/-- The join of a list can be joined with one more pattern if the longer list is bounded. -/
theorem IsJoin.exists_unify {d : Pattern} (hc : c.IsJoin ps) (hx : x.isInvalid = false)
    (hd : d.Bounds (ps ++ [x])) : ∃ j, Pattern.unify c x = some j := by
  obtain ⟨hps, hxd⟩ := bounds_concat_iff.mp hd
  obtain ⟨j, hj, -⟩ := exists_unify_fits hc.1.1 hx hps.1 (hc.2 d hps) hxd
  exact ⟨j, hj⟩

end Bounds

section Runs

/-- The patterns after the last invalid one. -/
def lastRun (ps : List Pattern) : List Pattern := ps.rtakeWhile fun x => !x.isInvalid

/-- The last run has valid patterns only. -/
theorem isInvalid_of_mem_lastRun {ps : List Pattern} {x : Pattern} (hx : x ∈ lastRun ps) :
    x.isInvalid = false := by
  simpa using List.mem_rtakeWhile_imp hx

/-- A valid pattern makes the last run longer. -/
theorem lastRun_concat_of_valid (ps : List Pattern) {x : Pattern} (hx : x.isInvalid = false) :
    lastRun (ps ++ [x]) = lastRun ps ++ [x] :=
  List.rtakeWhile_concat_pos _ _ _ (by simp [hx])

/-- After an invalid pattern the last run is empty. -/
theorem lastRun_concat_of_isInvalid (ps : List Pattern) {x : Pattern} (hx : x.isInvalid = true) :
    lastRun (ps ++ [x]) = [] :=
  List.rtakeWhile_concat_neg _ _ _ (by simp [hx])

/-- Patterns at the end that are not invalid belong to the last run. -/
theorem lastRun_append_of_valid (ps : List Pattern) {run : List Pattern}
    (hrun : ∀ x ∈ run, x.isInvalid = false) : lastRun (ps ++ run) = lastRun ps ++ run := by
  induction run using List.reverseRecOn with
  | nil => simp
  | append_singleton run x ih =>
    rw [List.forall_mem_append, List.forall_mem_singleton] at hrun
    rw [← List.append_assoc, lastRun_concat_of_valid _ hrun.2, ih hrun.1, List.append_assoc]

/-- Patterns that are all valid are one run. -/
theorem lastRun_eq_self {ps : List Pattern} (hps : ∀ x ∈ ps, x.isInvalid = false) :
    lastRun ps = ps :=
  lastRun_append_of_valid [] hps

/-- One more pattern is unified with what the ones before it gave. -/
theorem unifyAll_concat {ps : List Pattern} (hps : ps ≠ []) (x : Pattern) :
    unifyAll (ps ++ [x]) = (unifyAll ps).bind (unify · x) := by
  cases ps with
  | nil => exact absurd rfl hps
  | cons first rest =>
    change (rest ++ [x]).foldlM unify first = (rest.foldlM unify first).bind (unify · x)
    rw [List.foldlM_append]
    exact congrArg _ (funext fun j => by simp [List.foldlM])

/-- A pattern takes the place of an invalid one. -/
theorem unify_of_isInvalid_left {a : Pattern} (ha : a.isInvalid = true) (b : Pattern) :
    unify a b = some b := by
  rw [unify, if_pos (fits_of_isInvalid_left ha b)]

/-- An invalid pattern takes the place of any other. -/
theorem unify_of_isInvalid_right (a : Pattern) {b : Pattern} (hb : b.isInvalid = true) :
    unify a b = some b := by
  rw [unify, if_pos (fits_of_isInvalid_right a hb)]

/-- What `unifyAll` gives is the join of the last run; it is invalid if that run is empty. -/
theorem isJoin_of_unifyAll {ps : List Pattern} {c : Pattern} (h : unifyAll ps = some c) :
    lastRun ps = [] ∧ c.isInvalid = true ∨ c.IsJoin (lastRun ps) := by
  induction ps using List.reverseRecOn generalizing c with
  | nil => simp [unifyAll] at h
  | append_singleton ps x ih =>
    by_cases hps : ps = []
    · subst hps
      obtain rfl : x = c := Option.some.inj h
      cases hx : x.isInvalid with
      | true => exact .inl ⟨lastRun_concat_of_isInvalid [] hx, rfl⟩
      | false =>
        rw [lastRun_concat_of_valid [] hx]
        exact .inr (isJoin_singleton hx)
    · rw [unifyAll_concat hps, Option.bind_eq_some_iff] at h
      obtain ⟨j, hj, h⟩ := h
      cases hx : x.isInvalid with
      | true =>
        rw [unify_of_isInvalid_right j hx] at h
        obtain rfl := Option.some.inj h
        exact .inl ⟨lastRun_concat_of_isInvalid ps hx, hx⟩
      | false =>
        rw [lastRun_concat_of_valid ps hx]
        obtain ⟨hrun, hinvalid⟩ | hjoin := ih hj
        · rw [unify_of_isInvalid_left hinvalid] at h
          obtain rfl := Option.some.inj h
          rw [hrun]
          exact .inr (isJoin_singleton hx)
        · exact .inr (hjoin.unify hx h)

/-- What is joined together is joined as far as any point in the list. -/
theorem isSome_unifyAll_of_append {ps qs : List Pattern} (hps : ps ≠ [])
    (h : (unifyAll (ps ++ qs)).isSome) : (unifyAll ps).isSome := by
  cases ps with
  | nil => exact absurd rfl hps
  | cons first rest =>
    change ((rest ++ qs).foldlM unify first).isSome at h
    change (rest.foldlM unify first).isSome
    rw [List.foldlM_append] at h
    cases hrest : rest.foldlM unify first with
    | none => simp [hrest] at h
    | some j => rfl

/-- Some patterns that follow each other, none of them invalid, have no bound. -/
def Clash (ps : List Pattern) : Prop :=
  ∃ run, run <:+: ps ∧ (∀ x ∈ run, x.isInvalid = false) ∧ ¬ ∃ c : Pattern, c.Bounds run

/-- Patterns with a bound do not clash. -/
theorem not_clash_of_bounds {ps : List Pattern} {c : Pattern} (h : c.Bounds ps) : ¬ Clash ps := by
  rintro ⟨run, hrun, -, hbound⟩
  exact hbound ⟨c, h.mono hrun.subset⟩

/-- If no invalid pattern stands between others, patterns clash exactly if they have no bound. -/
theorem clash_iff_of_typed {before typed after : List Pattern}
    (hbefore : ∀ x ∈ before, x.isInvalid = true) (htyped : ∀ x ∈ typed, x.isInvalid = false)
    (hafter : ∀ x ∈ after, x.isInvalid = true) :
    Clash (before ++ typed ++ after) ↔
      ¬ ∃ c : Pattern, c.Bounds (before ++ typed ++ after) := by
  refine ⟨fun h ⟨c, hc⟩ => not_clash_of_bounds hc h, fun h => ?_⟩
  refine ⟨typed, ⟨before, after, rfl⟩, htyped, fun ⟨c, hc⟩ => h ⟨c, ?_⟩⟩
  exact (bounds_append_iff_of_isInvalid hbefore hafter).mpr hc

/-- Patterns of which none is invalid clash exactly if they have no bound. -/
theorem clash_iff_of_valid {ps : List Pattern} (hps : ∀ x ∈ ps, x.isInvalid = false) :
    Clash ps ↔ ¬ ∃ c : Pattern, c.Bounds ps := by
  simpa using clash_iff_of_typed (List.forall_mem_nil _) hps (List.forall_mem_nil _)

/-- `unifyAll` fails exactly if some patterns clash. -/
theorem unifyAll_eq_none_iff {ps : List Pattern} (hps : ps ≠ []) :
    unifyAll ps = none ↔ Clash ps := by
  constructor
  · intro h
    induction ps using List.reverseRecOn with
    | nil => exact absurd rfl hps
    | append_singleton ps x ih =>
      by_cases hnil : ps = []
      · subst hnil
        simp [unifyAll] at h
      rw [unifyAll_concat hnil] at h
      cases hj : unifyAll ps with
      | none =>
        obtain ⟨run, hrun, hclash⟩ := ih hnil hj
        exact ⟨run, hrun.trans (List.prefix_append ps [x]).isInfix, hclash⟩
      | some j =>
        rw [hj, Option.bind_some] at h
        -- Neither side is invalid, because an invalid pattern can be joined with anything.
        have hx : x.isInvalid = false := by
          cases hx : x.isInvalid with
          | false => rfl
          | true => simp [unify_of_isInvalid_right j hx] at h
        obtain ⟨-, hinvalid⟩ | hjoin := isJoin_of_unifyAll hj
        · simp [unify_of_isInvalid_left hinvalid] at h
        · refine ⟨lastRun (ps ++ [x]), List.IsSuffix.isInfix (List.rtakeWhile_suffix _ _),
            fun y hy => isInvalid_of_mem_lastRun hy, ?_⟩
          rw [lastRun_concat_of_valid ps hx]
          rintro ⟨d, hd⟩
          obtain ⟨k, hk⟩ := hjoin.exists_unify hx hd
          simp [hk] at h
  · rintro ⟨run, ⟨before, after, rfl⟩, hrun, hbound⟩
    by_cases hnil : before ++ run = []
    · obtain rfl : run = [] := (List.append_eq_nil_iff.mp hnil).2
      exact absurd ⟨nothing, rfl, by simp⟩ hbound
    rw [← Option.not_isSome_iff_eq_none]
    intro hsome
    -- The join so far bounds the run that ends here, and the run is part of it.
    obtain ⟨c, hc⟩ := Option.isSome_iff_exists.mp (isSome_unifyAll_of_append hnil hsome)
    have hlast := lastRun_append_of_valid before hrun
    obtain ⟨hempty, -⟩ | hjoin := isJoin_of_unifyAll hc
    · obtain rfl : run = [] := (List.append_eq_nil_iff.mp (hlast.symm.trans hempty)).2
      exact hbound ⟨nothing, rfl, by simp⟩
    · rw [hlast] at hjoin
      exact hbound ⟨c, hjoin.1.mono (List.subset_append_right _ _)⟩

end Runs

section Valid

variable {ps qs : List Pattern} (hps : ∀ x ∈ ps, x.isInvalid = false)
include hps

/-- Without invalid patterns, what `unifyAll` gives is the join of all. -/
theorem isJoin_of_unifyAll_of_valid {c : Pattern} (h : unifyAll ps = some c) : c.IsJoin ps := by
  have hlast := lastRun_eq_self hps
  obtain ⟨hempty, -⟩ | hjoin := isJoin_of_unifyAll h
  · rw [hlast] at hempty
    simp [hempty, unifyAll] at h
  · rwa [hlast] at hjoin

/-- Patterns that are not invalid have a join exactly if they have a bound. -/
theorem exists_unifyAll_iff (hne : ps ≠ []) :
    (∃ c, unifyAll ps = some c) ↔ ∃ d : Pattern, d.Bounds ps := by
  rw [← Option.ne_none_iff_exists', ne_eq, unifyAll_eq_none_iff hne, clash_iff_of_valid hps,
    not_not]

/-- Without invalid patterns the order makes no difference. -/
theorem clash_iff_of_perm (hperm : ps.Perm qs) : Clash ps ↔ Clash qs := by
  rw [clash_iff_of_valid hps, clash_iff_of_valid fun x hx => hps x (hperm.mem_iff.mpr hx),
    exists_bounds_iff_of_perm hperm]

end Valid

/-- Fitting is a preorder on patterns that are not invalid, and `unifyAll` gives joins in it. Some
patterns have a join exactly if some pattern bounds them. What `unifyAll` gives bounds them and fits
every pattern that does. In another order the same patterns have a join as well or have none as
well, and the two joins fit each other. -/
theorem unifyAll_joins {ps : List Pattern} (hne : ps ≠ [])
    (hps : ∀ x ∈ ps, x.isInvalid = false) :
    (∀ a : Pattern, a.fits a = true) ∧
      (∀ a b c : Pattern, b.isInvalid = false → a.fits b = true → b.fits c = true →
        a.fits c = true) ∧
      ((∃ c, unifyAll ps = some c) ↔ ∃ d : Pattern, d.Bounds ps) ∧
      (∀ c, unifyAll ps = some c → c.IsJoin ps) ∧
      ∀ qs, ps.Perm qs →
        ((∃ c, unifyAll ps = some c) ↔ ∃ d, unifyAll qs = some d) ∧
          ∀ c d, unifyAll ps = some c → unifyAll qs = some d →
            c.fits d = true ∧ d.fits c = true := by
  refine ⟨fits_refl, fun a b c hb => fits_trans hb, exists_unifyAll_iff hps hne,
    fun c hc => isJoin_of_unifyAll_of_valid hps hc, fun qs hperm => ?_⟩
  have hqs : ∀ x ∈ qs, x.isInvalid = false := fun x hx => hps x (hperm.mem_iff.mpr hx)
  have hne' : qs ≠ [] := fun h => hne (h ▸ hperm).eq_nil
  refine ⟨?_, fun c d hc hd => ?_⟩
  · rw [exists_unifyAll_iff hps hne, exists_unifyAll_iff hqs hne', exists_bounds_iff_of_perm hperm]
  · have hcjoin := isJoin_of_unifyAll_of_valid hps hc
    have hdjoin := isJoin_of_unifyAll_of_valid hqs hd
    exact ⟨hcjoin.fits_of_perm hdjoin hperm, hdjoin.fits_of_perm hcjoin hperm.symm⟩

/-- The pattern of `none` and a name at two places, once with one optional layer and once with
two. -/
def spellings : List Pattern :=
  [nothing, .optional (.unresolved ⟨"a", ⟨3, 4, 1, 4⟩⟩),
    .optional (.optional (.unresolved ⟨"a", .dummy⟩))]

/-- Of two spellings the later one is given, so the reverse order gives another join of the same
patterns. -/
theorem unifyAll_joins_spellings :
    spellings ≠ [] ∧ (∀ x ∈ spellings, x.isInvalid = false) ∧
      ∃ c d, unifyAll spellings = some c ∧ unifyAll spellings.reverse = some d ∧ c ≠ d ∧
        c.IsJoin spellings ∧ c.fits d = true ∧ d.fits c = true := by
  have hne : spellings ≠ [] := by simp [spellings]
  have hps : ∀ x ∈ spellings, x.isInvalid = false := by decide
  obtain ⟨-, -, -, hjoin, hperm⟩ := unifyAll_joins hne hps
  refine ⟨hne, hps, _, _, rfl, rfl, by decide, hjoin _ rfl, ?_⟩
  exact (hperm _ spellings.reverse_perm.symm).2 _ _ rfl rfl

end EntityLang.Pattern
