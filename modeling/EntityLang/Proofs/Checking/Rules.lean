import EntityLang.Proofs.Checking.Extension
import EntityLang.Proofs.Checking.Halt
import EntityLang.Proofs.Pattern.Join
import EntityLang.Proofs.Pattern.Overlap

/-!
# The rules of a match

The check of a match reports what it finds in the subject and in the rules, one after the other. Two
reports are its own. A rule is unreachable if its head does not overlap the subject, and the rules
are inconsistent if their results have no join.

Both tests are wrong in one direction. Two optional patterns of different types both have the value
`none`, but do not overlap, so a rule may be called unreachable that matches `none`. And a result of
invalid pattern hides the results before it from those behind it, so rules may be called consistent
whose results have no common pattern.
-/

namespace EntityLang

namespace Findings

/-- What is reported by a check that finishes. -/
def reports : Findings → List Diagnostic
  | .found ds => ds
  | .halted _ => []

/-- Findings without a cause to halt are their reports. -/
theorem eq_found_of_cause? {f : Findings} (h : f.cause? = none) : f = .found f.reports := by
  obtain ⟨ds, rfl⟩ := (cause?_eq_none_iff f).mp h
  rfl

/-- A requirement that is not met is the only report of its check. -/
theorem reports_require (condition : Bool) (problem : Problem) (span : Span) :
    (require condition problem span).reports =
      if condition then [] else [problem.reportAt span] := by
  cases condition <;> rfl

/-- Checks that finish one by one finish in turn. -/
theorem forEach_eq_found {α : Type} {check : α → Findings} {found : α → List Diagnostic}
    {as : List α} (h : ∀ a ∈ as, check a = .found (found a)) :
    forEach check as = .found (as.flatMap found) := by
  induction as with
  | nil => rfl
  | cons a rest ih =>
    rw [List.forall_mem_cons] at h
    rw [forEach, h.1, ih h.2, found_append_found, List.flatMap_cons]

end Findings

namespace Expr

/-- What the check of an expression reports. -/
def checkReports (p : Program) (e : Expr) : List Diagnostic := (e.check p).reports

/-- What the check of a rule of a match reports: first in the head and in the result. -/
def armReports (p : Program) (subject : Pattern) (r : Rule Expr) : List Diagnostic :=
  r.head.checkReports p ++ r.result.checkReports p ++ (r.head.checkReachable p subject).reports

/-- The check of a resolved expression finishes. -/
theorem IsResolved.check_eq {e : Expr} (h : e.IsResolved) (p : Program) :
    e.check p = .found (e.checkReports p) :=
  Findings.eq_found_of_cause? (by rw [cause?_check, (findSome?_leftover?_eq_none_iff e).mpr h])

section Select

variable {p : Program} {subject : Expr} {rules : List (Rule Expr)} {span : Span}

/-- The check of a resolved match reports on the subject, on each rule and on all results. -/
theorem IsResolved.check_select (h : (select subject rules span).IsResolved) :
    (select subject rules span).check p =
      .found (subject.checkReports p ++ rules.flatMap (armReports p (subject.pattern p)) ++
        (checkConsistent p rules span).reports) := by
  obtain ⟨-, hsubject, hrules⟩ := (everywhere_select subject rules span).mp h
  have harms : checkArms p (subject.pattern p) rules =
      .found (rules.flatMap (armReports p (subject.pattern p))) := by
    rw [checkArms_eq_forEach]
    refine Findings.forEach_eq_found fun r hr => ?_
    have hreachable := Findings.eq_found_of_cause?
      (Findings.cause?_require ((r.head.pattern p).overlaps (subject.pattern p)) .unreachable
        r.head.span)
    rw [IsResolved.check_eq (hrules r hr).1, IsResolved.check_eq (hrules r hr).2, checkReachable,
      hreachable]
    rfl
  have hconsistent := Findings.eq_found_of_cause? (f := checkConsistent p rules span)
    (Findings.cause?_require _ _ _)
  rw [check, IsResolved.check_eq hsubject, harms, hconsistent]
  rfl

/-- The check of a rule calls it unreachable exactly if its head does not overlap the subject. -/
theorem reports_checkReachable (p : Program) (subject : Pattern) (head : Expr) :
    (head.checkReachable p subject).reports =
      if (head.pattern p).overlaps subject then [] else [Problem.unreachable.reportAt head.span] :=
  Findings.reports_require _ _ _

/-- The check of results calls them inconsistent exactly if they clash. -/
theorem reports_checkConsistent (p : Program) (hrules : rules ≠ []) (span : Span) :
    (checkConsistent p rules span).reports = [Problem.inconsistent.reportAt span] ∧
        Pattern.Clash (rules.map fun r => r.result.pattern p) ∨
      (checkConsistent p rules span).reports = [] ∧
        ¬ Pattern.Clash (rules.map fun r => r.result.pattern p) := by
  have hresults : rules.map (fun r => r.result.pattern p) ≠ [] := by simpa using hrules
  rw [← Pattern.unifyAll_eq_none_iff hresults, checkConsistent, Findings.reports_require,
    resultPatterns_eq_map]
  cases Pattern.unifyAll (rules.map fun r => r.result.pattern p) <;> simp [hrules]

/-- The check of a resolved match calls its rules inconsistent exactly if some results clash: they
follow each other, none of them has an invalid pattern, and no pattern bounds theirs. It is the last
thing that the check reports, after what it finds in the subject and in the rules.

So rules whose results have a common pattern are never called inconsistent. If no invalid pattern
stands between others, all rules without a common pattern are. If there is no invalid pattern at
all, the order of the rules makes no difference. -/
theorem inconsistent_iff_clash (hrules : rules ≠ [])
    (hresolved : (select subject rules span).IsResolved) :
    let results := rules.map fun r => r.result.pattern p
    let parts := subject.checkReports p ++ rules.flatMap (armReports p (subject.pattern p))
    ((select subject rules span).check p =
          .found (parts ++ [Problem.inconsistent.reportAt span]) ∧ Pattern.Clash results ∨
        (select subject rules span).check p = .found parts ∧ ¬ Pattern.Clash results) ∧
      ((∃ c : Pattern, c.Bounds results) → ¬ Pattern.Clash results) ∧
      (∀ before typed after, results = before ++ typed ++ after →
        (∀ x ∈ before, x.isInvalid = true) → (∀ x ∈ typed, x.isInvalid = false) →
        (∀ x ∈ after, x.isInvalid = true) →
        (Pattern.Clash results ↔ ¬ ∃ c : Pattern, c.Bounds results)) ∧
      ((∀ x ∈ results, x.isInvalid = false) → ∀ others : List (Rule Expr), rules.Perm others →
        (Pattern.Clash results ↔ Pattern.Clash (others.map fun r => r.result.pattern p))) := by
  intro results parts
  refine ⟨?_, fun ⟨c, hc⟩ => Pattern.not_clash_of_bounds hc, ?_, fun hvalid others hperm => ?_⟩
  · rw [hresolved.check_select]
    refine (reports_checkConsistent p hrules span).imp ?_ ?_
    · rintro ⟨hreports, hclash⟩
      exact ⟨by rw [hreports], hclash⟩
    · rintro ⟨hreports, hclash⟩
      exact ⟨by rw [hreports, List.append_nil], hclash⟩
  · rintro before typed after hsplit hbefore htyped hafter
    rw [hsplit]
    exact Pattern.clash_iff_of_typed hbefore htyped hafter
  · exact Pattern.clash_iff_of_perm hvalid (hperm.map _)

end Select

/-- Rules with these results. -/
def arms (results : List Expr) : List (Rule Expr) :=
  results.map fun x => ⟨.literal (.int 0) .dummy, x, .dummy⟩

/-- A match with these results. -/
def choice (results : List Expr) : Expr :=
  .select (.literal (.int 0) .dummy) (arms results) ⟨1, 9, 1, 2⟩

/-- A list, which has no pattern. -/
def untyped : Expr := .list [] .dummy

/-- An integer. -/
def integer : Expr := .literal (.int 1) .dummy

/-- A string. -/
def text : Expr := .literal (.string "one") .dummy

/-- A list before the other results does no harm: the integer and the string are found to clash. -/
theorem inconsistent_iff_clash_choice :
    arms [untyped, integer, text] ≠ [] ∧ (choice [untyped, integer, text]).IsResolved ∧
      (choice [untyped, integer, text]).check .fresh =
        .found [Problem.inconsistent.reportAt ⟨1, 9, 1, 2⟩] ∧
      ¬ ∃ c : Pattern, c.Bounds [.invalid, .int, .string] := by
  have hrules : arms [untyped, integer, text] ≠ [] := by simp [arms]
  have hresolved : (choice [untyped, integer, text]).IsResolved := by
    simp [IsResolved, choice, arms, untyped, integer, text, mention?]
  have hcheck : (choice [untyped, integer, text]).check .fresh =
      .found [Problem.inconsistent.reportAt ⟨1, 9, 1, 2⟩] := by decide +kernel
  refine ⟨hrules, hresolved, hcheck, ?_⟩
  obtain ⟨hreports, -, htyped, -⟩ := inconsistent_iff_clash (p := .fresh) hrules hresolved
  obtain ⟨-, hclash⟩ | ⟨hclean, -⟩ := hreports
  · exact (htyped [.invalid] [.int, .string] [] rfl (by decide) (by decide) (by decide)).mp hclash
  · exact absurd (hcheck.symm.trans hclean) (by decide +kernel)

/-- The same list between the other results hides one from the other: nothing is reported, although
no pattern bounds all three. -/
theorem check_choice_misses_clash :
    (choice [integer, untyped, text]).check .fresh = .clean ∧
      (choice [integer, text, untyped]).check .fresh =
        .found [Problem.inconsistent.reportAt ⟨1, 9, 1, 2⟩] ∧
      ¬ ∃ c : Pattern, c.Bounds [.int, .invalid, .string] := by
  refine ⟨by decide +kernel, by decide +kernel, ?_⟩
  rintro ⟨c, hc⟩
  have hbounds : c.Bounds [.int, .string] := hc.mono (by simp)
  have hvalid : ∀ x ∈ [Pattern.int, .string], x.isInvalid = false := by decide
  obtain ⟨j, hj⟩ := (Pattern.exists_unifyAll_iff hvalid (by simp)).mpr ⟨c, hbounds⟩
  simp [show Pattern.unifyAll [.int, .string] = none by decide] at hj

/-- Two patterns that are neither invalid nor names overlap exactly if some nominal pattern fits
both, except that two optional patterns of different types, neither of them `none`, do not overlap
although `none` fits both.

The check of a resolved match reports a rule as unreachable exactly if its head and the subject do
not overlap, right after what it finds in the head and in the result. So a rule that has a type in
common with the subject is reported in the excepted case and in no other. -/
theorem unreachable_iff_share {a b : Pattern} (ha : a.isInvalid = false)
    (ha' : a.isUnresolved = false) (hb : b.isInvalid = false) (hb' : b.isUnresolved = false) :
    (a.overlaps b = true ↔ a.ShareType b ∧ ¬ a.ShareNoneOnly b) ∧
      (a.ShareNoneOnly b → a.ShareType b) ∧
      ∀ (p : Program) (subject : Expr) (before after : List (Rule Expr)) (r : Rule Expr)
        (span : Span), (select subject (before ++ r :: after) span).IsResolved →
        r.head.pattern p = a → subject.pattern p = b →
        ∃ own, (select subject (before ++ r :: after) span).check p =
            .found (subject.checkReports p ++ before.flatMap (armReports p b) ++
              (r.head.checkReports p ++ r.result.checkReports p ++ own) ++
              (after.flatMap (armReports p b) ++
                (checkConsistent p (before ++ r :: after) span).reports)) ∧
          (own = [Problem.unreachable.reportAt r.head.span] ∧
              (¬ a.ShareType b ∨ a.ShareNoneOnly b) ∨
            own = [] ∧ a.ShareType b ∧ ¬ a.ShareNoneOnly b) := by
  have hoverlaps := Pattern.overlaps_iff_shareType ha ha' hb hb'
  refine ⟨hoverlaps, fun h => h.shareType ha hb, ?_⟩
  rintro p subject before after r span hresolved rfl rfl
  refine ⟨(r.head.checkReachable p (subject.pattern p)).reports, ?_, ?_⟩
  · rw [hresolved.check_select, List.flatMap_append, List.flatMap_cons]
    simp only [armReports, List.append_assoc]
  · rw [reports_checkReachable]
    cases htest : (r.head.pattern p).overlaps (subject.pattern p) with
    | true => exact .inr ⟨rfl, hoverlaps.mp htest⟩
    | false =>
      refine .inl ⟨rfl, ?_⟩
      rw [htest] at hoverlaps
      tauto

/-- Two variables that may be `none`, an integer and a string. -/
def perhaps : Program :=
  .build [.var Program.globalScope ⟨"n", .optional .int, .dummy⟩,
    .var Program.globalScope ⟨"t", .optional .string, .dummy⟩]

/-- The rules of a match on the integer: one for the string and one for `none`. -/
def perhapsRules : List (Rule Expr) :=
  [⟨.var ⟨1⟩ ⟨3, 4, 1, 4⟩, integer, .dummy⟩, ⟨.literal .none ⟨5, 9, 1, 6⟩, integer, .dummy⟩]

/-- The rule for the string is reported, and the one for `none` is not. -/
theorem unreachable_iff_share_perhaps :
    let a : Pattern := .optional .string
    let b : Pattern := .optional .int
    a.isInvalid = false ∧ a.isUnresolved = false ∧ b.isInvalid = false ∧ b.isUnresolved = false ∧
      (select (.var ⟨0⟩ .dummy) perhapsRules .dummy).IsResolved ∧ a.ShareNoneOnly b ∧
      (select (.var ⟨0⟩ .dummy) perhapsRules .dummy).check perhaps =
        .found [Problem.unreachable.reportAt ⟨3, 4, 1, 4⟩] := by
  intro a b
  have hresolved : (select (.var ⟨0⟩ .dummy) perhapsRules .dummy).IsResolved := by
    simp [IsResolved, perhapsRules, integer, mention?]
  have hshare : a.ShareNoneOnly b := by
    simp [Pattern.ShareNoneOnly, a, b, Pattern.isOptional, Pattern.core, Intrinsic.none,
      Intrinsic.int, Intrinsic.string]
  obtain ⟨-, -, hmatch⟩ := unreachable_iff_share (a := a) (b := b) rfl rfl rfl rfl
  obtain ⟨own, hcheck, ⟨rfl, -⟩ | ⟨-, -, hnot⟩⟩ := hmatch perhaps (.var ⟨0⟩ .dummy) []
    [⟨.literal .none ⟨5, 9, 1, 6⟩, integer, .dummy⟩] ⟨.var ⟨1⟩ ⟨3, 4, 1, 4⟩, integer, .dummy⟩ .dummy
    hresolved (by decide +kernel) (by decide +kernel)
  · refine ⟨rfl, rfl, rfl, rfl, hresolved, hshare, hcheck.trans ?_⟩
    decide +kernel
  · exact absurd hshare hnot

/-- `none` fits both patterns, but they do not overlap, so a rule that matches `none` is reported as
unreachable. -/
theorem overlaps_misses_none :
    Pattern.nothing.isNominal = true ∧ Pattern.nothing.fits (.optional .string) = true ∧
      Pattern.nothing.fits (.optional .int) = true ∧
      (Pattern.optional .string).overlaps (.optional .int) = false ∧
      (select (.var ⟨0⟩ .dummy) perhapsRules .dummy).check perhaps =
        .found [Problem.unreachable.reportAt ⟨3, 4, 1, 4⟩] := by
  decide +kernel

end Expr

end EntityLang
