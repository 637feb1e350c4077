import EntityLang.Proofs.Expr.View
import EntityLang.Proofs.Program.ParserShape

/-!
# Resolved sites

What is known of resolved expressions holds of the sites of a block: they have no names left, they
refer to nothing but what is known in their scopes, and they are resolved alike by programs that
look the same from there.
-/

namespace EntityLang

namespace Expectation

/-- No name is left in the subject. -/
def IsResolved : Expectation → Prop
  | .like subject => subject.IsResolved
  | _ => True

/-- The subject refers to what is visible from the scope, and the variable is declared in it. -/
def Within (p : Program) (s : ScopeId) : Expectation → Prop
  | .like subject => subject.HandlesIn (p.Visible s)
  | .declared v => p.DeclaredIn s (.var v)
  | _ => True

variable {p q r : Program} {s : ScopeId}

/-- What resolving makes of an expectation has no names left. -/
theorem resolve_isResolved (p : Program) (s : ScopeId) (x : Expectation) :
    (x.resolve p s).IsResolved := by
  cases x with
  | like subject => exact subject.resolve_isResolved p s none
  | _ => trivial

/-- What is placed by a parser refers to nothing from outside. -/
theorem Placed.within {x : Expectation} (hx : x.Placed p s) : x.Within p s := by
  cases x with
  | like subject => exact Expr.IsSource.handlesIn hx _
  | declared v => exact hx
  | _ => trivial

/-- Resolving refers to what is visible only. -/
theorem Within.resolve (hvisible : q.Visible = p.Visible) {x : Expectation} (hx : x.Within p s) :
    (x.resolve q s).Within p s := by
  cases x with
  | like subject =>
    exact Expr.HandlesIn.resolve (fun _ h => hvisible ▸ h) hx none
  | _ => exact hx

section Congruence

variable (hview : q.SameView r s) (hvisible : q.Visible = p.Visible)
  (htarget : ∀ v, p.DeclaredIn s (.var v) → (q.var v).pattern = (r.var v).pattern)
include hview hvisible

/-- Programs that look the same from a scope resolve an expectation alike. -/
theorem Within.resolve_congr {x : Expectation} (hx : x.Within p s)
    (hcalls : x.IsResolved ∨ q.SameParameters r s) : x.resolve q s = x.resolve r s := by
  cases x with
  | like subject =>
    have hsubject : subject.resolve q s none = subject.resolve r s none :=
      Expr.resolve_congr hview.agree (Known.closed_ofDecls fun _ h => h)
        (Known.knownIn_ofDecls.mpr (hx.mono fun _ h => hvisible ▸ h)) hcalls Known.no_hint
    rw [Expectation.resolve, Expectation.resolve, hsubject]
  | _ => rfl

include htarget

/-- Programs that look the same from a scope take the same hint from an expectation. -/
theorem Within.hint_congr {x : Expectation} (hx : x.Within p s) (outer : Option Pattern) :
    x.hint q outer = x.hint r outer := by
  cases x with
  | like subject =>
    exact congrArg some (Expr.pattern_congr hview.agree.owner hview.agree.pattern
      (Known.knownIn_ofDecls.mpr (Expr.HandlesIn.mono hx fun _ h => hvisible ▸ h)))
  | declared v => exact congrArg some (htarget v hx)
  | _ => rfl

end Congruence

end Expectation

namespace Site

/-- No name is left in the expressions of the site. -/
def IsResolved : Site → Prop
  | .eval _ expected e => expected.IsResolved ∧ e.IsResolved
  | _ => True

/-- What the expressions of the site refer to is known in its scope. -/
def Within (p : Program) : Site → Prop
  | .eval s expected e => expected.Within p s ∧ e.HandlesIn (p.Visible s)
  | _ => True

variable {p q r : Program}

/-- What resolving makes of a site has no names left. -/
theorem resolve_isResolved (p : Program) (outer : Option Pattern) (x : Site) :
    (x.resolve p outer).IsResolved := by
  cases x with
  | eval s expected e => exact ⟨expected.resolve_isResolved p s, e.resolve_isResolved p s _⟩
  | _ => trivial

/-- What is placed by a parser refers to nothing from outside. -/
theorem Placed.within {x : Site} (hx : x.Placed p) : x.Within p := by
  cases x with
  | eval s expected e => exact ⟨hx.1.within, hx.2.handlesIn _⟩
  | _ => trivial

/-- Resolving refers to what is visible only. -/
theorem Within.resolve (hvisible : q.Visible = p.Visible) {x : Site} (hx : x.Within p)
    (outer : Option Pattern) : (x.resolve q outer).Within p := by
  cases x with
  | eval s expected e =>
    exact ⟨hx.1.resolve hvisible, hx.2.resolve (fun d (h : q.Visible s d) => hvisible ▸ h) _⟩
  | _ => trivial

/-- Programs that look the same from the scope of a site resolve it alike. -/
theorem Within.resolve_congr {s : ScopeId} {expected : Expectation} {e : Expr}
    (hx : (Site.eval s expected e).Within p) (hview : q.SameView r s)
    (hvisible : q.Visible = p.Visible)
    (htarget : ∀ v, p.DeclaredIn s (.var v) → (q.var v).pattern = (r.var v).pattern)
    (hcalls : (Site.eval s expected e).IsResolved ∨ q.SameParameters r s)
    (outer : Option Pattern) :
    (Site.eval s expected e).resolve q outer = (Site.eval s expected e).resolve r outer := by
  have hexpected : expected.resolve q s = expected.resolve r s :=
    hx.1.resolve_congr hview hvisible (hcalls.imp And.left id)
  have hhint : (expected.resolve q s).hint q outer = (expected.resolve q s).hint r outer :=
    (hx.1.resolve hvisible).hint_congr hview hvisible htarget outer
  have hexpr (hint : Option Pattern) : e.resolve q s hint = e.resolve r s hint :=
    Expr.resolve_congr hview.agree (Known.closed_ofDecls fun _ h => h)
      (Known.knownIn_ofDecls.mpr (hx.2.mono fun _ h => hvisible ▸ h)) (hcalls.imp And.right id)
      (Known.hint_ofDecls _ hint)
  rw [Site.resolve, Site.resolve, hhint, hexpected, hexpr]

end Site

end EntityLang
