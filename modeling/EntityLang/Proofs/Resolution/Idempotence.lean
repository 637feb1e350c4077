import EntityLang.Proofs.Resolution.Signature
import EntityLang.Proofs.Walk.Rest
import EntityLang.Proofs.Walk.Termination

/-!
# Resolving once is enough

What resolving writes has no names left, so it depends on patterns only, and these are final when it
is written. Hence it would be written again in the end, and a resolved program is at rest: further
passes, in any number and order, change nothing and report nothing.
-/

namespace EntityLang

/-- Every expression refers to what is known in its scope and is fixed in `r`. -/
def Goal.fixed (p r : Program) : Goal where
  pattern := exactPattern p
  value h e := (Site.eval (p.state h).scope .result e).Within p ∧
    (Site.eval (p.state h).scope .result e).Fixed r (some (r.state h).pattern)
  body h b := ∀ x ∈ b.sites (p.function h).scope true,
    x.Within p ∧ x.Fixed r (some (r.function h).pattern)

namespace Goal

variable {G : Goal} {p q r : Program} (hp : p.ParserShaped) (hr : p.Signs r)
include hp hr

/-- What is resolved in a ready scope is fixed in the end. -/
theorem ChainReady.resolve_fixed (hG : G.pattern = exactPattern p) (hq : G.Advance p q)
    {s : ScopeId} (hs : G.ChainReady p q s) {expected : Expectation} {e : Expr}
    (hx : (Site.eval s expected e).Within p) (outer : Option Pattern) :
    ((Site.eval s expected e).resolve q outer).Within p ∧
      ((Site.eval s expected e).resolve q outer).Fixed r outer := by
  have hwithin := hx.resolve (Program.visible_of_skeleton_eq hq.shape) outer
  have hresolved := (Site.eval s expected e).resolve_isResolved q outer
  refine ⟨hwithin, ?_⟩
  calc ((Site.eval s expected e).resolve q outer).resolve r outer
      = ((Site.eval s expected e).resolve q outer).resolve q outer :=
        (hs.resolve_eq hp.built.sound hG hq hr hwithin (.inl hresolved) outer).symm
    _ = (Site.eval s expected e).resolve q outer := Site.resolve_resolve q outer _

/-- Resolving in ready scopes makes everything fixed. -/
theorem fixed_plan : (fixed p r).Plan p ((fixed p r).ChainReady p) := by
  refine plan_of_signs rfl hr hp ?_ ?_
  · intro q h e hq hown he
    have hwithin : (Site.eval (p.state h).scope .result e).Within p := by
      obtain hsame | hgood := hq.value h e he
      · exact ⟨trivial, (hp.isSource hsame).handlesIn _⟩
      · exact hgood.1
    exact hown.resolve_fixed hp hr rfl hq hwithin (some (r.state h).pattern)
  · intro q h b b' C hmove hready hq hb hbecomes y hy
    obtain ⟨x, hx, hxy⟩ := Walk.exists_becomes hbecomes hy
    have hwithin : x.Within p := by
      obtain hsame | hgood := hq.body h b hb
      · exact (hp.placed hsame hx).within
      · exact (hgood x hx).1
    cases x with
    | eval t expected e =>
      obtain ⟨q', hqq', ht, rfl⟩ := hxy
      rw [hmove] at hqq'
      rw [hready] at ht
      exact ht.resolve_fixed hp hr rfl (hq.trans hqq') hwithin _
    | _ =>
      obtain rfl : y = _ := hxy
      exact ⟨trivial, rfl⟩

end Goal

/-- Afterwards the program counts as resolved. -/
theorem Walk.resolve_phase (p : Program) :
    resolve.Ensures p fun o => o.program.phase = .resolved := by
  apply ensures_bind
  intro first _
  apply ensures_bind
  intro second _
  exact ensures_update rfl

/-- Resolving leaves a program as a parser builds it at rest. -/
theorem Walk.resolve_atRest {p : Program} (hp : p.ParserShaped) :
    resolve.Ensures p fun o => o.program.AtRest := by
  intro o ho
  have hsigns := resolve_signs hp o ho
  obtain ⟨-, hcomplete⟩ := resolve_completes (Goal.fixed_plan hp hsigns) o ho
  constructor
  case phase => exact resolve_phase p o ho
  case rejected => exact fun s hs => (hcomplete s hs).1.1
  case pattern =>
    intro s hs d hd
    rw [Program.reachable_of_skeleton_eq hsigns.shape] at hs
    rw [Program.declared_of_skeleton_eq hsigns.shape] at hd
    rw [hsigns.bound s hs d hd, Pattern.unresolved?_named]
  case value =>
    intro s hs h hd e he
    rw [Program.stateScope_of_skeleton_eq hsigns.shape]
    exact ((hcomplete s hs).2 _ hd e he).2
  case body =>
    intro s hs h hd b hb x hx
    rw [Program.functionScope_of_skeleton_eq hsigns.shape] at hx
    exact (((hcomplete s hs).2 _ hd b hb).1 x hx).2

/-- Once a program as a parser builds it is resolved, any further passes leave it exactly as it is
and report nothing. -/
theorem passes_after_resolve {p : Program} (hp : p.ParserShaped) :
    ∃ o, Walk.resolve p = some o ∧
      ∀ passes : List Pass, Walk.forEach Pass.walk passes o.program = some ⟨(), o.program, []⟩ := by
  obtain ⟨o, ho, hshape, -⟩ := Walk.keeps_pass hp .full p rfl
  have hrest := Walk.resolve_atRest hp o ho
  refine ⟨o, ho, fun passes => ?_⟩
  have hends : Walk.Keeps (fun q => q.skeleton = p.skeleton) (Walk.forEach Pass.walk passes)
      fun _ => True := Walk.keeps_forEach fun pass _ => Walk.keeps_pass hp pass
  have hrests : (Walk.forEach Pass.walk passes).Rests o.program () :=
    Walk.rests_forEach fun pass _ => Walk.rests_pass hrest pass
  obtain ⟨o', ho', -⟩ := hends o.program hshape
  rw [ho', hrests o' ho']

/-- An overloaded function, a state that is declared twice with a literal of another type, and a
function whose body calls an overload and names something that is not there. -/
def troubled : Program :=
  let name (identity : String) : Mention := ⟨identity, .dummy⟩
  let int := Pattern.unresolved (name "int")
  let number := Pattern.unresolved (name "number")
  let one := Expr.literal (.int 1) .dummy
  .build [.declareFunction Program.globalScope "f" int [("x", int)],
    .declareFunction Program.globalScope "f" number [("x", number), ("y", number)],
    .declareState Program.globalScope "n" (.optional number) [] (some one),
    .declareState Program.globalScope "n" number [] (some one),
    .scope (some ⟨2⟩), .var ⟨5⟩ ⟨"z", .unresolved (name "nothing"), .dummy⟩,
    .body ⟨1⟩ ⟨true, ⟨5⟩, [.declare ⟨3⟩ (some (.unresolved (name "missing") .dummy)) .dummy,
      .expr (.call (.unresolved (name "f")) [one, .unresolved (name "y") .dummy] .dummy)], .dummy⟩]

/-- With redeclarations and unknown names reported by the full pass, later passes change nothing. -/
theorem passes_after_resolve_troubled :
    troubled.ParserShaped ∧ ∃ o, Walk.resolve troubled = some o ∧ o.reports.length = 3 ∧
      Walk.forEach Pass.walk [.bodies, .signatures, .full, .bodies] o.program =
        some ⟨(), o.program, []⟩ := by
  have hshaped : troubled.ParserShaped := ⟨by decide +kernel, _, by decide +kernel, rfl⟩
  obtain ⟨o, ho, hpasses⟩ := passes_after_resolve hshaped
  have hcount : (Walk.resolve troubled).map (fun o => o.reports.length) = some 3 := by
    decide +kernel
  rw [ho, Option.map_some, Option.some.injEq] at hcount
  exact ⟨hshaped, o, ho, hcount, hpasses _⟩

end EntityLang
