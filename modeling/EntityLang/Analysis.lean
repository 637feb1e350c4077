import EntityLang.Checking.Program
import EntityLang.Resolution.Pass

/-!
# Analysing programs

A program is analysed by resolving it and then checking what came out.
-/

namespace EntityLang

/-- A resolved program and what was found in it. -/
structure Analysis where
  program : Program
  findings : Findings

/-- Resolve and check a program; there is no analysis if resolving has no end. -/
def Program.analyze (p : Program) : Option Analysis :=
  match Walk.resolve p with
  | none => none
  | some outcome => some ⟨outcome.program, .found outcome.reports ++ outcome.program.check⟩

end EntityLang
