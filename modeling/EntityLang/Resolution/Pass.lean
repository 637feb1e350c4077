import EntityLang.Resolution.Body

/-!
# Resolver passes

The signature pass and the body pass start at the global scope. Resolving a program is the one
followed by the other; each pass records in the program how far it is resolved.
-/

namespace EntityLang

/-- A pass over a program. -/
inductive Pass where
  | signatures
  | bodies
  | full
  deriving DecidableEq

namespace Walk

/-- Resolve every signature that the global scope reaches. -/
def signaturePass : Walk Unit := do
  signatures Program.globalScope
  update fun p => { p with phase := p.phase.afterSignatures }

/-- Resolve every initial value and every body that the global scope reaches. -/
def bodyPass : Walk Unit := do
  bodies Program.globalScope
  update fun p => { p with phase := .resolved }

/-- Resolve everything that the global scope reaches. -/
def resolve : Walk Unit := do
  signaturePass
  bodyPass

end Walk

/-- The walk of a pass. -/
def Pass.walk : Pass → Walk Unit
  | .signatures => Walk.signaturePass
  | .bodies => Walk.bodyPass
  | .full => Walk.resolve

end EntityLang
