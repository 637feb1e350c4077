/-!
# Places in the source

A span is a stretch of source text with the line and column where it begins. A mention is a name as
it is written at one place, before it is known what the name stands for.
-/

namespace EntityLang

/-- A stretch of source text. -/
structure Span where
  start : Nat
  stop : Nat
  line : Nat
  column : Nat
  deriving DecidableEq, Inhabited

namespace Span

/-- The place of nodes that have no source text. -/
def dummy : Span := ⟨0, 0, 0, 0⟩

/-- The stretch from the earlier start to the later end; of two equal starts the left one counts. -/
def merge (a b : Span) : Span :=
  let first := if a.start ≤ b.start then a else b
  { first with stop := max a.stop b.stop }

/-- A place as it is shown to a user, `line:column`. -/
def text (s : Span) : String :=
  toString s.line ++ ":" ++ toString s.column

end Span

/-- A name as it is written at one place. -/
structure Mention where
  identity : String
  span : Span
  deriving DecidableEq, Inhabited

end EntityLang
