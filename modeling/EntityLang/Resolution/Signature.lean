import EntityLang.Resolution.Walk

/-!
# Resolving signatures

The declared patterns of variables, states and functions are resolved in the scope that binds them.
The walk starts at a scope, reports what the scope had to reject, and goes on into the scope of
every property it meets.
-/

namespace EntityLang

/-- The type that a name stands for. -/
def Program.resolveTypeName (p : Program) (s : ScopeId) (name : Mention) : Reported Pattern :=
  match p.fetch s name.identity with
  | some (.decl (.enum h)) => pure (.enum h)
  | some (.decl (.entity h)) => pure (.entity h)
  | some (.decl (.native h)) => pure (.native h)
  | some other => .failure .invalid (.notAPattern name.identity other.kind) name.span
  | none => .failure .invalid (.unboundPattern name.identity) name.span

/-- A pattern with its name resolved in a scope; optional layers stay. -/
def Pattern.resolve (p : Program) (s : ScopeId) : Pattern → Reported Pattern
  | .unresolved name => p.resolveTypeName s name
  | .optional inner => do
    let inner ← inner.resolve p s
    return .optional inner
  | q => pure q

/-- The reports of the declarations that a scope had to reject. -/
def Program.rejectedReports (p : Program) (s : ScopeId) : List Diagnostic :=
  (p.scope s).rejected.map fun b => (Problem.redeclared (p.identity b)).reportAt (p.bindingSpan b)

namespace Walk

/-- Report what a scope had to reject, once. -/
def reportRejected (s : ScopeId) : Walk Unit := do
  reporting fun p => ⟨(), p.rejectedReports s⟩
  update fun p => p.clearRejected s

/-- Resolve the declared pattern of something bound in a scope, and visit the scope of a
property. -/
def declSignature (visit : ScopeId → Walk Unit) (s : ScopeId) : Decl → Walk Unit
  | .var h => do
    let pattern ← reporting fun p => (p.var h).pattern.resolve p s
    update fun p => p.setVarPattern h pattern
  | .state h => do
    let pattern ← reporting fun p => (p.state h).pattern.resolve p s
    update fun p => p.setStatePattern h pattern
    let own ← read fun p => (p.state h).scope
    visit own
  | .function h => do
    let pattern ← reporting fun p => (p.function h).pattern.resolve p s
    update fun p => p.setFunctionPattern h pattern
    let own ← read fun p => (p.function h).scope
    visit own
  | .native _ | .enum _ | .entity _ => pure ()

/-- Resolve the signatures of a scope and of at most `depth` scopes nested in each other. -/
def signaturesUpTo : (depth : Nat) → ScopeId → Walk Unit
  | 0, _ => endless
  | depth + 1, s => do
    reportRejected s
    let decls ← read fun p => p.declared s
    forEach (declSignature (signaturesUpTo depth) s) decls

end Walk

/-- Scopes of properties that are nested deeper than this are nested in themselves. -/
def Program.signatureDepth (p : Program) : Nat := p.propertyCount + 1

/-- Resolve the signatures of a scope and of the scopes of its properties. -/
def Walk.signatures (s : ScopeId) : Walk Unit := fun p =>
  Walk.signaturesUpTo p.signatureDepth s p

end EntityLang
