import EntityLang.Proofs.Resolution.Completeness
import EntityLang.Proofs.Walk.Steps

/-!
# What resolving leaves in place

Passes fill in patterns and expressions, forget rejected declarations and set the phase. Everything
else of a program is its frame, and no pass touches it, in any order and number of passes and
however scopes and bodies are entangled: nodes are neither added nor lost, and a body that a walk
meets again while it is inside of it comes out with all of its statements.
-/

namespace EntityLang

namespace Program

/-- The second program has the nodes of the first one, which differ in patterns, in the contents of
expressions and in rejected declarations only. -/
structure SameFrame (p q : Program) : Prop where
  /-- Nodes that have neither a pattern nor an expression are the same. -/
  natives : q.natives = p.natives
  enums : q.enums = p.enums
  enumValues : q.enumValues = p.enumValues
  entities : q.entities = p.entities
  /-- There are as many of the others. -/
  scopeCount : q.scopes.size = p.scopes.size
  varCount : q.vars.size = p.vars.size
  stateCount : q.states.size = p.states.size
  functionCount : q.functions.size = p.functions.size
  /-- Scopes are nested in the same way and bind the same names to the same declarations. -/
  parent : ∀ s, (q.scope s).parent = (p.scope s).parent
  bindings : ∀ s, (q.scope s).bindings = (p.scope s).bindings
  /-- Declarations have their name, their place and, if they are properties, their scope. -/
  identity : ∀ d, q.declIdentity d = p.declIdentity d
  span : ∀ d, q.declSpan d = p.declSpan d
  ownScope : ∀ d, q.ownScope? d = p.ownScope? d
  /-- Properties have the same parameters. -/
  stateParameters : ∀ h, (q.state h).parameters = (p.state h).parameters
  functionParameters : ∀ h, (q.function h).parameters = (p.function h).parameters
  /-- A state has an initial value if it had one, and a function has a body of the same scopes,
  flags, statements, places and variables if it had one. -/
  initialValue : ∀ h, (q.state h).initialValue.isSome = (p.state h).initialValue.isSome
  body : ∀ h, (q.function h).body.map Block.skeleton = (p.function h).body.map Block.skeleton

/-- The frame of a program is what its skeleton shows. -/
theorem sameFrame_of_skeleton_eq {p q : Program} (h : q.skeleton = p.skeleton) : p.SameFrame q := by
  have hscope (s : ScopeId) : (q.scope s).skeleton = (p.scope s).skeleton := by
    rw [← scope_skeleton, h, scope_skeleton]
  have hstate (k : StateId) : (q.state k).skeleton = (p.state k).skeleton := by
    rw [← state_skeleton, h, state_skeleton]
  have hfunction (k : FunctionId) : (q.function k).skeleton = (p.function k).skeleton := by
    rw [← function_skeleton, h, function_skeleton]
  exact
    { natives := congrArg (fun r => r.natives) h
      enums := congrArg (fun r => r.enums) h
      enumValues := congrArg (fun r => r.enumValues) h
      entities := congrArg (fun r => r.entities) h
      scopeCount := by simpa [skeleton] using congrArg (fun r => r.scopes.size) h
      varCount := by simpa [skeleton] using congrArg (fun r => r.vars.size) h
      stateCount := by simpa [skeleton] using congrArg (fun r => r.states.size) h
      functionCount := by simpa [skeleton] using congrArg (fun r => r.functions.size) h
      parent := fun s => (congrArg Scope.parent (hscope s) :)
      bindings := fun s => (congrArg Scope.bindings (hscope s) :)
      identity := fun d => by rw [← declIdentity_skeleton, h, declIdentity_skeleton]
      span := fun d => by rw [← declSpan_skeleton, h, declSpan_skeleton]
      ownScope := fun d => by rw [← ownScope?_skeleton, h, ownScope?_skeleton]
      stateParameters := fun k => (congrArg StateProperty.parameters (hstate k) :)
      functionParameters := fun k => (congrArg FunctionProperty.parameters (hfunction k) :)
      initialValue := isSome_initialValue_of_skeleton_eq h
      body := body_of_skeleton_eq h }

end Program

/-- Whatever passes are run, if they all end, they leave the frame of the program in place. -/
theorem passes_keep_frame {passes : List Pass} {p : Program} {o : Outcome Unit}
    (h : Walk.forEach Pass.walk passes p = some o) : p.SameFrame o.program := by
  have hsteps := (Walk.stepwise_forEach Walk.stepwise_pass passes p o h).1
  exact Program.sameFrame_of_skeleton_eq hsteps.skeleton_eq

/-- The body of a function that is bound in the scope of that body: five passes lead through the
body with the function at hand, and its block is still there. -/
theorem passes_keep_frame_selfBound :
    ∃ o, Walk.forEach Pass.walk [.bodies, .full, .signatures, .bodies, .full] selfBound = some o ∧
      .function ⟨0⟩ ∈ selfBound.declared ⟨2⟩ ∧ selfBound.SameFrame o.program := by
  have hends : (Walk.forEach Pass.walk [.bodies, .full, .signatures, .bodies, .full]
      selfBound).isSome = true := by decide +kernel
  obtain ⟨o, ho⟩ := Option.isSome_iff_exists.mp hends
  exact ⟨o, ho, by decide +kernel, passes_keep_frame ho⟩

end EntityLang
