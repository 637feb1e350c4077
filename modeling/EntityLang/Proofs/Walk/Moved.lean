import EntityLang.Proofs.Expr.View
import EntityLang.Proofs.Pattern.Resolved
import EntityLang.Proofs.Program.Cells
import EntityLang.Resolution.Body

/-!
# Bodies that are moved out while they are walked

To change an initial value or a body, a walk can move it out of the program, resolve it, and put it
back. A function that is met again inside its own body has no body at that moment, and so is passed
by. `bodiesUpTo` leaves everything where it is and keeps a list of the functions whose bodies are
being walked instead. The walk that moves bodies has the same outcome on every program and to every
depth.

The reason is that nothing else looks at bodies: whatever a walk reads and writes besides is the same
with some bodies out of the program. So the two walks stay alike, and the programs that they are at
differ in exactly those bodies that are being walked.
-/

namespace EntityLang

namespace Table

variable {kind : NodeKind} {α : Type}

/-- Two changes to one node are one change. -/
theorem modify_modify (f g : α → α) (t : Table kind α) (h : Handle kind) :
    (t.modify h f).modify h g = t.modify h (g ∘ f) := by
  refine ext_get? fun k => ?_
  rw [get?_modify, get?_modify, get?_modify]
  split
  · rw [Option.map_map]
  · rfl

/-- Two changes can be made in either order if they are made to different nodes, or if the order
does not matter to the node. -/
theorem modify_comm (f g : α → α) (t : Table kind α) {h k : Handle kind}
    (hfg : h = k → f ∘ g = g ∘ f) : (t.modify h f).modify k g = (t.modify k g).modify h f := by
  by_cases hk : h = k
  · subst hk
    rw [modify_modify, modify_modify, hfg rfl]
  · refine ext_get? fun j => ?_
    simp only [get?_modify]
    split <;> split <;> simp_all

end Table

/-! ### Programs without some bodies -/

namespace Program

/-- Move the body of a function out of the program. -/
def withoutBody (p : Program) (h : FunctionId) : Program :=
  { p with functions := p.functions.modify h fun f => { f with body := none } }

/-- Move the bodies of some functions out of the program. -/
def withoutBodies (p : Program) : List FunctionId → Program
  | [] => p
  | h :: rest => (p.withoutBodies rest).withoutBody h

section Single

variable (p : Program) (h : FunctionId)

/-- What a function has besides a body stays. -/
theorem view_withoutBody {β : Type} (view : FunctionProperty → β)
    (hview : ∀ f, view { f with body := none } = view f) (k : FunctionId) :
    view ((p.withoutBody h).function k) = view (p.function k) :=
  Table.view_modify view (fun f => { f with body := none }) hview p.functions h k

/-- Declared patterns stay. -/
theorem declPattern_withoutBody (d : Decl) :
    (p.withoutBody h).declPattern d = p.declPattern d := by
  cases d with
  | function k => exact p.view_withoutBody h FunctionProperty.pattern (fun _ => rfl) k
  | _ => rfl

/-- Names of declarations stay. -/
theorem declIdentity_withoutBody (d : Decl) :
    (p.withoutBody h).declIdentity d = p.declIdentity d := by
  cases d with
  | function k => exact p.view_withoutBody h FunctionProperty.identity (fun _ => rfl) k
  | _ => rfl

/-- Places of declarations stay. -/
theorem declSpan_withoutBody (d : Decl) : (p.withoutBody h).declSpan d = p.declSpan d := by
  cases d with
  | function k => exact p.view_withoutBody h FunctionProperty.span (fun _ => rfl) k
  | _ => rfl

/-- What a scope had to reject is reported alike. -/
theorem rejectedReports_withoutBody (s : ScopeId) :
    (p.withoutBody h).rejectedReports s = p.rejectedReports s := by
  have hidentity (b : Binding) : (p.withoutBody h).identity b = p.identity b := by
    cases b with
    | decl d => exact p.declIdentity_withoutBody h d
    | overloaded own members => rfl
  have hspan (b : Binding) : (p.withoutBody h).bindingSpan b = p.bindingSpan b := by
    cases b with
    | decl d => exact p.declSpan_withoutBody h d
    | overloaded own members => rfl
  unfold rejectedReports
  simp only [hidentity, hspan]
  rfl

/-- The number of properties stays. -/
theorem propertyCount_withoutBody : (p.withoutBody h).propertyCount = p.propertyCount := by
  simp [propertyCount, withoutBody]

/-- Bodies are not read. -/
theorem resolvesAlike_withoutBody : (p.withoutBody h).ResolvesAlike p :=
  ⟨rfl, rfl, rfl, p.view_withoutBody h FunctionProperty.parameters fun _ => rfl,
    p.declPattern_withoutBody h⟩

/-- Expressions that may be absent are resolved alike. -/
theorem resolveOption_withoutBody (s : ScopeId) (hint : Option Pattern) (value : Option Expr) :
    Expr.resolveOption (p.withoutBody h) s hint value = Expr.resolveOption p s hint value := by
  cases value with
  | none => rfl
  | some e => rw [Expr.resolveOption, Expr.resolveOption, (p.resolvesAlike_withoutBody h).resolve_eq]

/-- A declared pattern can be written before or after a body is moved out. -/
theorem setDeclPattern_withoutBody (d : Decl) (x : Pattern) :
    (p.withoutBody h).setDeclPattern d x = (p.setDeclPattern d x).withoutBody h := by
  cases d with
  | function k =>
    have hfunctions := Table.modify_comm (fun f => { f with body := none })
      (fun f => { f with pattern := x }) p.functions (h := h) (k := k) fun _ => rfl
    exact congrArg (fun functions => { p with functions }) hfunctions
  | _ => rfl

/-- The body of one function can be written before or after that of another one is moved out. -/
theorem setBody_withoutBody {k : FunctionId} (hk : h ≠ k) (b : Block) :
    (p.withoutBody h).setBody k b = (p.setBody k b).withoutBody h :=
  congrArg (fun functions => { p with functions })
    (Table.modify_comm _ _ p.functions fun heq => absurd heq hk)

/-- A body that is put back is written over the one that was there. -/
theorem setBody_withoutBody_self (b : Block) : (p.withoutBody h).setBody h b = p.setBody h b :=
  congrArg (fun functions => { p with functions }) (Table.modify_modify _ _ p.functions h)

/-- There is nothing to move where there is no body. -/
theorem withoutBody_eq_self (hbody : (p.function h).body = none) : p.withoutBody h = p := by
  have hfunctions := p.functions.modify_eq_self (fun f => { f with body := none }) h (by
    change { p.function h with body := none } = p.function h
    rw [← hbody])
  exact congrArg (fun functions => { p with functions }) hfunctions

/-- A body that is moved out is not there any more. -/
theorem body_withoutBody_self : ((p.withoutBody h).function h).body = none := by
  obtain hg | ⟨-, hg⟩ := Table.get_modify_self (fun f => { f with body := none }) p.functions h
  · exact congrArg FunctionProperty.body hg
  · exact congrArg FunctionProperty.body hg

end Single

section Several

variable (p : Program)

/-- What does not depend on single bodies does not depend on several ones. -/
theorem eq_withoutBodies {β : Type} {f : Program → β}
    (hf : ∀ p h, f (withoutBody p h) = f p) (hs : List FunctionId) :
    f (p.withoutBodies hs) = f p := by
  induction hs with
  | nil => rfl
  | cons h rest ih => rw [withoutBodies, hf, ih]

/-- A change that can be made before or after moving single bodies can be made before or after moving
several ones. -/
theorem withoutBodies_comm {f : Program → Program} {hs : List FunctionId}
    (hf : ∀ p, ∀ h ∈ hs, f (withoutBody p h) = (f p).withoutBody h) :
    f (p.withoutBodies hs) = (f p).withoutBodies hs := by
  induction hs with
  | nil => rfl
  | cons h rest ih =>
    rw [withoutBodies, withoutBodies, hf _ h List.mem_cons_self,
      ih fun p k hk => hf p k (List.mem_cons_of_mem h hk)]

/-- Bodies of other functions stay. -/
theorem function_withoutBodies {hs : List FunctionId} {k : FunctionId} (hk : k ∉ hs) :
    (p.withoutBodies hs).function k = p.function k := by
  induction hs with
  | nil => rfl
  | cons h rest ih =>
    rw [List.mem_cons, not_or] at hk
    exact (Table.get_modify_of_ne hk.1).trans (ih hk.2)

/-- Bodies that are moved out are not there any more. -/
theorem body_withoutBodies {hs : List FunctionId} {k : FunctionId} (hk : k ∈ hs) :
    ((p.withoutBodies hs).function k).body = none := by
  induction hs with
  | nil => simp at hk
  | cons h rest ih =>
    by_cases hkh : k = h
    · subst hkh
      exact body_withoutBody_self _ k
    · obtain hk := (List.mem_cons.mp hk).resolve_left hkh
      exact (congrArg FunctionProperty.body (Table.get_modify_of_ne hkh)).trans (ih hk)

/-- The body that was moved out last can be put back while the others are out. -/
theorem setBody_withoutBodies_cons {hs : List FunctionId} {k : FunctionId} (hk : k ∉ hs)
    (b : Block) : (p.withoutBodies (k :: hs)).setBody k b = (p.setBody k b).withoutBodies hs := by
  rw [withoutBodies, setBody_withoutBody_self]
  refine p.withoutBodies_comm (f := fun q => q.setBody k b) fun q h hh => ?_
  exact q.setBody_withoutBody h (ne_of_mem_of_not_mem hh hk) b

end Several

end Program

/-! ### The walk that moves bodies -/

namespace Walk

/-- Move the initial value of a state out of the program, resolve it and put it back. -/
def movedValue (h : StateId) : Walk Unit := do
  let value ← read fun p => (p.state h).initialValue
  update fun p => p.setInitialValue h none
  match value with
  | none => pure ()
  | some value => do
    let value ← reporting fun p => value.resolve p (p.state h).scope (some (p.state h).pattern)
    update fun p => p.setInitialValue h (some value)

/-- Move the body of a function out of the program, resolve it and put it back. -/
def movedBody (enter : ScopeId → Walk Unit) (h : FunctionId) : Walk Unit := do
  let body ← read fun p => (p.function h).body
  update fun p => p.withoutBody h
  match body with
  | none => pure ()
  | some body => do
    let pattern ← read fun p => (p.function h).pattern
    let body ← body.resolve enter (some pattern)
    update fun p => p.setBody h body

/-- Resolve the bodies in the scope of a property, and then its own, which is moved out
meanwhile. -/
def movedDecl (visit : ScopeId → Walk Unit) : Decl → Walk Unit
  | .state h => do
    let own ← read fun p => (p.state h).scope
    visit own
    movedValue h
  | .function h => do
    let own ← read fun p => (p.function h).scope
    visit own
    movedBody (fun inner => do signatures inner; visit inner) h
  | .var _ | .native _ | .enum _ | .entity _ => pure ()

/-- Resolve the bodies of a scope and of at most `depth` scopes entered inside each other, moving out
what is being walked. -/
def movedUpTo : (depth : Nat) → ScopeId → Walk Unit
  | 0, _ => endless
  | depth + 1, s => do
    let decls ← read fun p => p.declared s
    forEach (movedDecl (movedUpTo depth)) decls

/-! ### Walks while bodies are out -/

variable {α β : Type} {hs : List FunctionId}

/-- While the bodies of `hs` are out of the program, the second walk does what the first one does
with all bodies in place. -/
def Hides (hs : List FunctionId) (x y : Walk α) : Prop :=
  ∀ p, y (p.withoutBodies hs) =
    (x p).map fun o => { o with program := o.program.withoutBodies hs }

/-- Nothing happens in both. -/
theorem hides_pure (a : α) : Hides hs (pure a : Walk α) (pure a) := fun _ => rfl

/-- Neither walk ends. -/
theorem hides_endless : Hides hs (endless : Walk α) endless := fun _ => rfl

/-- Walks in turn do the same if they do one by one. -/
theorem Hides.bind {x y : Walk α} (h : Hides hs x y) {f g : α → Walk β}
    (hfg : ∀ a, Hides hs (f a) (g a)) : Hides hs (x >>= f) (y >>= g) := by
  intro p
  change Walk.bind y g _ = (Walk.bind x f p).map _
  unfold Walk.bind
  rw [h p]
  cases x p with
  | none => rfl
  | some first =>
    simp only [Option.map_some, hfg first.value first.program]
    cases f first.value first.program <;> rfl

/-- What does not depend on bodies is read alike. -/
theorem hides_read {f : Program → α} (hf : ∀ p h, f (Program.withoutBody p h) = f p) :
    Hides hs (read f) (read f) := by
  intro p
  simp only [read, p.eq_withoutBodies hf hs, Option.map_some]

/-- What does not depend on bodies is computed and reported alike. -/
theorem hides_reporting {f : Program → Reported α}
    (hf : ∀ p h, f (Program.withoutBody p h) = f p) : Hides hs (reporting f) (reporting f) := by
  intro p
  simp only [reporting, p.eq_withoutBodies hf hs, Option.map_some]

/-- A change to something else is made alike. -/
theorem hides_update {f : Program → Program}
    (hf : ∀ p, ∀ h ∈ hs, f (Program.withoutBody p h) = (f p).withoutBody h) :
    Hides hs (update f) (update f) := by
  intro p
  simp only [update, p.withoutBodies_comm hf, Option.map_some]

/-- The members of a list are visited alike. -/
theorem hides_forEach {visit visit' : α → Walk Unit} (h : ∀ a, Hides hs (visit a) (visit' a))
    (as : List α) : Hides hs (forEach visit as) (forEach visit' as) := by
  induction as with
  | nil => exact hides_pure ()
  | cons a rest ih => exact (h a).bind fun _ => ih

/-! ### Signatures -/

/-- The declared pattern of something is resolved and written alike. -/
theorem hides_pattern_bind (s : ScopeId) (d : Decl) {next : Walk Unit}
    (hnext : Hides hs next next) :
    Hides hs
      (reporting (fun p => (p.declPattern d).resolve p s) >>= fun x =>
        update (fun p => p.setDeclPattern d x) >>= fun _ => next)
      (reporting (fun p => (p.declPattern d).resolve p s) >>= fun x =>
        update (fun p => p.setDeclPattern d x) >>= fun _ => next) := by
  have hpattern (p : Program) (h : FunctionId) : ((p.withoutBody h).declPattern d).resolve
      (p.withoutBody h) s = (p.declPattern d).resolve p s := by
    rw [p.declPattern_withoutBody]
    exact Pattern.resolve_congr ((p.resolvesAlike_withoutBody h).fetch_eq s) _
  refine (hides_reporting hpattern).bind fun x => ?_
  exact (hides_update fun p h _ => p.setDeclPattern_withoutBody h d x).bind fun _ => hnext

/-- The scope of a function is read alike. -/
theorem hides_functionScope (k : FunctionId) :
    Hides hs (read fun p => (p.function k).scope) (read fun p => (p.function k).scope) :=
  hides_read fun p h => p.view_withoutBody h FunctionProperty.scope (fun _ => rfl) k

/-- Signatures are resolved alike. -/
theorem hides_signaturesUpTo (depth : Nat) (s : ScopeId) :
    Hides hs (signaturesUpTo depth s) (signaturesUpTo depth s) := by
  induction depth generalizing s with
  | zero => exact hides_endless
  | succ depth ih =>
    have hreport : Hides hs (reportRejected s) (reportRejected s) := by
      refine (hides_reporting fun p h => ?_).bind fun _ => hides_update fun _ _ _ => rfl
      rw [p.rejectedReports_withoutBody]
    have hdecl (d : Decl) : Hides hs (declSignature (signaturesUpTo depth) s d)
        (declSignature (signaturesUpTo depth) s d) := by
      cases d with
      | var k => exact hides_pattern_bind s (.var k) (hides_pure ())
      | state k =>
        exact hides_pattern_bind s (.state k) ((hides_read fun _ _ => rfl).bind ih)
      | function k => exact hides_pattern_bind s (.function k) ((hides_functionScope k).bind ih)
      | _ => exact hides_pure ()
    exact hreport.bind fun _ => (hides_read fun _ _ => rfl).bind (hides_forEach hdecl)

/-- All signatures of a scope are resolved alike, since the depth is the same. -/
theorem hides_signatures (s : ScopeId) : Hides hs (signatures s) (signatures s) := by
  intro p
  have hdepth : (p.withoutBodies hs).signatureDepth = p.signatureDepth :=
    p.eq_withoutBodies (fun p h => congrArg (· + 1) (p.propertyCount_withoutBody h)) hs
  rw [signatures, hdepth]
  exact hides_signaturesUpTo _ s p

/-- Expressions are resolved alike, also if what is read of the program decides on the hint. -/
theorem hides_resolve (e : Expr) (s : ScopeId) {hint : Program → Option Pattern}
    (hhint : ∀ p h, hint (Program.withoutBody p h) = hint p) :
    Hides hs (reporting fun p => e.resolve p s (hint p))
      (reporting fun p => e.resolve p s (hint p)) :=
  hides_reporting fun p h => by rw [hhint, (p.resolvesAlike_withoutBody h).resolve_eq]

end Walk

/-! ### Blocks -/

section Blocks

variable {hs : List FunctionId} {enter enter' : ScopeId → Walk Unit}

mutual

/-- A block is resolved alike, if entering a scope is. -/
theorem Block.hides_resolve (henter : ∀ c, Walk.Hides hs (enter c) (enter' c))
    (hint : Option Pattern) :
    (b : Block) → Walk.Hides hs (b.resolve enter hint) (b.resolve enter' hint)
  | ⟨singleton, scope, statements, span⟩ => by
    rw [Block.resolve, Block.resolve]
    refine (henter scope).bind fun _ => ?_
    exact (Statement.hides_resolveAll henter scope _ statements).bind fun _ => Walk.hides_pure _

/-- A statement is resolved alike, if entering a scope is. -/
theorem Statement.hides_resolve (henter : ∀ c, Walk.Hides hs (enter c) (enter' c)) (s : ScopeId)
    (hint : Option Pattern) : (statement : Statement) →
    Walk.Hides hs (statement.resolve enter s hint) (statement.resolve enter' s hint)
  | .expr value => by
    rw [Statement.resolve, Statement.resolve]
    exact (Walk.hides_resolve value s fun _ _ => rfl).bind fun _ => Walk.hides_pure _
  | .block body => by
    rw [Statement.resolve, Statement.resolve]
    exact (Block.hides_resolve henter none body).bind fun _ => Walk.hides_pure _
  | .cond branches otherwise span => by
    rw [Statement.resolve, Statement.resolve]
    refine (Statement.hides_resolveBranches henter s branches).bind fun _ => ?_
    exact (Statement.hides_resolveOtherwise henter otherwise).bind fun _ => Walk.hides_pure _
  | .forEach item range body span => by
    rw [Statement.resolve, Statement.resolve]
    refine (Walk.hides_resolve range s fun _ _ => rfl).bind fun _ => ?_
    exact (Block.hides_resolve henter none body).bind fun _ => Walk.hides_pure _
  | .assign subject value span => by
    rw [Statement.resolve, Statement.resolve]
    refine (Walk.hides_resolve subject s fun _ _ => rfl).bind fun e => ?_
    have hhint (p : Program) (h : FunctionId) :
        some (e.pattern (p.withoutBody h)) = some (e.pattern p) :=
      congrArg some ((p.resolvesAlike_withoutBody h).pattern_eq e)
    exact (Walk.hides_resolve value s hhint).bind fun _ => Walk.hides_pure _
  | .declare target value span => by
    rw [Statement.resolve, Statement.resolve]
    refine (Walk.hides_reporting fun p h => ?_).bind fun _ => Walk.hides_pure _
    exact p.resolveOption_withoutBody h s _ value

/-- Statements are resolved alike, if entering a scope is. -/
theorem Statement.hides_resolveAll (henter : ∀ c, Walk.Hides hs (enter c) (enter' c))
    (s : ScopeId) (hint : Option Pattern) : (statements : List Statement) →
    Walk.Hides hs (Statement.resolveAll enter s hint statements)
      (Statement.resolveAll enter' s hint statements)
  | [] => Walk.hides_pure _
  | statement :: rest => by
    rw [Statement.resolveAll, Statement.resolveAll]
    refine (Statement.hides_resolve henter s _ statement).bind fun _ => ?_
    exact (Statement.hides_resolveAll henter s hint rest).bind fun _ => Walk.hides_pure _

/-- Branches are resolved alike, if entering a scope is. -/
theorem Statement.hides_resolveBranches (henter : ∀ c, Walk.Hides hs (enter c) (enter' c))
    (s : ScopeId) : (branches : List (Branch Block)) →
    Walk.Hides hs (Statement.resolveBranches enter s branches)
      (Statement.resolveBranches enter' s branches)
  | [] => Walk.hides_pure _
  | ⟨condition, body, span⟩ :: rest => by
    rw [Statement.resolveBranches, Statement.resolveBranches]
    refine (Walk.hides_resolve condition s fun _ _ => rfl).bind fun _ => ?_
    refine (Block.hides_resolve henter none body).bind fun _ => ?_
    exact (Statement.hides_resolveBranches henter s rest).bind fun _ => Walk.hides_pure _

/-- The last block of a conditional is resolved alike, if entering a scope is. -/
theorem Statement.hides_resolveOtherwise (henter : ∀ c, Walk.Hides hs (enter c) (enter' c)) :
    (otherwise : Option Block) →
    Walk.Hides hs (Statement.resolveOtherwise enter otherwise)
      (Statement.resolveOtherwise enter' otherwise)
  | none => Walk.hides_pure _
  | some body => by
    rw [Statement.resolveOtherwise, Statement.resolveOtherwise]
    exact (Block.hides_resolve henter none body).bind fun _ => Walk.hides_pure _

end

end Blocks

/-! ### Values and bodies -/

/-- An initial value that is put back is written over the one that was there. -/
theorem Program.setInitialValue_setInitialValue (p : Program) (k : StateId) (v w : Option Expr) :
    (p.setInitialValue k v).setInitialValue k w = p.setInitialValue k w :=
  congrArg (fun states => { p with states }) (Table.modify_modify _ _ p.states k)

namespace Walk

variable {hs : List FunctionId}

/-- What is read first is passed on. -/
theorem read_bind {α β : Type} (f : Program → α) (g : α → Walk β) (p : Program) :
    (read f >>= g) p = g (f p) p := by
  change Walk.bind (read f) g p = _
  simp only [Walk.bind, read]
  cases g (f p) p <;> rfl

/-- A change is made before the rest of a walk. -/
theorem update_bind {β : Type} (f : Program → Program) (g : Unit → Walk β) (p : Program) :
    (update f >>= g) p = g () (f p) := by
  change Walk.bind (update f) g p = _
  simp only [Walk.bind, update]
  cases g () (f p) <;> rfl

/-- An initial value may be moved out while it is resolved. -/
theorem movedValue_eq_initialValue (k : StateId) : movedValue k = initialValue k := by
  funext p
  have hstate {β : Type} (view : StateProperty → β)
      (hview : ∀ x, view { x with initialValue := none } = view x) :
      view ((p.setInitialValue k none).state k) = view (p.state k) :=
    Table.view_modify view (fun x => { x with initialValue := none }) hview p.states k k
  rw [movedValue, read_bind, update_bind]
  cases hvalue : (p.state k).initialValue with
  | none =>
    change _ = some _
    simp only [hvalue]
    rfl
  | some value =>
    change some _ = some _
    simp only [hvalue, hstate StateProperty.scope fun _ => rfl,
      hstate StateProperty.pattern fun _ => rfl, (p.resolvesAlike_setInitialValue k none).resolve_eq,
      p.setInitialValue_setInitialValue, Expr.resolveOption_value, Expr.resolveOption_reports,
      Option.map_some, Option.toList_some, List.flatMap_singleton]

/-- Initial values are resolved alike. -/
theorem hides_initialValue (k : StateId) : Hides hs (initialValue k) (initialValue k) := by
  refine (hides_reporting fun p h => ?_).bind fun v => hides_update fun _ _ _ => rfl
  exact p.resolveOption_withoutBody h _ _ _

/-- The body of a function that is not being walked is resolved alike, if the scopes in it are
entered alike while the body is out. -/
theorem hides_movedBody {enter enter' : ScopeId → Walk Unit} {k : FunctionId} (hk : k ∉ hs)
    (henter : ∀ c, Hides (k :: hs) (enter c) (enter' c)) :
    Hides hs (functionBody enter k) (movedBody enter' k) := by
  intro p
  have hnode : (p.withoutBodies hs).function k = p.function k := p.function_withoutBodies hk
  rw [functionBody, movedBody, read_bind, read_bind, update_bind, hnode]
  cases hbody : (p.function k).body with
  | none =>
    rw [Program.withoutBody_eq_self _ k (by rw [hnode, hbody])]
    rfl
  | some b =>
    have hpattern : (((p.withoutBodies hs).withoutBody k).function k).pattern =
        (p.function k).pattern := by
      rw [Program.view_withoutBody _ k FunctionProperty.pattern (fun _ => rfl), hnode]
    have hblock := Block.hides_resolve henter (some (p.function k).pattern) b p
    simp only [read_bind, hpattern]
    change Walk.bind _ _ (p.withoutBodies (k :: hs)) = (Walk.bind _ _ p).map _
    unfold Walk.bind
    rw [hblock]
    cases b.resolve enter (some (p.function k).pattern) p with
    | none => rfl
    | some first =>
      simp only [Option.map_some, update, Program.setBody_withoutBodies_cons _ hk]

/-- A function whose body is being walked is passed by, since its body is out. -/
theorem hides_movedBody_of_mem {enter' : ScopeId → Walk Unit} {k : FunctionId} (hk : k ∈ hs) :
    Hides hs (pure ()) (movedBody enter' k) := by
  intro p
  have hbody := p.body_withoutBodies hk
  rw [movedBody, read_bind, update_bind, hbody, Program.withoutBody_eq_self _ k hbody]
  rfl

/-- Declarations are walked alike, if scopes are. -/
theorem hides_movedDecl {visit : List FunctionId → ScopeId → Walk Unit}
    {visit' : ScopeId → Walk Unit} (hvisit : ∀ hs c, Hides hs (visit hs c) (visit' c)) (d : Decl) :
    Hides hs (declBody visit hs d) (movedDecl visit' d) := by
  cases d with
  | state k =>
    rw [declBody, movedDecl, movedValue_eq_initialValue]
    refine (hides_read fun _ _ => rfl).bind fun own => ?_
    exact (hvisit hs own).bind fun _ => hides_initialValue k
  | function k =>
    refine (hides_functionScope k).bind fun own => (hvisit hs own).bind fun _ => ?_
    by_cases hk : k ∈ hs
    · rw [if_pos hk]
      exact hides_movedBody_of_mem hk
    · rw [if_neg hk]
      exact hides_movedBody hk fun c => (hides_signatures c).bind fun _ => hvisit (k :: hs) c
  | _ => exact hides_pure ()

/-- Moving bodies out while they are walked is the same as passing by the functions that are
listed. -/
theorem hides_movedUpTo (depth : Nat) (hs : List FunctionId) (s : ScopeId) :
    Hides hs (bodiesUpTo depth hs s) (movedUpTo depth s) := by
  -- The list grows on the way down, so the induction is for all lists at once.
  induction depth generalizing hs s with
  | zero => exact hides_endless
  | succ depth ih =>
    exact (hides_read fun _ _ => rfl).bind (hides_forEach fun d => hides_movedDecl ih d)

/-- The walk that moves bodies out while they are walked has the same outcome, on every program and
to every depth, as the walk that leaves them in place. -/
theorem movedUpTo_eq_bodiesUpTo (depth : Nat) (s : ScopeId) :
    movedUpTo depth s = bodiesUpTo depth [] s := by
  funext p
  have h := hides_movedUpTo depth [] s p
  simpa [Program.withoutBodies] using h

end Walk

end EntityLang
