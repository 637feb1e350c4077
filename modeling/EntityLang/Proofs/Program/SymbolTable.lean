import EntityLang.Proofs.Program.ParserShape
import EntityLang.Proofs.Program.Recorded

/-!
# The symbol table

All that the symbol table of a program tells can be read off the ledger of the calls that built the
program: what each name stands for in each scope, what was rejected, and what a lookup finds. Every
declaration is either bound or rejected in the scope where it was made, and it is there only once.
-/

namespace EntityLang.Ledger

/-- The first hit of a search is found where the search succeeds first. -/
theorem findSome?_eq_bind_find? {α β : Type} {f : α → Option β} {test : α → Bool}
    (h : ∀ a, (f a).isSome = test a) (as : List α) : as.findSome? f = (as.find? test).bind f := by
  induction as with
  | nil => rfl
  | cons a rest ih =>
    rw [List.findSome?_cons, List.find?_cons, ← h a]
    cases hf : f a <;> simp [hf, ih]

/-- A name stands for a property exactly when its first declaration is a property. -/
theorem isSome_filter_standsFor (identity : String) (ds : List Decl) :
    ((standsFor identity ds).filter Binding.isProperty).isSome =
      ds.head?.any fun d => (Binding.decl d).isProperty := by
  cases ds with
  | nil => rfl
  | cons first rest =>
    obtain ⟨hb, -⟩ | ⟨hfirst, -, hb⟩ := standsFor_cons identity first rest
    · rw [hb]
      cases hproperty : (Binding.decl first).isProperty <;> simp [hproperty]
    · obtain ⟨h, rfl⟩ := Decl.eq_function_of_isOverloadable
        ((Decl.isOverloadable_decl first).trans hfirst)
      rw [hb]
      rfl

section Reading

variable {l : Ledger} {p : Program} (h : l.Matches p)
include h

/-- What a scope binds is what the names of the scope keep. -/
theorem Matches.mem_declared {s : ScopeId} {d : Decl} :
    d ∈ p.declared s ↔ ∃ identity, d ∈ accepted (l.under s identity) := by
  rw [Program.mem_declared_iff]
  constructor
  · rintro ⟨identity, b, hb, hd⟩
    rw [h.bound] at hb
    exact ⟨identity, overloads_standsFor hb ▸ hd⟩
  · rintro ⟨identity, hd⟩
    have hsome := isSome_standsFor identity (l.under s identity)
    cases hb : standsFor identity (l.under s identity) with
    | none =>
      have hnil : l.under s identity = [] := by simpa [hb] using hsome
      simp [hnil, accepted] at hd
    | some b =>
      rw [← overloads_standsFor hb] at hd
      exact ⟨identity, b, (h.bound s identity).trans hb, hd⟩

/-- What a scope of the program has rejected is what the ledger says. -/
theorem Matches.rejectedIn_eq (s : ScopeId) : p.rejectedIn s = l.rejectedIn s := by
  rw [Program.rejectedIn, h.rejected, List.flatMap_map]
  simp [Binding.overloads]

omit h in
/-- The ledger rejects in a scope what is refused under some name. -/
theorem mem_rejectedIn {s : ScopeId} {d : Decl} :
    d ∈ l.rejectedIn s ↔ ∃ identity, d ∈ refused (l.under s identity) := by
  simp only [rejectedIn, List.mem_map, List.mem_filter, decide_eq_true_eq]
  constructor
  · rintro ⟨e, ⟨-, rfl, hd⟩, rfl⟩
    exact ⟨e.identity, hd⟩
  · rintro ⟨identity, hd⟩
    exact ⟨_, ⟨mem_under.mp (refused_subset _ hd), rfl, hd⟩, rfl⟩

/-- A declaration is made in one scope and under one name. -/
theorem Matches.eq_of_mem_under {s t : ScopeId} {identity name : String} {d : Decl}
    (hs : d ∈ l.under s identity) (ht : d ∈ l.under t name) : identity = name := by
  have heq := List.inj_on_of_nodup_map h.distinct (mem_under.mp hs) (mem_under.mp ht) rfl
  exact congrArg Entry.identity heq

/-- What a name keeps and what it does not keep are all different. -/
theorem Matches.nodup_under (s : ScopeId) (identity : String) :
    (accepted (l.under s identity) ++ refused (l.under s identity)).Nodup :=
  (accepted_append_refused_perm _).nodup_iff.mpr (h.distinct.sublist (under_sublist s identity))

/-- No declaration is bound twice in a scope. -/
theorem Matches.nodup_declared (s : ScopeId) : (p.declared s).Nodup := by
  have hread {x : String × Binding} (hx : x ∈ (p.scope s).bindings.toList) :
      x.2.overloads = accepted (l.under s x.1) :=
    overloads_standsFor ((h.bound s x.1).symm.trans
      (Std.TreeMap.mem_toList_iff_getElem?_eq_some.mp hx))
  rw [Program.declared, Scope.bindings_values_eq, List.flatMap_map, List.nodup_flatMap]
  constructor
  · intro x hx
    rw [hread hx]
    exact (h.nodup_under s x.1).of_append_left
  · refine List.Pairwise.imp_of_mem ?_ Std.TreeMap.distinct_keys_toList
    intro x y hx hy hne d hdx hdy
    replace hdx : d ∈ accepted (l.under s x.1) := hread hx ▸ hdx
    replace hdy : d ∈ accepted (l.under s y.1) := hread hy ▸ hdy
    apply hne
    rw [h.eq_of_mem_under (accepted_subset _ hdx) (accepted_subset _ hdy)]
    exact Std.ReflCmp.compare_self

/-- What is declared in a scope is bound or rejected there, and only once. -/
theorem Matches.count_eq_one {s : ScopeId} {identity : String} {d : Decl}
    (hd : d ∈ l.under s identity) : (p.declared s ++ p.rejectedIn s).count d = 1 := by
  apply List.count_eq_one_of_mem
  · rw [List.nodup_append', h.rejectedIn_eq]
    refine ⟨h.nodup_declared s, h.distinct.sublist (List.filter_sublist.map _), ?_⟩
    intro e hbound hrejected
    obtain ⟨name, hbound⟩ := h.mem_declared.mp hbound
    obtain ⟨name', hrejected⟩ := mem_rejectedIn.mp hrejected
    obtain rfl := h.eq_of_mem_under (accepted_subset _ hbound) (refused_subset _ hrejected)
    exact List.disjoint_of_nodup_append (h.nodup_under s name) hbound hrejected
  · rw [h.rejectedIn_eq, List.mem_append, h.mem_declared, mem_rejectedIn]
    have hd := (accepted_append_refused_perm _).symm.subset hd
    exact (List.mem_append.mp hd).imp (⟨identity, ·⟩) (⟨identity, ·⟩)

/-- A name stands for what it stands for in the nearest scope where it was declared. -/
theorem Matches.fetch_eq (s : ScopeId) (identity : String) :
    p.fetch s identity = ((p.chain s).find? fun t => !(l.under t identity).isEmpty).bind
      fun t => standsFor identity (l.under t identity) := by
  have hbound : p.boundIn identity = fun t => standsFor identity (l.under t identity) :=
    funext fun t => h.bound t identity
  rw [Program.fetch, hbound]
  exact findSome?_eq_bind_find? (fun t => isSome_standsFor identity _) _

/-- A name stands for what is accepted under it in the nearest scope that lists it. -/
theorem Matches.fetchOverloads_eq (s : ScopeId) (identity : String) :
    p.fetchOverloads s identity =
      match (p.chain s).find? fun t => !(l.under t identity).isEmpty with
      | none => []
      | some t => accepted (l.under t identity) := by
  rw [Program.fetchOverloads, h.fetch_eq]
  cases hfind : (p.chain s).find? fun t => !(l.under t identity).isEmpty with
  | none => rfl
  | some t =>
    have hsome := List.find?_some hfind
    rw [← isSome_standsFor identity] at hsome
    obtain ⟨b, hb⟩ := Option.isSome_iff_exists.mp hsome
    simp only [Option.bind_some, hb]
    exact overloads_standsFor hb

/-- A property's name stands for what is accepted in the nearest scope where a property comes first.
-/
theorem Matches.fetchProperty_eq (s : ScopeId) (identity : String) :
    p.fetchProperty s identity = match (p.chain s).find? fun t =>
        (l.under t identity).head?.any fun d => (Binding.decl d).isProperty with
      | none => []
      | some t => accepted (l.under t identity) := by
  have hbound : (fun t => (p.boundIn identity t).filter Binding.isProperty) =
      fun t => (standsFor identity (l.under t identity)).filter Binding.isProperty :=
    funext fun t => by rw [h.bound]
  rw [Program.fetchProperty, hbound,
    findSome?_eq_bind_find? (fun t => isSome_filter_standsFor identity (l.under t identity))]
  cases hfind : (p.chain s).find? fun t =>
      (l.under t identity).head?.any fun d => (Binding.decl d).isProperty with
  | none => rfl
  | some t =>
    have hsome := List.find?_some hfind
    rw [← isSome_filter_standsFor identity] at hsome
    obtain ⟨b, hb⟩ := Option.isSome_iff_exists.mp hsome
    simp only [Option.bind_some, hb]
    exact overloads_standsFor (Option.filter_eq_some_iff.mp hb).1

/-- The chain of a scope is the scope, followed by the chain of its parent. -/
theorem Matches.chain_eq (hp : p.Sound) (hscopes : 0 < p.scopes.size) (s : ScopeId) :
    p.chain s = s :: match l.parent s with
      | none => []
      | some t => p.chain t := by
  cases hparent : l.parent s with
  | none =>
    obtain ⟨n, hn⟩ : ∃ n, p.scopes.size = n + 1 := ⟨p.scopes.size - 1, by omega⟩
    rw [Program.chain, hn, Program.chainUpTo, h.parent, hparent]
  | some t => exact hp.chain_of_parent ((h.parent s).trans hparent)

end Reading

/-- The symbol table of a program as the ledger tells it. -/
structure Describes (l : Ledger) (p : Program) : Prop where
  /-- A name stands in a scope for what it keeps of the declarations made there under it. -/
  bound : ∀ s identity, p.boundIn identity s = standsFor identity (l.under s identity)
  /-- A scope rejects what its names do not keep, in the order of the calls. -/
  rejected : ∀ s, (p.scope s).rejected = (l.rejectedIn s).map .decl
  /-- Everything that has a node was declared in some scope, under its own name. -/
  declared : ∀ d, p.HasNode d ↔ ∃ s, d ∈ l.under s (p.declIdentity d)
  /-- A declaration is bound or rejected in its scope, exactly once. -/
  once : ∀ s identity, ∀ d ∈ l.under s identity, (p.declared s ++ p.rejectedIn s).count d = 1
  /-- Names are looked up in the scope, in its parent, and so on. -/
  chain : ∀ s, p.chain s = s :: match l.parent s with
    | none => []
    | some t => p.chain t
  /-- The nearest scope counts where the name was declared. -/
  fetch : ∀ s identity, p.fetch s identity =
    ((p.chain s).find? fun t => !(l.under t identity).isEmpty).bind
      fun t => standsFor identity (l.under t identity)
  fetchOverloads : ∀ s identity, p.fetchOverloads s identity =
    match (p.chain s).find? fun t => !(l.under t identity).isEmpty with
    | none => []
    | some t => accepted (l.under t identity)
  /-- For a property, the nearest scope counts where the name was declared for a property first. -/
  fetchProperty : ∀ s identity, p.fetchProperty s identity =
    match (p.chain s).find? fun t =>
      (l.under t identity).head?.any fun d => (Binding.decl d).isProperty with
    | none => []
    | some t => accepted (l.under t identity)

/-- The ledger of calls describes the program that the calls build. -/
theorem describes_build (calls : List Call) (hcalls : Call.AllInRange Program.fresh calls) :
    (ofCalls calls).Describes (Program.build calls) := by
  have h : (ofCalls calls).Matches (Program.build calls) :=
    matches_start.foldl Program.sound_fresh hcalls
  have hsound : (Program.build calls).Sound := Program.Built.sound ⟨calls, hcalls, rfl⟩
  have hscopes : 0 < (Program.build calls).scopes.size := by
    rw [h.scopes]
    exact Nat.lt_of_lt_of_le Nat.one_pos (length_parents_le_foldl start calls)
  refine ⟨h.bound, h.rejected, fun d => ?_, fun s identity d hd => h.count_eq_one hd,
    h.chain_eq hsound hscopes, h.fetch_eq, h.fetchOverloads_eq, h.fetchProperty_eq⟩
  rw [h.hasNode, List.mem_map]
  constructor
  · rintro ⟨e, he, rfl⟩
    rw [h.identity e he]
    exact ⟨e.scope, mem_under.mpr he⟩
  · rintro ⟨s, hd⟩
    exact ⟨_, mem_under.mp hd, rfl⟩

/-- Two functions, a variable and a third function in one scope, all called `f`; a state called `f`
in a scope inside, whose parameter is called `f` as well. -/
def crowded : List Call :=
  [.declareFunction ⟨0⟩ "f" (.native ⟨1⟩) [("x", .native ⟨2⟩), ("x", .native ⟨3⟩)],
    .declareFunction ⟨0⟩ "f" (.native ⟨2⟩) [],
    .var ⟨0⟩ ⟨"f", .native ⟨1⟩, .dummy⟩,
    .function ⟨0⟩ ⟨"f", .native ⟨1⟩, ⟨0⟩, [], none, .dummy⟩,
    .scope (some ⟨0⟩),
    .declareState ⟨3⟩ "f" (.native ⟨1⟩) [("f", .native ⟨2⟩)] none]

/-- Among functions of one name the variable is rejected; the parameter inside is in its own scope.
-/
theorem describes_build_crowded :
    Call.AllInRange Program.fresh crowded ∧
      (ofCalls crowded).Describes (Program.build crowded) ∧
      (ofCalls crowded).under ⟨0⟩ "f" =
        [.function ⟨0⟩, .function ⟨1⟩, .var ⟨2⟩, .function ⟨2⟩] ∧
      (ofCalls crowded).rejectedIn ⟨0⟩ = [.var ⟨2⟩] ∧
      (ofCalls crowded).under ⟨4⟩ "f" = [.var ⟨3⟩] :=
  ⟨by decide +kernel, describes_build crowded (by decide +kernel), by decide +kernel,
    by decide +kernel, by decide +kernel⟩

end EntityLang.Ledger
