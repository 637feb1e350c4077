import EntityLang.Proofs.Expr.Parts
import Mathlib.Data.List.Count

/-!
# Positions in an expression

Equal parts may stand at several places of an expression, so what happens to one part and not to
another is said of positions. A position is the way from the root to a part. Positions are listed
children first, which is the order in which resolving is done with the parts.
-/

namespace EntityLang.Expr

/-- The way to a part: which child to enter at each level. -/
abbrev Position := List Nat

/-- The part at a position, if the way leads to one. -/
def part? : Expr → Position → Option Expr
  | e, [] => some e
  | e, i :: π => e.children[i]?.bind fun x => x.part? π

/-- The empty position is that of the whole expression. -/
@[simp] theorem part?_nil (e : Expr) : e.part? [] = some e := rfl

/-- A longer position leads through a child. -/
@[simp] theorem part?_cons (e : Expr) (i : Nat) (π : Position) :
    e.part? (i :: π) = e.children[i]?.bind fun x => x.part? π := rfl

/-- The invalid expression is invalid. -/
@[simp] theorem isInvalid_invalid (span : Span) : (invalid span).isInvalid = true := rfl

/-- The part at a position is the invalid expression. -/
def invalidAt (e : Expr) (π : Position) : Bool := (e.part? π).any isInvalid

/-- At the empty position stands the whole expression. -/
@[simp] theorem invalidAt_nil (e : Expr) : e.invalidAt [] = e.isInvalid := rfl

/-- Below a child, the child decides. -/
theorem invalidAt_cons {e x : Expr} {i : Nat} (hx : e.children[i]? = some x) (π : Position) :
    e.invalidAt (i :: π) = x.invalidAt π := by
  simp [invalidAt, hx]

mutual

/-- All positions of an expression, those in the children before the root. -/
def positions : Expr → List Position
  | .list items _ => positionsAll 0 items ++ [[]]
  | .instances items _ => positionsAll 0 items ++ [[]]
  | .unary _ operand _ => operand.positions.map (0 :: ·) ++ [[]]
  | .binary _ lhs rhs _ => lhs.positions.map (0 :: ·) ++ (rhs.positions.map (1 :: ·) ++ [[]])
  | .property subject _ _ => subject.positions.map (0 :: ·) ++ [[]]
  | .select subject rules _ =>
    subject.positions.map (0 :: ·) ++ (positionsRules 1 rules ++ [[]])
  | .call _ args _ => positionsAll 0 args ++ [[]]
  | .cond rules otherwise _ =>
    positionsRules 0 rules ++ (positionsOption (2 * rules.length) otherwise ++ [[]])
  | .index subject position _ =>
    subject.positions.map (0 :: ·) ++ (position.positions.map (1 :: ·) ++ [[]])
  | _ => [[]]

/-- All positions in children that are numbered from `n` on. -/
def positionsAll (n : Nat) : List Expr → List Position
  | [] => []
  | e :: rest => e.positions.map (n :: ·) ++ positionsAll (n + 1) rest

/-- All positions in the heads and results of rules, which are numbered from `n` on. -/
def positionsRules (n : Nat) : List (Rule Expr) → List Position
  | [] => []
  | ⟨head, result, _⟩ :: rest =>
    head.positions.map (n :: ·) ++
      (result.positions.map ((n + 1) :: ·) ++ positionsRules (n + 2) rest)

/-- All positions in an expression that may be absent, as the child number `n`. -/
def positionsOption (n : Nat) : Option Expr → List Position
  | none => []
  | some e => e.positions.map (n :: ·)

end

/-- Further children are numbered on. -/
theorem positionsAll_append (n : Nat) (xs ys : List Expr) :
    positionsAll n (xs ++ ys) = positionsAll n xs ++ positionsAll (n + xs.length) ys := by
  induction xs generalizing n with
  | nil => rfl
  | cons x rest ih =>
    simp only [List.cons_append, positionsAll, ih, List.append_assoc, List.length_cons]
    rw [Nat.add_assoc, Nat.add_comm 1]

/-- Heads and results are numbered like other children. -/
theorem positionsRules_eq (n : Nat) (rules : List (Rule Expr)) :
    positionsRules n rules = positionsAll n (rules.flatMap fun r => [r.head, r.result]) := by
  induction rules generalizing n with
  | nil => rfl
  | cons r rest ih => simp [positionsRules, positionsAll, ih]

/-- The positions of an expression are those in its children and the root. -/
theorem positions_eq (e : Expr) : e.positions = positionsAll 0 e.children ++ [[]] := by
  cases e with
  | select subject rules span => simp [positions, children, positionsRules_eq, positionsAll]
  | cond rules otherwise span =>
    have hlength : (rules.flatMap fun r => [r.head, r.result]).length = 2 * rules.length := by
      induction rules with
      | nil => rfl
      | cons r rest ih =>
        rw [List.flatMap_cons, List.length_append, ih, List.length_cons, List.length_cons]
        simp
        omega
    cases otherwise <;>
      simp [positions, children, positionsRules_eq, positionsOption, positionsAll_append,
        positionsAll, hlength]
  | _ => simp [positions, children, positionsAll]

/-- What is listed for the positions in children is listed child by child. -/
theorem flatMap_positionsAll {α β : Type} (part : β → Expr) (vs : List β) (n : Nat)
    (F : Position → List α) (G : β → Position → List α)
    (h : ∀ i v, vs[i]? = some v → ∀ π, F ((n + i) :: π) = G v π) :
    (positionsAll n (vs.map part)).flatMap F =
      vs.flatMap fun v => (part v).positions.flatMap (G v) := by
  induction vs generalizing n with
  | nil => rfl
  | cons v rest ih =>
    have hhead : ∀ π, F (n :: π) = G v π := h 0 v rfl
    have hrest := ih (n + 1) fun i w hw π => by
      rw [Nat.add_assoc, Nat.add_comm 1]
      exact h (i + 1) w hw π
    simp only [List.map_cons, positionsAll, List.flatMap_append, List.flatMap_map, hhead, hrest,
      List.flatMap_cons]

/-- Positions that are entered through another child do not count. -/
theorem count_map_cons (n m : Nat) (ps : List Position) (π : Position) :
    (ps.map (m :: ·)).count (n :: π) = if n = m then ps.count π else 0 := by
  split
  · rename_i h
    have hinjective : Function.Injective (m :: · : Position → Position) :=
      fun _ _ heq => (List.cons.inj heq).2
    rw [h, List.count_map_of_injective ps _ hinjective]
  · rename_i h
    rw [List.count_eq_zero, List.mem_map]
    rintro ⟨ρ, -, hρ⟩
    exact h (List.cons.inj hρ).1.symm

/-- No position in children is the root. -/
theorem nil_notMem_positionsAll (n : Nat) (es : List Expr) : [] ∉ positionsAll n es := by
  induction es generalizing n with
  | nil => simp [positionsAll]
  | cons e rest ih => simp [positionsAll, ih]

/-- The positions in children begin with the number of the child. -/
theorem count_positionsAll (n : Nat) (es : List Expr) (i : Nat) (π : Position) :
    (positionsAll n es).count (i :: π) =
      if n ≤ i then (es[i - n]?.map fun x => x.positions.count π).getD 0 else 0 := by
  induction es generalizing n with
  | nil => simp [positionsAll]
  | cons e rest ih =>
    rw [positionsAll, List.count_append, count_map_cons, ih]
    rcases Nat.lt_trichotomy i n with h | h | h
    · rw [if_neg (by omega), if_neg (by omega), if_neg (by omega)]
    · rw [if_pos h, if_neg (by omega), if_pos (by omega), h, Nat.sub_self]
      rfl
    · have hsub : i - n = i - (n + 1) + 1 := by omega
      rw [if_neg (by omega), if_pos (by omega), if_pos (by omega), hsub, List.getElem?_cons_succ,
        Nat.zero_add]

/-- The position of each part is listed exactly once. -/
theorem count_positions {e : Expr} {π : Position} (h : (e.part? π).isSome) :
    e.positions.count π = 1 := by
  induction e using induction_children generalizing π with
  | node e ih =>
    rw [positions_eq, List.count_append]
    cases π with
    | nil =>
      rw [List.count_eq_zero_of_not_mem (nil_notMem_positionsAll 0 e.children)]
      simp
    | cons i π =>
      rw [count_positionsAll, if_pos (Nat.zero_le i), Nat.sub_zero]
      cases hx : e.children[i]? with
      | none => simp [hx] at h
      | some x =>
        rw [part?_cons, hx, Option.bind_some] at h
        simp [ih x (List.mem_of_getElem? hx) h]

end EntityLang.Expr
