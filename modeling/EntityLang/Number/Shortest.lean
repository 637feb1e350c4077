import EntityLang.Number.Basic

/-!
# Shortest decimals

The fewest decimal digits that read back as a given number. Every real number nearer to the number
than to its neighbours reads back as it; the ends of that interval do so exactly when the
significand is even. Decimal grids are searched from the coarsest on, and on each grid only the two
points next to the number can be the nearest one, so the first grid with a point in the interval has
the fewest digits.
-/

namespace EntityLang

/-- The decimal number `coefficient * 10 ^ exponent`. -/
structure Decimal where
  coefficient : Nat
  exponent : Int
  deriving DecidableEq

namespace Number

/-- Below a power of two the neighbours lie twice as close as above it. -/
def isNarrow (x : Number) : Bool := x.fraction = 0 && 1 < x.exponent

/-- The grid of step `10 ^ t`, as a fraction: `2 ^ (power - 2)` is this many steps. -/
def quarterUnit (x : Number) (t : Int) : Nat × Nat :=
  let p := x.power - 2
  (Nat.pow 2 p.toNat * Nat.pow 10 (-t).toNat, Nat.pow 2 (-p).toNat * Nat.pow 10 t.toNat)

/-- The point of the grid of step `10 ^ t` that is nearest to the magnitude of `x` among those that
read back as it; of two equally near points the even one. -/
def nearestOnGrid? (x : Number) (t : Int) : Option Decimal :=
  let m := 4 * x.significand
  let (num, den) := x.quarterUnit t
  let low := (m - if x.isNarrow then 1 else 2) * num
  let high := (m + 2) * num
  let inside (c : Nat) : Bool :=
    if x.significand % 2 = 0 then low ≤ c * den && c * den ≤ high
    else low < c * den && c * den < high
  let below := m * num / den
  let twice := 2 * (m * num % den)
  let upFirst := den < twice || (twice = den && below % 2 = 1)
  let order := if upFirst then [below + 1, below] else [below, below + 1]
  (order.find? inside).map fun c => ⟨c, t⟩

/-- The exact decimal expansion of the magnitude. -/
def exactDecimal (x : Number) : Decimal :=
  ⟨x.significand * Nat.pow 2 x.power.toNat * Nat.pow 5 (-x.power).toNat,
    if x.power < 0 then x.power else 0⟩

/-- The shortest decimal that reads back as the magnitude of a finite number other than zero.

The step of the coarsest grid is above the magnitude, since `0.30103` is an upper bound of `log₁₀ 2`
that is exact enough for every exponent; the finest grid has at least seventeen digits. -/
def shortest (x : Number) : Decimal :=
  let top := ((x.significand.log2 : Int) + x.power) * 30103 / 100000 + 2
  let grids := (List.range 22).map fun (i : Nat) => top - (i : Int)
  (grids.findSome? x.nearestOnGrid?).getD x.exactDecimal

end Number

end EntityLang
