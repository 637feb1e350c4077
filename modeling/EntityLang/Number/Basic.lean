/-!
# Numbers of the language

A number is a double-precision binary value. It is kept as its 64 bits, so that the two zeros and
the many forms of not-a-number stay apart, and all work on numbers is exact integer arithmetic.
-/

namespace EntityLang

/-- A double-precision binary number, told apart by its bits. -/
structure Number where
  bits : UInt64
  deriving DecidableEq, Inhabited

namespace Number

/-- The fraction field. -/
def fraction (x : Number) : Nat := x.bits.toNat % Nat.pow 2 52

/-- The biased exponent field. -/
def exponent (x : Number) : Nat := x.bits.toNat / Nat.pow 2 52 % Nat.pow 2 11

/-- The sign bit. -/
def isNegative (x : Number) : Bool := Nat.pow 2 63 ≤ x.bits.toNat

/-- Neither infinite nor not-a-number. -/
def isFinite (x : Number) : Bool := x.exponent ≠ Nat.pow 2 11 - 1

/-- The integer that, times a power of two, is the magnitude of a finite number. -/
def significand (x : Number) : Nat :=
  if x.exponent = 0 then x.fraction else Nat.pow 2 52 + x.fraction

/-- The exponent of two: the magnitude of a finite number is `significand * 2 ^ power`. -/
def power (x : Number) : Int :=
  if x.exponent = 0 then -1074 else (x.exponent : Int) - 1075

/-- The quotient rounded to the nearest integer, a half to the even neighbour. -/
def nearestQuotient (n d : Nat) : Nat :=
  let q := n / d
  let twice := 2 * (n % d)
  if twice < d then q
  else if d < twice then q + 1
  else q + q % 2

/-- The bits of the number nearest to a positive integer below `2 ^ 1023`.

With `2 ^ e` the greatest power of two not above `n`, the significand is `n * 2 ^ 52 / 2 ^ e`
rounded. Its leading bit adds one to the exponent field, and so does a carry out of the rounding. -/
def magnitudeBits (n : Nat) : Nat :=
  let e := n.log2
  (e + 1022) * Nat.pow 2 52 + nearestQuotient (n * Nat.pow 2 52) (Nat.pow 2 e)

/-- The number nearest to an integer, a half to the even neighbour. -/
def ofInt64 (i : Int64) : Number :=
  let n := i.toInt.natAbs
  let magnitude := if n = 0 then 0 else magnitudeBits n
  ⟨UInt64.ofNat (if i.toInt < 0 then Nat.pow 2 63 + magnitude else magnitude)⟩

end Number

end EntityLang
