import EntityLang.Number.Shortest

/-!
# Numbers as text

A finite number is written with its shortest digits: positionally, with at least one digit after the
point, when its leading digit stands for a power of ten from `10 ^ -5` to `10 ^ 15`, and in
scientific form with a signed exponent otherwise.
-/

namespace EntityLang

namespace Decimal

/-- The digits of the coefficient. -/
def digits (d : Decimal) : String := Nat.repr d.coefficient

/-- The power of ten that the leading digit stands for. -/
def leading (d : Decimal) : Int := d.exponent + (d.digits.length : Int) - 1

/-- Positional form, with at least one digit after the point. -/
def positional (d : Decimal) : String :=
  let ds := d.digits.toList
  if 0 ≤ d.exponent then
    String.ofList (ds ++ List.replicate d.exponent.toNat '0') ++ ".0"
  else if 0 ≤ d.leading then
    let whole := d.leading.toNat + 1
    String.ofList (ds.take whole) ++ "." ++ String.ofList (ds.drop whole)
  else
    "0." ++ String.ofList (List.replicate (-d.leading - 1).toNat '0' ++ ds)

/-- Scientific form: one digit, the others after a point, and a signed exponent. -/
def scientific (d : Decimal) : String :=
  let ds := d.digits.toList
  let rest := ds.drop 1
  let tail := if rest.isEmpty then "" else "." ++ String.ofList rest
  let sign := if d.leading < 0 then "e-" else "e+"
  String.ofList (ds.take 1) ++ tail ++ sign ++ Nat.repr d.leading.natAbs

/-- Positional for moderate magnitudes and scientific for the others. -/
def text (d : Decimal) : String :=
  if -5 ≤ d.leading && d.leading < 16 then d.positional else d.scientific

end Decimal

namespace Number

/-- A finite number as text. -/
def text (x : Number) : String :=
  let sign := if x.isNegative then "-" else ""
  sign ++ if x.significand = 0 then "0.0" else x.shortest.text

end Number

end EntityLang
