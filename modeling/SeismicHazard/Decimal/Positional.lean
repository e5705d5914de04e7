/-!
# Positional decimal notation

A decimal number is a coefficient and an exponent of ten. It is written without an exponent mark,
however long that is.
-/

namespace SeismicHazard.Decimal

/-- A power of ten. -/
def tenTo (n : Nat) : Nat := Nat.pow 10 n

/-- `coefficient * 10 ^ exponent` with every place written, trailing zeros after the point
included. At least one digit stands before the point. -/
def positional (coefficient : Nat) (exponent : Int) : String :=
  let ds := Nat.toDigits 10 coefficient
  if 0 ≤ exponent then
    if coefficient == 0 then "0"
    else String.ofList (ds ++ List.replicate exponent.toNat '0')
  else
    let places := (-exponent).toNat
    let padded := List.replicate (places + 1 - ds.length) '0' ++ ds
    let whole := padded.length - places
    String.ofList (padded.take whole ++ '.' :: padded.drop whole)

/-- A coefficient without trailing zeros, and the exponent that makes up for them. -/
def strip (coefficient : Nat) (exponent : Int) : Nat × Int :=
  if h : coefficient = 0 then (0, 0)
  else if coefficient % 10 = 0 then strip (coefficient / 10) (exponent + 1)
  else (coefficient, exponent)
termination_by coefficient
decreasing_by omega

/-- Positional notation that ends with its last digit other than zero. -/
def plain (coefficient : Nat) (exponent : Int) : String :=
  let stripped := strip coefficient exponent
  positional stripped.1 stripped.2

end SeismicHazard.Decimal
