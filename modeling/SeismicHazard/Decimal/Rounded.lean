import SeismicHazard.Decimal.Reader
import SeismicHazard.Decimal.Shortest

/-!
# Rounded decimals

A binary64 number rounded to a fixed number of decimal places, or to a fixed number of significant
digits. Both round the exact value, and a half goes to the even neighbour.
-/

namespace SeismicHazard.Decimal

/-- The whole multiple of `10 ^ grid` nearest to `mantissa * 2 ^ exponent`. -/
def roundToGrid (mantissa : Nat) (exponent grid : Int) : Nat :=
  let value := Ratio.scaled mantissa exponent (-grid)
  Binary64.roundHalfEven value.num value.den

/-- The text with exactly `places` digits after the point. -/
def fixed (places : Nat) (x : Float) : String :=
  match Binary64.ofFloat x with
  | .nan => "NaN"
  | .infinite negative => special negative
  | .finite negative mantissa exponent =>
      let grid := -(places : Int)
      sign negative ++ positional (roundToGrid mantissa exponent grid) grid

/-- The text with at most `places` digits after the point: trailing zeros are left out, and zero
has no sign. -/
def upToPlaces (places : Nat) (x : Float) : String :=
  match Binary64.ofFloat x with
  | .nan => "NaN"
  | .infinite negative => special negative
  | .finite negative mantissa exponent =>
      let coefficient := roundToGrid mantissa exponent (-(places : Int))
      sign (negative && coefficient != 0) ++ plain coefficient (-(places : Int))

/-- The binary64 number nearest to a number that has been rounded to `count` significant digits.
Rounding up can lead beyond the largest finite number. -/
def toSignificant (count : Nat) (x : Float) : Float :=
  match Binary64.ofFloat x with
  | .finite negative mantissa exponent =>
      if mantissa == 0 then x
      else
        let grid := leadingExponent mantissa exponent + 1 - count
        nearestDecimal negative (roundToGrid mantissa exponent grid) (count + 1) grid
  | _ => x

/-- The shortest text, zero having no sign. -/
def unsignedZero (x : Float) : String := if x == 0 then "0" else shortest x

end SeismicHazard.Decimal
