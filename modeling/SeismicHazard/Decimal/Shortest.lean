import SeismicHazard.Decimal.Positional
import SeismicHazard.Numeric.Binary64

/-!
# Shortest decimal text

The text of a binary64 number has the fewest digits that read back as the number; of two texts of
that length the nearer one is taken, and the larger one when both are equally near. It is always
positional.
-/

namespace SeismicHazard.Decimal

/-- A ratio of two whole numbers, for exact comparisons. -/
structure Ratio where
  num : Nat
  den : Nat

namespace Ratio

/-- The ratio `n * 2 ^ two * 10 ^ ten`. -/
def scaled (n : Nat) (two ten : Int) : Ratio :=
  { num := (n <<< two.toNat) * tenTo ten.toNat
    den := (1 <<< (-two).toNat) * tenTo (-ten).toNat }

/-- Whether a ratio is at least a power of ten. -/
def atLeastTenTo (r : Ratio) (e : Int) : Bool :=
  r.den * tenTo e.toNat ≤ r.num * tenTo (-e).toNat

end Ratio

/-- The exponent of the leading decimal digit of `mantissa * 2 ^ exponent`. The estimate from the
binary length is at most one off. -/
def leadingExponent (mantissa : Nat) (exponent : Int) : Int :=
  let estimate : Int := ((mantissa.log2 : Int) + exponent) * 30103 / 100000
  let value := Ratio.scaled mantissa exponent 0
  if value.atLeastTenTo (estimate + 1) then estimate + 1
  else if value.atLeastTenTo estimate then estimate
  else estimate - 1

/-- The numbers that round to `mantissa * 2 ^ exponent`, in quarters of its last place: from
`below` to `above`, the ends belonging to them when `closed` holds. -/
structure RoundingInterval where
  below : Nat
  value : Nat
  above : Nat
  closed : Bool

/-- The lower neighbour of a power of two is only half as far away as the upper one. -/
def RoundingInterval.of (mantissa : Nat) (exponent : Int) : RoundingInterval :=
  let narrow := mantissa == Binary64.fullMantissa && Binary64.minExponent < exponent
  { below := 4 * mantissa - (if narrow then 1 else 2)
    value := 4 * mantissa
    above := 4 * mantissa + 2
    closed := mantissa % 2 == 0 }

/-- The better of the two multiples of `10 ^ grid` around a number, if one of them rounds to it. -/
def nearestOnGrid? (interval : RoundingInterval) (exponent grid : Int) : Option Nat :=
  let unit := Ratio.scaled 1 (exponent - 2) (-grid)
  let low := interval.value * unit.num / unit.den
  let inside (k : Nat) : Bool :=
    let at_ := k * unit.den
    let lower := interval.below * unit.num
    let upper := interval.above * unit.num
    (lower < at_ && at_ < upper) || (interval.closed && (at_ == lower || at_ == upper))
  let lowIsNearer := 2 * (interval.value * unit.num) < (2 * low + 1) * unit.den
  match inside low, inside (low + 1) with
  | true, true => some (if lowIsNearer then low else low + 1)
  | true, false => some low
  | false, true => some (low + 1)
  | false, false => none

/-- The first of the digit counts from `count` on that has a text of the number. -/
def searchDigits (interval : RoundingInterval) (exponent leading : Int) (count : Nat) :
    Nat → Nat × Int
  | 0 => (interval.value, exponent)
  | tries + 1 =>
      let grid := leading + 1 - count
      match nearestOnGrid? interval exponent grid with
      | some coefficient => (coefficient, grid)
      | none => searchDigits interval exponent leading (count + 1) tries

/-- Coefficient and exponent of ten of the shortest text of `mantissa * 2 ^ exponent`. Seventeen
digits always suffice. -/
def shortestDigits (mantissa : Nat) (exponent : Int) : Nat × Int :=
  searchDigits (RoundingInterval.of mantissa exponent) exponent
    (leadingExponent mantissa exponent) 1 17

/-- A minus sign for a negative number, zero included. -/
def sign (negative : Bool) : String := if negative then "-" else ""

/-- The texts of the values that have no digits. -/
def special (negative : Bool) : String := sign negative ++ "inf"

/-- The shortest text of a binary64 number. -/
def shortest (x : Float) : String :=
  match Binary64.ofFloat x with
  | .nan => "NaN"
  | .infinite negative => special negative
  | .finite negative mantissa exponent =>
      if mantissa == 0 then sign negative ++ "0"
      else
        let found := shortestDigits mantissa exponent
        sign negative ++ plain found.1 found.2

end SeismicHazard.Decimal
