import SeismicHazard.Decimal.Positional
import SeismicHazard.Numeric.Binary64

/-!
# Numbers from decimal text

A decimal number is an optional sign, digits with at most one point among or around them, and an
optional exponent; `inf`, `infinity` and `nan` stand for the values without digits, in any case of
letters. It is read as the nearest binary64 number. Counts are digits with an optional plus sign.
-/

namespace SeismicHazard.Decimal

/-- The value of a character that is a decimal digit. -/
def digit? (c : Char) : Option Nat :=
  if '0' ≤ c ∧ c ≤ '9' then some (c.toNat - '0'.toNat) else none

/-- The leading digits of a text, and what follows them. -/
def spanDigits (cs : List Char) : List Char × List Char :=
  (cs.takeWhile (fun c => (digit? c).isSome), cs.dropWhile (fun c => (digit? c).isSome))

/-- The number that digits stand for. -/
def ofDigits (cs : List Char) : Nat :=
  cs.foldl (fun n c => 10 * n + (digit? c).getD 0) 0

/-- An optional sign, and whether it was a minus sign. -/
def spanSign : List Char → Bool × List Char
  | '-' :: rest => (true, rest)
  | '+' :: rest => (false, rest)
  | cs => (false, cs)

/-- The exponent that a text consists of: nothing, or a mark, an optional sign and digits. -/
def exponent? : List Char → Option Int
  | [] => some 0
  | mark :: rest =>
      if mark == 'e' || mark == 'E' then
        let (negative, body) := spanSign rest
        let (ds, tail) := spanDigits body
        if ds.isEmpty || !tail.isEmpty then none
        else some (if negative then -(ofDigits ds : Int) else ofDigits ds)
      else none

/-- No number of this many digits before or after the point is finite and other than zero. -/
def exponentBound : Int := 400

/-- The binary64 number nearest to `coefficient * 10 ^ exponent`. -/
def nearestDecimal (negative : Bool) (coefficient : Nat) (length : Nat) (exponent : Int) : Float :=
  if coefficient == 0 || exponent + length < -exponentBound then Binary64.nearest negative 0 1
  else if exponentBound < exponent then Binary64.infinity negative
  else
    Binary64.nearest negative (coefficient * tenTo exponent.toNat) (tenTo (-exponent).toNat)

/-- A number without its sign. -/
def unsigned? (negative : Bool) (cs : List Char) : Option Float :=
  let (whole, afterWhole) := spanDigits cs
  let (fraction, tail) :=
    match afterWhole with
    | '.' :: rest => spanDigits rest
    | rest => ([], rest)
  if whole.isEmpty && fraction.isEmpty then none
  else do
    let exponent ← exponent? tail
    let ds := whole ++ fraction
    return nearestDecimal negative (ofDigits ds) ds.length (exponent - fraction.length)

/-- The decimal number that a text consists of. -/
def float? (text : String) : Option Float :=
  let (negative, body) := spanSign text.toList
  let word := String.ofList (body.map Char.toLower)
  if word == "inf" || word == "infinity" then some (Binary64.infinity negative)
  else if word == "nan" then some Binary64.nanValue
  else unsigned? negative body

/-- The unsigned 64-bit integer that a text consists of. -/
def count? (text : String) : Option Nat :=
  let body := match text.toList with
    | '+' :: rest => rest
    | cs => cs
  if body.isEmpty || body.any (fun c => (digit? c).isNone) then none
  else
    let n := ofDigits body
    if n ≤ Scalar.maxCount then some n else none

end SeismicHazard.Decimal

namespace SeismicHazard

instance : ReadScalar Float where
  read? := Decimal.float?

end SeismicHazard
