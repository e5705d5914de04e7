import SeismicHazard.Numeric.Scalar

/-!
# Binary64 numbers taken apart

A binary64 number is a sign, a mantissa and an exponent of two. Everything that has to be exact
beyond the four operations (remainders, whole parts, decimal text) works on those three in exact
integer arithmetic, and one rounding, `nearest`, leads back.
-/

namespace SeismicHazard

/-- What the bits of a binary64 number say: `mantissa * 2 ^ exponent` when it is finite. -/
inductive Binary64 where
  | nan
  | infinite (negative : Bool)
  | finite (negative : Bool) (mantissa : Nat) (exponent : Int)
deriving DecidableEq

namespace Binary64

/-- The exponent of the smallest positive number. -/
def minExponent : Int := -1074

/-- The first mantissa of full length. -/
def fullMantissa : Nat := 1 <<< 52

/-- Takes a number apart. A number with biased exponent zero has no hidden leading bit. -/
def ofFloat (x : Float) : Binary64 :=
  let bits := x.toBits.toNat
  let negative := bits >>> 63 == 1
  let biased := bits / fullMantissa % 2048
  let fraction := bits % fullMantissa
  if biased == 2047 then
    if fraction == 0 then infinite negative else nan
  else if biased == 0 then finite negative fraction minExponent
  else finite negative (fraction + fullMantissa) (biased + minExponent - 1)

/-- The sign bit alone. -/
def signBits (negative : Bool) : Nat := if negative then 1 <<< 63 else 0

/-- The bits of an infinite number without its sign. -/
def infinityBits : Nat := 2047 * fullMantissa

/-- `num / den` rounded to the nearest whole number, a half going to the even neighbour. -/
def roundHalfEven (num den : Nat) : Nat :=
  let quotient := num / den
  let twice := 2 * (num % den)
  if twice < den then quotient
  else if den < twice then quotient + 1
  else quotient + quotient % 2

/-- The exponent at which `num / den` has a mantissa of full length, or the least one there is. -/
def mantissaExponent (num den : Nat) : Int :=
  let guess : Int := (num.log2 : Int) - den.log2 - 52
  let short : Bool :=
    num <<< (-guess).toNat < fullMantissa * (den <<< guess.toNat)
  max minExponent (if short then guess - 1 else guess)

/-- The binary64 number nearest to the fraction `num / den`, ties going to the even mantissa. -/
def nearest (negative : Bool) (num den : Nat) : Float :=
  let magnitude :=
    if num == 0 then 0
    else
      let exponent := mantissaExponent num den
      let mantissa := roundHalfEven (num <<< (-exponent).toNat) (den <<< exponent.toNat)
      let bits : Int := (exponent - minExponent) * fullMantissa + mantissa
      min bits.toNat infinityBits
  Float.ofBits (UInt64.ofNat (signBits negative + magnitude))

/-- The number `mantissa * 2 ^ exponent`. -/
def scaled (negative : Bool) (mantissa : Nat) (exponent : Int) : Float :=
  nearest negative (mantissa <<< exponent.toNat) (1 <<< (-exponent).toNat)

/-- A value that is no number. -/
def nanValue : Float := Float.ofBits 0x7ff8000000000000

/-- An infinite number. -/
def infinity (negative : Bool) : Float :=
  Float.ofBits (UInt64.ofNat (signBits negative + infinityBits))

/-- The whole part of a finite number, towards zero. -/
def truncate (negative : Bool) (mantissa : Nat) (exponent : Int) : Int :=
  let size : Nat := mantissa <<< exponent.toNat >>> (-exponent).toNat
  if negative then -(size : Int) else size

/-- The whole part held between two bounds; zero for a value that is no number. -/
def wholePart (lo hi : Int) (x : Float) : Int :=
  match ofFloat x with
  | nan => 0
  | infinite negative => if negative then lo else hi
  | finite negative mantissa exponent =>
      max lo (min hi (truncate negative mantissa exponent))

/-- The exact remainder, with the sign of the dividend. -/
def remainder (x y : Float) : Float :=
  match ofFloat x, ofFloat y with
  | finite negative m p, finite _ n q =>
      if n == 0 then nanValue
      else
        let shared := min p q
        let rest := (m <<< (p - shared).toNat) % (n <<< (q - shared).toNat)
        scaled negative rest shared
  | finite _ _ _, infinite _ => x
  | _, _ => nanValue

end Binary64

private theorem compareBits_trans :
    Std.TransCmp (fun x y : Float => compare x.toBits y.toBits) :=
  inferInstanceAs (Std.TransCmp (compareOn Float.toBits))

/-- Binary64 arithmetic. Results are keyed by the bits of a number, so that the order is total and
both zeros are different keys. -/
instance : Scalar Float where
  natCast := Float.ofNat
  intCast := Float.ofInt
  decidableLT := inferInstance
  decidableLE := inferInstance
  floor := Float.floor
  ceil := Float.ceil
  round := Float.round
  wholePart := Binary64.wholePart
  remainder := Binary64.remainder
  sqrt := Float.sqrt
  exp := Float.exp
  log := Float.log
  sin := Float.sin
  cos := Float.cos
  asin := Float.asin
  pi := 3.141592653589793
  isFinite := Float.isFinite
  order x y := compare x.toBits y.toBits
  order_trans := compareBits_trans

end SeismicHazard
