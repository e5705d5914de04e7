/-!
# Scalars

The arithmetic in which hazard is computed. Every rule of the library that touches a number is
written once over a `Scalar`: it runs at binary64 numbers and is reasoned about at exact ones.
Nothing here assumes that the operations are lawful. Only the order that keys results is, because
tables sorted by it rely on it.
-/

namespace SeismicHazard

/-- Numbers with the operations that a hazard computation uses. `<` and `≤` may both be false of a
value that is no number. -/
class Scalar (R : Type) extends Add R, Sub R, Mul R, Div R, Neg R, LT R, LE R,
    NatCast R, IntCast R where
  decidableLT : DecidableLT R
  decidableLE : DecidableLE R
  /-- The largest whole number not above the argument. -/
  floor : R → R
  /-- The smallest whole number not below the argument. -/
  ceil : R → R
  /-- The nearest whole number, a half going away from zero. -/
  round : R → R
  /-- The whole part, held between two bounds; zero for a value that is no number. -/
  wholePart (lo hi : Int) (x : R) : Int
  /-- What is left of the first argument after taking the second away a whole number of times,
  with the sign of the first. -/
  remainder : R → R → R
  sqrt : R → R
  exp : R → R
  log : R → R
  sin : R → R
  cos : R → R
  asin : R → R
  pi : R
  isFinite : R → Bool
  /-- The total order by which probabilities key results. -/
  order : R → R → Ordering
  order_trans : Std.TransCmp order

/-- The standard normal distribution function. It is kept apart from `Scalar` so that statements
can range over every increasing function in its place. -/
class NormalCdf (R : Type) where
  cdf : R → R

/-- Scalars that can be read from decimal text. -/
class ReadScalar (R : Type) where
  read? : String → Option R

namespace Scalar

attribute [reducible, instance] Scalar.decidableLT Scalar.decidableLE

-- at a type with operations of its own those are found first
attribute [instance (50)] Scalar.toAdd Scalar.toSub Scalar.toMul Scalar.toDiv Scalar.toNeg
  Scalar.toLT Scalar.toLE Scalar.toNatCast Scalar.toIntCast Scalar.decidableLT Scalar.decidableLE

variable {R : Type} [Scalar R]

instance (priority := 200) instOfNat (n : Nat) : OfNat R n := ⟨(n : R)⟩

/-- A value that is no number is the one that is not even at most itself. -/
def isNaN (x : R) : Bool := !decide (x ≤ x)

/-- Numerical equality: both signs of zero agree, and what is no number equals nothing. -/
def same (x y : R) : Bool := decide (x ≤ y) && decide (y ≤ x)

/-- The smaller of two values, the second one if they are equal. A value that is no number gives way
to the other one. -/
def lesser (x y : R) : R := if isNaN x || decide (y ≤ x) then y else x

/-- The larger of two values, the second one if they are equal. A value that is no number gives way
to the other one. -/
def greater (x y : R) : R := if isNaN x || decide (x ≤ y) then y else x

/-- A value moved to the nearer end of an interval that it lies outside of. -/
def clamp (lo hi x : R) : R :=
  if x < lo then lo else if hi < x then hi else x

/-- Membership of a closed interval; false for a value that is no number. -/
def within (lo hi x : R) : Bool := decide (lo ≤ x) && decide (x ≤ hi)

/-- The size of a number without its sign. -/
def magnitude (x : R) : R := if x < 0 then -x else x

/-- The remainder that is never negative: a negative one is moved up by one step. -/
def modulo (x step : R) : R :=
  let r := remainder x step
  if r < 0 then r + magnitude step else r

/-- The smallest of the numbers in a list, if it holds any. -/
def least? (xs : List R) : Option R :=
  xs.foldl (fun acc x =>
    if isNaN x then acc else some (acc.elim x (fun a => lesser a x))) none

/-- The largest of the numbers in a list, if it holds any. -/
def greatest? (xs : List R) : Option R :=
  xs.foldl (fun acc x =>
    if isNaN x then acc else some (acc.elim x (fun a => greater a x))) none

/-- Whether a value is a probability. -/
def isProbability (x : R) : Bool := within 0 1 x

/-- A value that is finite and above zero. -/
def isPositive (x : R) : Bool := isFinite x && decide (0 < x)

/-- The smallest signed 64-bit integer. -/
def minLong : Int := -9223372036854775808

/-- The largest signed 64-bit integer. -/
def maxLong : Int := 9223372036854775807

/-- The largest unsigned 64-bit integer. -/
def maxCount : Nat := 18446744073709551615

/-- The whole part as a signed 64-bit integer. -/
def toLong (x : R) : Int := wholePart minLong maxLong x

/-- The whole part as an unsigned 64-bit count. -/
def toCount (x : R) : Nat := (wholePart 0 maxCount x).toNat

end Scalar

end SeismicHazard
