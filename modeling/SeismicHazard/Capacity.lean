import SeismicHazard.Error
import SeismicHazard.Numeric.Scalar

/-!
# Room for numbers

A list of numbers takes eight bytes for each of them, and no object may be larger than the address
space allows. Where a count is computed from data, `reserve` stands before the list is made. A list
that grows takes room for a power of two.
-/

namespace SeismicHazard

variable {R : Type}

/-- The largest count of numbers that one list can hold. -/
def maxNumbers : Nat := Scalar.maxLong.toNat / 8

/-- Makes sure that a list of `count` numbers can be made. -/
def reserve (count : Nat) : Except (Error R) Unit :=
  if count ≤ maxNumbers then .ok () else .error (.broken .capacity)

end SeismicHazard
