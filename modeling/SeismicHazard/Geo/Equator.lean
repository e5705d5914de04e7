import SeismicHazard.Capacity
import SeismicHazard.Geo.Longitude

/-!
# Points along the equator

The equator is a great circle, so even spacing in longitude is even spacing along the way.
-/

namespace SeismicHazard.Equator

open Scalar

variable {R : Type} [Scalar R]

/-- The eastward way between two longitudes; a full turn when they differ by one. -/
def way (west east : R) : R :=
  let extent := Longitude.extent west east
  if extent < 0 ∨ (same extent 0 ∧ ¬ same west east) then extent + 360 else extent

/-- `n` evenly spaced longitudes going east from `west` to `east`. -/
def spaced (west east : R) (n : Nat) : List R :=
  match n with
  | 0 => []
  | 1 => [Longitude.normalize west]
  | n =>
      let step := way west east / ((n - 1 : Nat) : R)
      (List.range n).map (fun (i : Nat) => Longitude.normalize (west + step * (i : R)))

/-- The spaced longitudes, when there is room for them. -/
def points (west east : R) (n : Nat) : Except (Error R) (List R) := do
  reserve n
  return spaced west east n

end SeismicHazard.Equator
