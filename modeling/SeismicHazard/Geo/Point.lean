import SeismicHazard.Numeric.Scalar

/-!
# Points on the sphere

Places are given by longitude and latitude in degrees, and distances are great-circle distances in
kilometres on a sphere of the mean radius of the earth.
-/

namespace SeismicHazard

/-- A place on the earth, in degrees. -/
structure Point (R : Type) where
  lon : R
  lat : R

namespace Point

open Scalar

variable {R : Type} [Scalar R]

/-- The mean radius of the earth in kilometres. -/
def earthRadius : R := 6371

/-- An angle in degrees as one in radians. -/
def radians (degrees : R) : R := degrees * (Scalar.pi / 180)

/-- The square of the sine of half an angle. -/
def haversine (angle : R) : R :=
  let s := Scalar.sin (angle / 2)
  s * s

/-- The great-circle distance between two points, in kilometres. -/
def distance (a b : Point R) : R :=
  let lat₁ := radians a.lat
  let lat₂ := radians b.lat
  let chord := haversine (lat₂ - lat₁)
    + Scalar.cos lat₁ * Scalar.cos lat₂ * haversine (radians (b.lon - a.lon))
  2 * earthRadius * Scalar.asin (lesser (Scalar.sqrt chord) 1)

end Point

end SeismicHazard
