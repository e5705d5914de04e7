import SeismicHazard.Numeric.Scalar

/-!
# Longitudes

Longitudes are degrees in `[-180, 180]` and are measured eastward, so that from 170 to -170 it is
20 degrees, across the antimeridian.
-/

namespace SeismicHazard.Longitude

open Scalar

variable {R : Type} [Scalar R]

/-- The eastward way from one longitude to another, in `[-180, 180)`. -/
def extent (west east : R) : R := modulo (east - west + 180) 360 - 180

/-- The eastward way, in `[0, 360)`. -/
def eastward (west east : R) : R :=
  let step := extent west east
  if step < 0 then step + 360 else step

/-- Whether the shorter way between two longitudes crosses the antimeridian. -/
def crossesAntimeridian (a b : R) : Bool :=
  decide (a * b < 0) && decide (180 < magnitude (a - b))

/-- A longitude at most one turn away, moved into `[-180, 180]`. -/
def normalize (lon : R) : R :=
  if 180 < lon then lon - 360 else if lon < -180 then lon + 360 else lon

end SeismicHazard.Longitude
