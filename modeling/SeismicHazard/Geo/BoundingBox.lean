import SeismicHazard.Error
import SeismicHazard.Geo.Longitude

/-!
# Spherical bounding boxes

The box of a set of points lies eastward between two of their longitudes and is less than half a
turn wide. When the points lie on both sides of the antimeridian the west edge is the smallest
positive longitude, and the east edge the largest negative one.
-/

namespace SeismicHazard

/-- A box that reaches from `west` eastward to `east`, in degrees. -/
structure BoundingBox (R : Type) where
  west : R
  east : R
  north : R
  south : R

namespace BoundingBox

open Scalar

variable {R : Type} [Scalar R]

/-- The eastward width of a box. -/
def lonExtent (box : BoundingBox R) : R := Longitude.extent box.west box.east

/-- The smallest number of a list, above everything when there is none. -/
def leastOf (xs : List R) : R := (least? xs).getD (1 / 0)

/-- The largest number of a list, below everything when there is none. -/
def greatestOf (xs : List R) : R := (greatest? xs).getD (-(1 / 0))

/-- Whether a longitude lies on the eastward way between two others, each half of which is less
than half a turn. -/
def between (west east lon : R) : Bool :=
  decide (0 ≤ Longitude.extent west lon) && decide (0 ≤ Longitude.extent lon east)

/-- West and east edge for longitudes on both sides of the antimeridian, if all of them lie
between. -/
def acrossAntimeridian? (lons : List R) : Option (R × R) := do
  let west ← least? (lons.filter (fun lon => decide (0 < lon)))
  let east ← greatest? (lons.filter (fun lon => decide (lon < 0)))
  guard (lons.all (between west east))
  return (west, east)

/-- The box of the points with the given longitudes and latitudes. -/
def ofPoints (lons lats : List R) : Except (Error R) (BoundingBox R) :=
  if lons.isEmpty || lons.length != lats.length then
    .error (.geometry (.lengths lons.length lats.length))
  else
    let north := greatestOf lats
    let south := leastOf lats
    let west := leastOf lons
    let east := greatestOf lons
    if !within (-180) 180 west || !within (-180) 180 east then
      .error (.geometry (.longitudesOutOfRange west east))
    else if Longitude.extent west east < 0 then
      match acrossAntimeridian? lons with
      | some (west, east) => .ok { west, east, north, south }
      | none => .error (.geometry .tooWide)
    else .ok { west, east, north, south }

end BoundingBox

end SeismicHazard
