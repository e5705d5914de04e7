import SeismicHazard.Capacity
import SeismicHazard.Geo.BoundingBox
import SeismicHazard.Geo.Equator

/-!
# Edges that cover a range

Edges of magnitude, distance and latitude are whole multiples of a width, from the last one not
above the data to the first one not below. Edges of longitude divide the eastward way between two
such multiples evenly.
-/

namespace SeismicHazard.Edges

open Scalar

variable {R : Type} [Scalar R]

/-- The multiples of a width that enclose a range, by their indices. They are at least one bin
apart. -/
def indices (low high width : R) : Int × Int :=
  let first := toLong (floor (low / width))
  let last := toLong (ceil (high / width))
  (first, if last ≤ first then first + 1 else last)

/-- The multiples of a width with indices from `first` to `last`. -/
def multiples (width : R) (first last : Int) : List R :=
  (List.range (last - first + 1).toNat).map (fun (i : Nat) => width * ((first + i : Int) : R))

/-- The edges of bins of a width that cover the range from `low` to `high`. Integer arithmetic is
taken to be checked for overflow, so an index after the last one there is breaks a precondition. -/
def ofRange (low high width : R) : Except (Error R) (List R) :=
  let (first, last) := indices low high width
  if maxLong < last then .error (.broken .edgeIndex)
  else do
    reserve (last - first + 1).toNat
    return multiples width first last

/-- West edge, east edge and eastward way of a box after both edges have been moved outward to
multiples of a width. A box without extent is given one bin. -/
def snapped (box : BoundingBox R) (width : R) : R × R × R :=
  let west := floor (box.west / width) * width
  let east := ceil (box.east / width) * width
  let way := Longitude.eastward west east
  if same way 0 then (west, Longitude.normalize (west + width), width) else (west, east, way)

/-- Longitude and latitude edges that cover a box. -/
def ofBox (box : BoundingBox R) (width : R) : Except (Error R) (List R × List R) := do
  let (west, east, way) := snapped box width
  let bins := toCount (round (way / width))
  if maxCount ≤ bins then throw (.broken .edgeIndex)
  let lon ← Equator.points west east (max (bins + 1) 2)
  let lat ← ofRange box.south box.north width
  return (lon, lat)

end SeismicHazard.Edges
