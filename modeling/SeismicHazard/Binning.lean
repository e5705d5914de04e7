import SeismicHazard.Edges

/-!
# Finding bins

A bin holds the values from its lower edge up to, but not including, its upper edge; the last bin
holds its upper edge too. Edges are made to cover the data, so a value outside of them is noise at
the boundary and belongs to the bin at that end.
-/

namespace SeismicHazard.Binning

open Scalar

variable {R : Type} [Scalar R]

/-- The place where a list that satisfies a test up to some point stops satisfying it, searched by
halving the `size` places from `base` on. -/
def partitionPoint (test : Nat → Bool) (base size : Nat) : Nat :=
  if 1 < size then
    let half := size / 2
    partitionPoint test (if test (base + half) then base + half else base) (size - half)
  else if size = 0 then base
  else if test base then base + 1 else base
termination_by size
decreasing_by omega

/-- The number of edges at or below a value. -/
def edgesAtMost (value : R) (edges : Array R) : Nat :=
  partitionPoint (fun i => edges[i]?.any (fun edge => decide (edge ≤ value))) 0 edges.size

/-- The bin of a value. -/
def bin (edges : List R) (value : R) : Except (Error R) Nat :=
  if isNaN value then .error (.geometry .coordinateNaN)
  else if edges.length < 2 then .error (.geometry (.tooFewEdges edges.length))
  else .ok (min (edgesAtMost value edges.toArray - 1) (edges.length - 2))

/-- The eastward way from `start` on to each longitude of a list, the first of them lying there. -/
def offsetsFrom (start : R) : List R → List R
  | west :: east :: rest =>
      let next := start + Longitude.eastward west east
      next :: offsetsFrom next (east :: rest)
  | _ => []

/-- Longitude edges as eastward offsets from the first edge, which increase also where the edges
cross the antimeridian. -/
def offsets (edges : List R) : List R := 0 :: offsetsFrom 0 edges

/-- How far, in degrees, the end of a turn may lie beyond the last edge. -/
def wrapTolerance : R := 1 / 1000000000

/-- The eastward offset of a longitude from the first edge. One that lies to the west is moved by a
full turn if that brings it inside the edges, which can only be when they span half a turn. -/
def offset (west span lon : R) : R :=
  let way := Longitude.extent west lon
  if way < 0 ∧ way + 360 ≤ span + wrapTolerance then way + 360 else way

/-- The bin of a longitude, given the edges and their offsets. -/
def lonBin (edges offsets : List R) (lon : R) : Except (Error R) Nat :=
  if isNaN lon then .error (.geometry .longitudeNaN)
  else
    match edges with
    | [] => .error (.geometry .noLongitudeEdges)
    | west :: _ => bin offsets (offset west (offsets.getLast?.getD 0) lon)

end SeismicHazard.Binning
