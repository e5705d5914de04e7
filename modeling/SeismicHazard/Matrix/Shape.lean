/-!
# Shapes of matrices

A disaggregation matrix has six axes: magnitude, distance, longitude, latitude, tectonic region and
epsilon. Its cells are numbered with the last axis running fastest.
-/

namespace SeismicHazard

/-- The axes of a matrix. -/
inductive Axis where
  | mag
  | dist
  | lon
  | lat
  | trt
  | eps
deriving DecidableEq, Repr

namespace Axis

/-- All axes in their order. -/
def all : List Axis := [mag, dist, lon, lat, trt, eps]

end Axis

/-- The number of bins on each axis. -/
structure Shape where
  mag : Nat
  dist : Nat
  lon : Nat
  lat : Nat
  trt : Nat
  eps : Nat
deriving DecidableEq, Repr

/-- The bins of a rupture on all axes but epsilon. -/
structure Cell where
  mag : Nat
  dist : Nat
  lon : Nat
  lat : Nat
  trt : Nat
deriving DecidableEq, Repr

namespace Shape

/-- The number of 64-bit numbers. -/
def wordCount : Nat := 1 <<< 64

/-- The number of bins on an axis. -/
def along (s : Shape) : Axis → Nat
  | .mag => s.mag
  | .dist => s.dist
  | .lon => s.lon
  | .lat => s.lat
  | .trt => s.trt
  | .eps => s.eps

/-- The numbers of bins in the order of the axes. -/
def sizes (s : Shape) : List Nat := Axis.all.map s.along

/-- The number of cells. -/
def size (s : Shape) : Nat := s.mag * s.dist * s.lon * s.lat * s.trt * s.eps

/-- The bin that a 64-bit number stands for among `count` bins. The numbers that are negative when
they are taken as signed count back from the last bin. -/
def bin? (count number : Nat) : Option Nat :=
  if number < count then some number
  else if number < wordCount && wordCount ≤ number + count then some (number + count - wordCount)
  else none

/-- The cell that the bins of another one stand for, if all of them do. -/
def locate? (s : Shape) (c : Cell) : Option Cell := do
  let mag ← bin? s.mag c.mag
  let dist ← bin? s.dist c.dist
  let lon ← bin? s.lon c.lon
  let lat ← bin? s.lat c.lat
  let trt ← bin? s.trt c.trt
  return { mag, dist, lon, lat, trt }

/-- Whether the bins of a cell are all among those of the shape. -/
def holds (s : Shape) (c : Cell) : Bool :=
  decide (c.mag < s.mag) && decide (c.dist < s.dist) && decide (c.lon < s.lon)
    && decide (c.lat < s.lat) && decide (c.trt < s.trt)

/-- The number of a cell and epsilon bin in row-major order. -/
def index (s : Shape) (c : Cell) (eps : Nat) : Nat :=
  ((((c.mag * s.dist + c.dist) * s.lon + c.lon) * s.lat + c.lat) * s.trt + c.trt) * s.eps + eps

end Shape

end SeismicHazard
