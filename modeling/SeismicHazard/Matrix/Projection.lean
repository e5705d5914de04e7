import SeismicHazard.Capacity
import SeismicHazard.Extent
import SeismicHazard.Matrix

/-!
# Projections of a matrix

A projection keeps some axes of a matrix and collapses the others. Cells that fall together are
independent events, so their non-exceedances are multiplied. Axes are collapsed one at a time, the
last one first.
-/

namespace SeismicHazard

/-- Values on some of the axes, in row-major order. -/
structure Grid (R : Type) where
  axes : List (Axis × Nat)
  values : Array R

namespace Grid

variable {R : Type} [Scalar R]

/-- The sizes of the axes. -/
def sizes (g : Grid R) : List Nat := g.axes.map Prod.snd

/-- The product of `count` values, `stride` apart. -/
def laneProduct (values : Array R) (start stride count : Nat) : R :=
  (List.range count).foldl (fun acc k => acc * values.getD (start + k * stride) 1) 1

/-- Multiplies the values along one axis, which has `outer` positions before it and `inner` ones
after it. -/
def collapseLanes (values : Array R) (outer count inner : Nat) : Array R :=
  Array.ofFn (n := outer * inner) (fun i =>
    laneProduct values (i.val / inner * (count * inner) + i.val % inner) inner count)

/-- The grid without one of its axes. -/
def collapse (g : Grid R) (axis : Axis) : Grid R :=
  let before := g.axes.takeWhile (fun a => a.1 != axis)
  match g.axes.dropWhile (fun a => a.1 != axis) with
  | [] => g
  | (_, count) :: after =>
      { axes := before ++ after
        values := collapseLanes g.values (extent (before.map Prod.snd)) count
          (extent (after.map Prod.snd)) }

/-- Makes sure that the grids can be made that are left when axes are collapsed one after the other.
Collapsing an axis without bins leaves more values than there were. -/
def reserveCollapsed (axes : List (Axis × Nat)) : List Axis → Except (Error R) Unit
  | [] => .ok ()
  | axis :: others => do
      let kept := axes.filter (fun a => a.1 != axis)
      reserve (extent (kept.map Prod.snd))
      reserveCollapsed kept others

end Grid

/-- The projections that are reported. -/
inductive Projection where
  | mag
  | dist
  | trt
  | magDist
  | magDistEps
  | lonLat
  | magLonLat
  | lonLatTrt
  | magDistTrt
deriving DecidableEq, Repr

namespace Projection

/-- All projections in the order in which they are reported. -/
def all : List Projection :=
  [mag, dist, trt, magDist, magDistEps, lonLat, magLonLat, lonLatTrt, magDistTrt]

/-- The name under which a projection is reported. -/
def name : Projection → String
  | mag => "Mag"
  | dist => "Dist"
  | trt => "TRT"
  | magDist => "Mag_Dist"
  | magDistEps => "Mag_Dist_Eps"
  | lonLat => "Lon_Lat"
  | magLonLat => "Mag_Lon_Lat"
  | lonLatTrt => "Lon_Lat_TRT"
  | magDistTrt => "Mag_Dist_TRT"

/-- The projection with a name. -/
def ofName? (name : String) : Option Projection := all.find? (fun kind => kind.name == name)

/-- The axes that a projection keeps, in their order. -/
def axes : Projection → List Axis
  | mag => [.mag]
  | dist => [.dist]
  | trt => [.trt]
  | magDist => [.mag, .dist]
  | magDistEps => [.mag, .dist, .eps]
  | lonLat => [.lon, .lat]
  | magLonLat => [.mag, .lon, .lat]
  | lonLatTrt => [.lon, .lat, .trt]
  | magDistTrt => [.mag, .dist, .trt]

/-- The axes that a projection collapses, in the order in which it does. -/
def collapsed (kind : Projection) : List Axis :=
  Axis.all.reverse.filter (fun axis => !kind.axes.contains axis)

end Projection

namespace Matrix

variable {R : Type} [Scalar R]

/-- The axes of a matrix with their sizes. -/
def axes (m : Matrix R) : List (Axis × Nat) :=
  Axis.all.map (fun axis => (axis, m.shape.along axis))

/-- The non-exceedances of a matrix on its axes. -/
def grid (m : Matrix R) : Grid R where
  axes := m.axes
  values := m.nonExceedance

/-- The exceedances over the axes that a projection keeps. -/
def project (m : Matrix R) (kind : Projection) : Grid R :=
  let g := kind.collapsed.foldl Grid.collapse m.grid
  { g with values := g.values.map (fun p => 1 - p) }

/-- Every projection of a matrix. -/
def projections (m : Matrix R) : List (Projection × Grid R) :=
  Projection.all.map (fun kind => (kind, m.project kind))

/-- Every projection of a matrix, when there is room for them. A matrix without cells can have
projections that are too large. -/
def createProjections (m : Matrix R) : Except (Error R) (List (Projection × Grid R)) := do
  Projection.all.forM (fun kind => Grid.reserveCollapsed (R := R) m.axes kind.collapsed)
  return m.projections

end Matrix

end SeismicHazard
