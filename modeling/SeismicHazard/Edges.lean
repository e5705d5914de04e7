import SeismicHazard.Config
import SeismicHazard.Edges.Bounds
import SeismicHazard.Edges.Range
import SeismicHazard.Matrix.Shape
import SeismicHazard.SortedMap

/-!
# Bin edges

The edges of the bins of a branch at a site. They are derived once from the bounds of all ruptures
near the site, and every task of the branch uses the same ones.
-/

namespace SeismicHazard

/-- The edges of all axes but the tectonic regions, which are counted. -/
structure BinEdges (R : Type) where
  mag : List R
  dist : List R
  /-- Eastward from west to east, possibly across the antimeridian. -/
  lon : List R
  lat : List R
  eps : List R

namespace BinEdges

variable {R : Type}

/-- All edges by axis, in the order of the axes. -/
def axes (edges : BinEdges R) : List (String × List R) :=
  [("mag", edges.mag), ("dist", edges.dist), ("lon", edges.lon), ("lat", edges.lat),
   ("eps", edges.eps)]

/-- The shape of the matrices with these edges. -/
def shape (edges : BinEdges R) (regions : Nat) : Except (Error R) Shape :=
  if edges.axes.any (fun axis => axis.2.isEmpty) then .error (.broken .someEdge)
  else
    .ok
      { mag := edges.mag.length - 1
        dist := edges.dist.length - 1
        lon := edges.lon.length - 1
        lat := edges.lat.length - 1
        trt := regions
        eps := edges.eps.length - 1 }

variable [Scalar R]

/-- The edges for ruptures with the given bounds in a branch with the given magnitudes; none when
there are no ruptures. -/
def ofBounds? (bounds : SiteBounds R) (mags : Option (MagRange R)) (cfg : Config R) :
    Except (Error R) (Option (BinEdges R)) := do
  let box? ← bounds.boundingBox?
  match bounds.distanceRange?, mags, box? with
  | some (nearest, farthest), some mags, some box =>
      let (lon, lat) ← Edges.ofBox box cfg.coordinateBinWidth
      let mag ← Edges.ofRange mags.low mags.high cfg.magBinWidth
      let dist ← Edges.ofRange nearest farthest cfg.distanceBinWidth
      let eps ← cfg.epsilonEdges
      return some { mag, dist, lon, lat, eps }
  | _, _, _ => return none

end BinEdges

/-- What edges are computed for. -/
structure EdgeKey where
  branch : Nat
  site : Nat
deriving DecidableEq

namespace EdgeKey

/-- Keys are ordered by branch, then site. -/
instance : Ord EdgeKey where
  compare := compareLex (compareOn branch) (compareOn site)

instance : Std.TransOrd EdgeKey :=
  inferInstanceAs (Std.TransCmp (compareLex (compareOn branch) (compareOn site)))

end EdgeKey

/-- The edges of every branch and site worth disaggregating. -/
abbrev EdgeTable (R : Type) := SortedMap EdgeKey (BinEdges R)

end SeismicHazard
