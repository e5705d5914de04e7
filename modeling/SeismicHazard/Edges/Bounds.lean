import SeismicHazard.Geo.BoundingBox
import SeismicHazard.Geo.Point

/-!
# Bounds of the ruptures near a site

The extremes of distances and closest points, gathered one rupture at a time or from parts.
Longitudes are kept by sign, the smallest positive and the largest negative one, because those
decide the box of points on both sides of the antimeridian: every other longitude lies between two
of the extremes.
-/

namespace SeismicHazard

open Scalar

variable {R : Type} [Scalar R]

/-- The smallest and the largest magnitude of a branch. -/
structure MagRange (R : Type) where
  low : R
  high : R

namespace MagRange

/-- A range that takes in one more magnitude. -/
def extend (range : Option (MagRange R)) (mag : R) : Option (MagRange R) :=
  match range with
  | none => some ⟨mag, mag⟩
  | some r => some ⟨lesser r.low mag, greater r.high mag⟩

/-- The range of some magnitudes. -/
def ofList (mags : List R) : Option (MagRange R) := mags.foldl extend none

end MagRange

/-- The extremes of at least one rupture near a site. -/
structure Spread (R : Type) where
  count : Nat
  minDist : R
  maxDist : R
  minLon : R
  maxLon : R
  minPositiveLon : Option R
  maxNegativeLon : Option R
  onGreenwich : Bool
  minLat : R
  maxLat : R

namespace Spread

/-- The spread of a single rupture. -/
def single (distance : R) (closest : Point R) : Spread R where
  count := 1
  minDist := distance
  maxDist := distance
  minLon := closest.lon
  maxLon := closest.lon
  minPositiveLon := if 0 < closest.lon then some closest.lon else none
  maxNegativeLon := if closest.lon < 0 then some closest.lon else none
  onGreenwich := same closest.lon 0
  minLat := closest.lat
  maxLat := closest.lat

/-- What two optional values combine to; one that is missing does not count. -/
def combine (op : R → R → R) : Option R → Option R → Option R
  | some a, some b => some (op a b)
  | some a, none => some a
  | none, b => b

/-- The spread of two sets of ruptures together. -/
def join (a b : Spread R) : Spread R where
  count := a.count + b.count
  minDist := lesser a.minDist b.minDist
  maxDist := greater a.maxDist b.maxDist
  minLon := lesser a.minLon b.minLon
  maxLon := greater a.maxLon b.maxLon
  minPositiveLon := combine lesser a.minPositiveLon b.minPositiveLon
  maxNegativeLon := combine greater a.maxNegativeLon b.maxNegativeLon
  onGreenwich := a.onGreenwich || b.onGreenwich
  minLat := lesser a.minLat b.minLat
  maxLat := greater a.maxLat b.maxLat

/-- The longitudes that decide the box. -/
def decisiveLons (s : Spread R) : List R :=
  [s.minLon, s.maxLon] ++ s.minPositiveLon.toList ++ s.maxNegativeLon.toList
    ++ (if s.onGreenwich then [0] else [])

/-- The box of the closest points. -/
def boundingBox (s : Spread R) : Except (Error R) (BoundingBox R) := do
  let lons := s.decisiveLons
  let box ← BoundingBox.ofPoints lons (List.replicate lons.length s.minLat)
  return { box with north := s.maxLat }

end Spread

/-- The bounds of any number of ruptures near a site. -/
structure SiteBounds (R : Type) where
  spread? : Option (Spread R)

namespace SiteBounds

/-- The bounds of no rupture. -/
def empty : SiteBounds R := ⟨none⟩

def isEmpty (bounds : SiteBounds R) : Bool := bounds.spread?.isNone

/-- The number of ruptures taken in. -/
def size (bounds : SiteBounds R) : Nat := bounds.spread?.elim 0 Spread.count

/-- The bounds of two sets of ruptures together. -/
def merge (a b : SiteBounds R) : SiteBounds R :=
  match a.spread?, b.spread? with
  | _, none => a
  | none, some _ => b
  | some s, some t => ⟨some (s.join t)⟩

/-- The bounds of a single rupture. -/
def single (distance : R) (closest : Point R) : SiteBounds R :=
  ⟨some (Spread.single distance closest)⟩

/-- The bounds with one more rupture. -/
def insert (bounds : SiteBounds R) (distance : R) (closest : Point R) : SiteBounds R :=
  bounds.merge (single distance closest)

/-- The bounds of two sets of ruptures together, as long as the ruptures can be counted. -/
def join (a b : SiteBounds R) : Except (Error R) (SiteBounds R) :=
  if maxCount < a.size + b.size then .error (.broken .ruptureCount) else .ok (a.merge b)

/-- The smallest and the largest distance. -/
def distanceRange? (bounds : SiteBounds R) : Option (R × R) :=
  bounds.spread?.map (fun s => (s.minDist, s.maxDist))

/-- The box of the closest points, if there are any. -/
def boundingBox? (bounds : SiteBounds R) : Except (Error R) (Option (BoundingBox R)) :=
  match bounds.spread? with
  | none => .ok none
  | some s => some <$> s.boundingBox

end SiteBounds

end SeismicHazard
