import SeismicHazard.Source

/-!
# Sources near a site

Only ruptures within the maximum distance of a site contribute to its hazard. A source that is
farther away as a whole is left out before its ruptures are generated.
-/

namespace SeismicHazard

/-- The ruptures of one source that are near a site. -/
structure NearbyRuptures (R : Type) where
  source : Source R
  ruptures : List (Rupture R)

variable {R : Type} [Scalar R]

namespace Source

/-- Whether a source cannot have a rupture near a place. -/
def isFar (source : Source R) (place : Point R) (maximumDistance : R) : Bool :=
  decide (maximumDistance < source.distanceTo place)

/-- The ruptures of a source near a site, if there are any. -/
def near? (source : Source R) (site : Site R) (maximumDistance : R) :
    Except (Error R) (Option (NearbyRuptures R)) :=
  if source.isFar site.location maximumDistance then .ok none
  else do
    let ruptures ← source.rupturesNamed
    let near := ruptures.filter
      (fun rupture => decide (rupture.distanceTo site.location ≤ maximumDistance))
    return if near.isEmpty then none else some { source, ruptures := near }

end Source

/-- The ruptures near a site, grouped by source. -/
def rupturesNear (sources : List (Source R)) (site : Site R) (maximumDistance : R) :
    Except (Error R) (List (NearbyRuptures R)) := do
  let groups ← sources.mapM (fun source => source.near? site maximumDistance)
  return groups.filterMap id

end SeismicHazard
