import SeismicHazard.GroundMotion.Bands
import SeismicHazard.Source.Nearby
import SeismicHazard.Target

/-!
# Contributions of ruptures

Every rupture near a site contributes, for every target, the probabilities that it does not cause an
exceedance of the level with an epsilon in each band.
-/

namespace SeismicHazard

/-- The non-exceedances of a rupture by epsilon band, at a level. -/
structure BandNonExceedance (R : Type) where
  level : R
  pnes : List R

/-- A rupture near a site with all that it contributes. -/
structure Contribution (R : Type) where
  mag : R
  /-- In kilometres. -/
  dist : R
  lon : R
  lat : R
  trt : Nat
  byTarget : List (TargetKey R × BandNonExceedance R)

namespace Contribution

variable {R : Type} [Scalar R]

/-- Puts the value for a target in place of the one that was there, or last. -/
def put (key : TargetKey R) (value : BandNonExceedance R) :
    List (TargetKey R × BandNonExceedance R) → List (TargetKey R × BandNonExceedance R)
  | [] => [(key, value)]
  | entry :: rest =>
      if key.same entry.1 then (entry.1, value) :: rest else entry :: put key value rest

/-- What a contribution has for a target. -/
def forTarget? (c : Contribution R) (key : TargetKey R) : Option (BandNonExceedance R) :=
  (c.byTarget.find? (fun entry => key.same entry.1)).map Prod.snd

variable [NormalCdf R]

/-- The non-exceedances of a rupture for one target. -/
def bandNonExceedance (cfg : Config R) (rupture : Rupture R) (dist : R)
    (model : GroundMotionModel R) (target : Target R) :
    Except (Error R) (BandNonExceedance R) := do
  let prediction ← model.predict rupture.mag dist target.key.imt
  let poes ← Bands.exceedances prediction target.level cfg.truncationLevel cfg.epsilonBins
  let pnes ← poes.mapM rupture.occurrence.noExceedance
  return { level := target.level, pnes }

/-- Adds what a rupture contributes for the targets of one realization. -/
def addRealization (ctx : SiteContext R) (region : String) (targets : List (Target R))
    (rupture : Rupture R) (dist : R) (entries : List (TargetKey R × BandNonExceedance R))
    (realization : Realization R) :
    Except (Error R) (List (TargetKey R × BandNonExceedance R)) := do
  let model ← realization.model region
  let own := targets.filter (fun target => target.key.realization == realization.id)
  own.foldlM (fun entries target => do
    let value ← bandNonExceedance ctx.cfg rupture dist model target
    return put target.key value entries) entries

/-- The contribution of a rupture of a source in the given region. -/
def ofRupture (ctx : SiteContext R) (site : Site R) (targets : List (Target R))
    (region : String) (trt : Nat) (rupture : Rupture R) :
    Except (Error R) (Contribution R) := do
  let dist := rupture.distanceTo site.location
  let closest := rupture.closestPoint site.location
  let byTarget ← ctx.realizations.foldlM (addRealization ctx region targets rupture dist) []
  return { mag := rupture.mag, dist, lon := closest.lon, lat := closest.lat, trt, byTarget }

/-- The contributions of the ruptures of one source; a failure names the source. -/
def ofSource (ctx : SiteContext R) (site : Site R) (targets : List (Target R))
    (group : NearbyRuptures R) : Except (Error R) (List (Contribution R)) :=
  Except.inSource group.source.id do
    let trt ← ctx.regions.indexOf group.source.region
    group.ruptures.mapM (ofRupture ctx site targets group.source.region trt)

/-- The contributions of all ruptures near a site. -/
def ofGroups (ctx : SiteContext R) (site : Site R) (targets : List (Target R))
    (groups : List (NearbyRuptures R)) : Except (Error R) (List (Contribution R)) := do
  let found ← groups.mapM (ofSource ctx site targets)
  return found.flatten

end Contribution

end SeismicHazard
