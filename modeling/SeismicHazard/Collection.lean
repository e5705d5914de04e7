import SeismicHazard.Arrangement
import SeismicHazard.Results

/-!
# Collecting the contributions of sources

The partial results of some sources at a site: one matrix for each target that has contributions. A
site without targets, or without ruptures near it, has no results; that is no failure.
-/

namespace SeismicHazard.Collection

variable {R : Type} [Scalar R] [NormalCdf R]

/-- The key under which the matrix of a target is kept. -/
def resultKey (site : Site R) (ctx : SiteContext R) (key : TargetKey R) : ResultKey R where
  site := site.id
  realization := key.realization
  poe := key.poe
  imt := key.imt
  regions := ctx.regions.names

/-- Adds the matrix of a target to the results. -/
def addTarget (site : Site R) (ctx : SiteContext R) (contributions : List (Contribution R))
    (cells : List Cell) (results : Results R) (target : Target R) :
    Except (Error R) (Results R) := do
  match ← Arrangement.matrix? contributions cells target.key ctx.edges ctx.regions.size with
  | none => return results
  | some matrix => results.add (resultKey site ctx target.key) matrix

/-- The partial results of sources at a site. -/
def collect (sources : List (Source R)) (site : Site R) (ctx : SiteContext R) :
    Except (Error R) (Results R) := do
  let targets ← ctx.targets site
  if targets.isEmpty then return SortedMap.empty
  let groups ← rupturesNear sources site ctx.cfg.maximumDistance
  if groups.isEmpty then return SortedMap.empty
  let contributions ← Contribution.ofGroups ctx site targets groups
  let cells ← Arrangement.cells contributions ctx.edges ctx.regions.size
  targets.foldlM (addTarget site ctx contributions cells) SortedMap.empty

end SeismicHazard.Collection
