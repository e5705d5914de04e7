import SeismicHazard.Collection
import SeismicHazard.Results.Schedule

/-!
# Jobs

A job has branches, each with its sources and the realizations that sample it. Edges are built for
every branch and site in a first pass over the ruptures. The second pass divides the sources of each
branch into tasks, collects their contributions at every site, and merges the partial results.
-/

namespace SeismicHazard

/-- One branch of the logic tree. Realizations are numbered across branches. -/
structure Branch (R : Type) where
  id : Nat
  regions : Regions
  sources : List (Source R)
  realizations : List (Realization R)

/-- Some of the sources of a branch, to be worked off together. -/
structure Task (R : Type) where
  branch : Branch R
  sources : List (Source R)

/-- All that a disaggregation starts from. -/
structure Job (R : Type) [Scalar R] where
  cfg : Config R
  sites : List (Site R)
  branches : List (Branch R)
  curves : CurveTable R

/-- The outcome of a disaggregation. -/
structure Run (R : Type) [Scalar R] where
  edges : EdgeTable R
  results : Results R

namespace Job

variable {R : Type} [Scalar R]

/-- Takes the realizations of a branch among those `seen`, refusing one that is there already. -/
def addRealizations (seen : List Nat) (realizations : List (Realization R)) :
    Except (Error R) (List Nat) :=
  realizations.foldlM (fun seen realization =>
    if seen.contains realization.id then
      .error (.config (.repeatedRealization realization.id))
    else .ok (realization.id :: seen)) seen

/-- Checks one branch, given the realizations of those before it. -/
def validateBranch (seen : List Nat) (branch : Branch R) : Except (Error R) (List Nat) :=
  match branch.sources.find? (fun source => !source.isParametric) with
  | some source => .error (.config (.nonParametricSource source.id branch.id))
  | none => addRealizations seen branch.realizations

/-- Refuses a job that cannot be disaggregated, before anything is computed. -/
def validate (job : Job R) : Except (Error R) Unit := do
  job.cfg.validate
  let _ ← job.branches.foldlM validateBranch []

/-- The magnitudes of all ruptures of a branch. -/
def magRange (branch : Branch R) : Except (Error R) (Option (MagRange R)) := do
  let ruptures ← branch.sources.mapM Source.rupturesNamed
  return MagRange.ofList (ruptures.flatten.map Rupture.mag)

/-- The bounds of the ruptures of sources near a site. -/
def siteBounds (sources : List (Source R)) (site : Site R) (cfg : Config R) :
    Except (Error R) (SiteBounds R) := do
  let groups ← rupturesNear sources site cfg.maximumDistance
  let ruptures := groups.flatMap NearbyRuptures.ruptures
  return ruptures.foldl (fun bounds rupture =>
    bounds.insert (rupture.distanceTo site.location) (rupture.closestPoint site.location))
    SiteBounds.empty

/-- The edges of a branch at a site, unless the site has no curves or no ruptures near it. -/
def edgesAt? (job : Job R) (branch : Branch R) (mags : Option (MagRange R)) (site : Site R) :
    Except (Error R) (Option (BinEdges R)) :=
  if !job.curves.hasSite site.id then .ok none
  else do
    let bounds ← siteBounds branch.sources site job.cfg
    BinEdges.ofBounds? bounds mags job.cfg

/-- Adds the edges of a branch at every site. Edges under a key that is there already are
replaced. -/
def addEdges (job : Job R) (table : EdgeTable R) (branch : Branch R) :
    Except (Error R) (EdgeTable R) := do
  let mags ← magRange branch
  let found ← job.sites.mapM (fun site => do
    return (site.id, ← job.edgesAt? branch mags site))
  return found.foldl (fun table (site, edges?) =>
    match edges? with
    | some edges => table.insert ⟨branch.id, site⟩ edges
    | none => table) table

/-- The edges of every branch and site worth disaggregating. -/
def edges (job : Job R) : Except (Error R) (EdgeTable R) :=
  job.branches.foldlM job.addEdges SortedMap.empty

/-- Consecutive parts of a list with `n` elements each, the last one possibly shorter. -/
def chunks {α : Type} (n : Nat) (xs : List α) : List (List α) :=
  if n = 0 then []
  else
    match xs with
    | [] => []
    | x :: rest => (x :: rest.take (n - 1)) :: chunks n (rest.drop (n - 1))
termination_by xs.length
decreasing_by
  simp only [List.length_drop, List.length_cons]
  omega

/-- The tasks of a job: the sources of every branch that has edges at some site, in chunks. -/
def tasks (job : Job R) (edges : EdgeTable R) : List (Task R) :=
  let active := job.branches.filter (fun branch =>
    job.sites.any (fun site => edges.contains ⟨branch.id, site.id⟩))
  active.flatMap (fun branch =>
    (chunks job.cfg.sourcesPerTask branch.sources).map (Task.mk branch))

/-- The context of a branch at a site with the given edges. -/
def context (job : Job R) (branch : Branch R) (edges : BinEdges R) : SiteContext R where
  cfg := job.cfg
  regions := branch.regions
  realizations := branch.realizations
  edges := edges
  curves := job.curves

variable [NormalCdf R]

/-- Adds the partial results of one task at one site. -/
def addSite (job : Job R) (edges : EdgeTable R) (task : Task R) (results : Results R)
    (site : Site R) : Except (Error R) (Results R) :=
  match edges.get? ⟨task.branch.id, site.id⟩ with
  | none => .ok results
  | some siteEdges => do
      results.merge (← Collection.collect task.sources site (job.context task.branch siteEdges))

/-- The partial results of one task at all sites. -/
def work (job : Job R) (edges : EdgeTable R) (task : Task R) : Except (Error R) (Results R) :=
  job.sites.foldlM (job.addSite edges task) SortedMap.empty

/-- Runs a disaggregation with the tasks scheduled as `schedule` says. -/
def runWith (job : Job R) (schedule : List (Task R) → Schedule (Task R)) :
    Except (Error R) (Run R) := do
  job.validate
  let edges ← job.edges
  let results ← (schedule (job.tasks edges)).run (job.work edges)
  return { edges, results }

/-- Runs a disaggregation. -/
def run (job : Job R) (executor : Executor) : Except (Error R) (Run R) :=
  job.runWith executor.schedule

end Job

end SeismicHazard
