import SeismicHazard.Bundle
import SeismicHazard.Job

/-!
# Loading a job

A job is stored as these arrays:

* `meta_investigation_time` (one number) and `meta_poes_disagg`;
* `meta_imt_data`, `meta_imt_indptr`: the names of the measures as packed bytes, and where each of
  them begins and ends; `imt0_imls`, `imt1_imls` and so on: the levels of their curves;
* `meta_trt_data`, `meta_trt_indptr`: the names of the tectonic regions, packed likewise;
* `site_lons`, `site_lats`;
* `src_lons`, `src_lats`, `src_depths`, `src_trt`: point sources, with the number of their region;
  `src_mfd_indptr`, `src_mags`, `src_rates`: their magnitudes and annual rates, packed;
* `rlz_gmpe`: five coefficients by realization, region and measure; `rlz_weights`, optional;
* `curve_s0_r0_i0` and so on, optional: the curve of a site, realization and measure.

Sites, realizations and sources are numbered in the order in which they are stored.
-/

namespace SeismicHazard

/-- A realization with a log-linear model for each tectonic region, by the rows of its models. -/
structure StoredRealization (R : Type) where
  id : Nat
  weight : R
  rows : List (String × List (String × LogLinear R))

/-- The realization whose models have the stored rows. -/
def StoredRealization.toRealization {R : Type} [Scalar R] (stored : StoredRealization R) :
    Realization R where
  id := stored.id
  weight := stored.weight
  models := stored.rows.map (fun (region, rows) => (region, LogLinear.model rows))

/-- A job with point sources, as it is stored. -/
structure StoredJob (R : Type) [Scalar R] where
  cfg : Config R
  sites : List (Site R)
  regions : Regions
  sources : List (PointSource R)
  realizations : List (StoredRealization R)
  curves : CurveTable R

namespace StoredJob

variable {R : Type} [Scalar R]

/-- The only branch of a stored job. -/
def branch (stored : StoredJob R) : Branch R where
  id := 0
  regions := stored.regions
  sources := stored.sources.map PointSource.toSource
  realizations := stored.realizations.map StoredRealization.toRealization

/-- A stored job with settings in place of its own. -/
def job (stored : StoredJob R) (cfg : Config R) : Job R where
  cfg := cfg
  sites := stored.sites
  branches := [stored.branch]
  curves := stored.curves

end StoredJob

namespace Bundle

variable {R : Type} [Scalar R]

/-- The first number of an array that must not be empty. -/
def scalar (bundle : Bundle R) (name : String) : Except (Error R) R := do
  match ← bundle.numbers name with
  | [] => bundle.fail (.emptyScalar name)
  | value :: _ => return value

/-- One of the names that are packed in a group of arrays. -/
def name (bundle : Bundle R) (group : String) (data : List UInt8) (places : Int × Int) :
    Except (Error R) String :=
  match slice? data places.1 places.2 with
  | none => bundle.fail (.nameRange group)
  | some bytes =>
      match Text.ofBytes bytes with
      | .ok name => .ok name
      | .error fault => bundle.fail (.nameText fault)

/-- The names that are packed in a group of arrays. -/
def names (bundle : Bundle R) (group : String) : Except (Error R) (List String) := do
  let data ← bundle.bytes s!"{group}_data"
  let places ← bundle.longs s!"{group}_indptr"
  (delimiters places).mapM (bundle.name group data)

/-- The measures with their levels. -/
def measures (bundle : Bundle R) : Except (Error R) (List (String × List R)) := do
  let names ← bundle.names "meta_imt"
  names.zipIdx.mapM (fun (name, k) => do
    return (name, ← bundle.numbers s!"imt{k}_imls"))

/-- The settings that a bundle stores, in place of those of `base`. -/
def config (bundle : Bundle R) (base : Config R) : Except (Error R) (Config R) := do
  let investigationTime ← bundle.scalar "meta_investigation_time"
  let targets ← bundle.numbers "meta_poes_disagg"
  let measures ← bundle.measures
  return { base with investigationTime, targets, measures }

/-- The sites, numbered in order. -/
def sites (bundle : Bundle R) : Except (Error R) (List (Site R)) := do
  let lons ← bundle.numbers "site_lons"
  let lats ← bundle.numbers "site_lats"
  if lons.length != lats.length then bundle.fail .siteLengths
  return (lons.zip lats).zipIdx.map (fun ((lon, lat), id) => { id, location := ⟨lon, lat⟩ })

/-- The name of the region with a number. -/
def regionName? (regions : List String) (index : Int) : Option String :=
  if index < 0 then none else regions[index.toNat]?

/-- The columns of the table of point sources. -/
structure SourceColumns (R : Type) where
  lons : List R
  lats : List R
  depths : List R
  regions : List Int
  places : List Int
  mags : List R
  rates : List R

/-- Reads the columns of the table of point sources. -/
def sourceColumns (bundle : Bundle R) : Except (Error R) (SourceColumns R) := do
  let lons ← bundle.numbers "src_lons"
  let lats ← bundle.numbers "src_lats"
  let depths ← bundle.numbers "src_depths"
  let regions ← bundle.ints "src_trt"
  let places ← bundle.longs "src_mfd_indptr"
  let mags ← bundle.numbers "src_mags"
  let rates ← bundle.numbers "src_rates"
  let n := lons.length
  if lats.length != n || depths.length != n || regions.length != n || places.length != n + 1 then
    bundle.fail .sourceLengths
  return { lons, lats, depths, regions, places, mags, rates }

/-- One row of the table: location, depth, number of the region and places of the magnitudes. -/
structure SourceRow (R : Type) where
  location : Point R
  depth : R
  region : Int
  places : Int × Int

/-- The rows of the table. -/
def SourceColumns.rows (columns : SourceColumns R) : List (SourceRow R) :=
  let points := (columns.lons.zip columns.lats).map (fun (lon, lat) => Point.mk lon lat)
  let attributes := columns.depths.zip (columns.regions.zip (delimiters columns.places))
  (points.zip attributes).map (fun (location, depth, region, places) =>
    { location, depth, region, places })

/-- The point source of a row. -/
def source (bundle : Bundle R) (regions : List String) (timeSpan : R) (bins : List (R × R))
    (row : SourceRow R) (number : Nat) : Except (Error R) (PointSource R) :=
  match regionName? regions row.region with
  | none => bundle.fail (.regionOfSource number row.region)
  | some region =>
      match slice? bins row.places.1 row.places.2 with
      | none => bundle.fail (.magnitudeBins number)
      | some rates =>
          .ok { id := s!"src-{number}", region, location := row.location, depth := row.depth,
                rates, timeSpan }

/-- The point sources, numbered in order. -/
def sources (bundle : Bundle R) (regions : List String) (timeSpan : R) :
    Except (Error R) (List (PointSource R)) := do
  let columns ← bundle.sourceColumns
  let bins := columns.mags.zip columns.rates
  columns.rows.zipIdx.mapM (fun (row, number) => bundle.source regions timeSpan bins row number)

/-- The row of coefficients that starts at a place in the table. -/
def coefficients (table : Array R) (start : Nat) : LogLinear R where
  c0 := table.getD start 0
  c1 := table.getD (start + 1) 0
  c2 := table.getD (start + 2) 0
  c3 := table.getD (start + 3) 0
  sigma := table.getD (start + 4) 0

/-- The rows of realization `r` for region `t`, by measure. -/
def rowsFor (table : Array R) (regions : Nat) (measures : List String) (r t : Nat) :
    List (String × LogLinear R) :=
  measures.zipIdx.map (fun (imt, k) =>
    (imt, coefficients table (((r * regions + t) * measures.length + k) * 5)))

/-- The weights of the realizations, which are equal where none are stored. -/
def weights (bundle : Bundle R) (count : Nat) : Except (Error R) (List R) :=
  if bundle.has "rlz_weights" then bundle.numbers "rlz_weights"
  else do
    reserve count
    return List.replicate count (1 / (count : R))

/-- The realizations, numbered in order. -/
def realizations (bundle : Bundle R) (regions measures : List String) :
    Except (Error R) (List (StoredRealization R)) := do
  let (shape, table) ← bundle.read "rlz_gmpe" 4 ArrayData.doubles?
  let count := shape.headD 0
  if shape != [count, regions.length, measures.length, 5] then
    bundle.fail (.coefficientShape shape)
  let weights ← bundle.weights count
  if weights.length != count then bundle.fail .weights
  let table := table.toArray
  return weights.zipIdx.map (fun (weight, id) =>
    { id, weight
      rows := regions.zipIdx.map (fun (region, t) =>
        (region, rowsFor table regions.length measures id t)) })

/-- Every site, realization and measure, with the number and the levels of the measure. -/
def curveSlots (cfg : Config R) (sites : List (Site R)) (realizations : List Nat) :
    List (CurveKey × Nat × List R) :=
  sites.flatMap (fun site =>
    realizations.flatMap (fun realization =>
      cfg.measures.zipIdx.map (fun ((imt, levels), k) =>
        (⟨site.id, realization, imt⟩, k, levels))))

/-- Adds the curve of a slot, if one is stored. -/
def addCurve (bundle : Bundle R) (scale : InterpolationScale) (table : CurveTable R)
    (slot : CurveKey × Nat × List R) : Except (Error R) (CurveTable R) := do
  let (key, k, levels) := slot
  let name := s!"curve_s{key.site}_r{key.realization}_i{k}"
  if bundle.has name then
    let poes ← bundle.numbers name
    let curve ← HazardCurve.ofPoints levels poes scale
    return table.register key curve
  else return table

/-- The curves of all sites, realizations and measures. -/
def curves (bundle : Bundle R) (cfg : Config R) (sites : List (Site R))
    (realizations : List Nat) : Except (Error R) (CurveTable R) :=
  (curveSlots cfg sites realizations).foldlM (bundle.addCurve cfg.scale) SortedMap.empty

/-- The job that a bundle stores. Settings that it does not store are those of `base`. -/
def load (bundle : Bundle R) (base : Config R) : Except (Error R) (StoredJob R) := do
  let cfg ← bundle.config base
  let regions ← Regions.ofNames (← bundle.names "meta_trt")
  let sites ← bundle.sites
  let sources ← bundle.sources regions.names cfg.investigationTime
  let realizations ← bundle.realizations regions.names cfg.imts
  let curves ← bundle.curves cfg sites (realizations.map StoredRealization.id)
  return { cfg, sites, regions, sources, realizations, curves }

end Bundle

/-- What is found at a path. -/
inductive InputFile (R : Type) where
  | absent
  | directory
  | notAnArchive
  | archive (arrays : List (String × StoredArray R))

namespace InputFile

variable {R : Type} [Scalar R]

/-- The bundle in a file. -/
def bundle (file : InputFile R) (path : String) : Except (Error R) (Bundle R) :=
  match file with
  | absent => .error (.system "No such file or directory (os error 2)")
  | directory => .error (.archive path .isDirectory)
  | notAnArchive => .error (.archive path .notAnArchive)
  | archive arrays => .ok ⟨path, arrays⟩

/-- The job in a file. -/
def load (file : InputFile R) (path : String) (base : Config R) :
    Except (Error R) (StoredJob R) := do
  (← file.bundle path).load base

end InputFile

end SeismicHazard
