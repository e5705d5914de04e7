import SeismicHazard.Bundle.Load
import SeismicHazard.Proofs.Keys
import SeismicHazard.Proofs.SortedMap

/-!
# Descriptions of jobs

A job as it is described without arrays, and the loaded job that a description stands for. There is
exactly one.
-/

namespace SeismicHazard

/-- A point source by the name of its region. -/
structure SourceDescription (R : Type) where
  location : Point R
  depth : R
  region : String
  /-- Magnitudes and annual rates. -/
  rates : List (R × R)

/-- What there is to say about a job. Sites, realizations, regions and measures go by their numbers
in coefficients and curves. -/
structure JobDescription (R : Type) where
  investigationTime : R
  targets : List R
  /-- The names of the measures with the levels of their curves. -/
  measures : List (String × List R)
  regions : List String
  sites : List (Point R)
  sources : List (SourceDescription R)
  /-- The number of realizations. -/
  realizations : Nat
  /-- The coefficients of a realization for a region and measure. -/
  coefficients (r t k : Nat) : LogLinear R
  weights : Option (List R)
  /-- The probabilities on the curve of a site, realization and measure, if there is one. -/
  curve? (s r k : Nat) : Option (List R)

namespace JobDescription

variable {R : Type}

/-- The names of the measures. -/
def imts (d : JobDescription R) : List String := d.measures.map Prod.fst

theorem getElem?_imts {d : JobDescription R} {k : Nat} {imt : String} {levels : List R}
    (hmeasure : d.measures[k]? = some (imt, levels)) : d.imts[k]? = some imt := by
  rw [imts, List.getElem?_map, hmeasure, Option.map_some]

variable [Scalar R]

/-- What a curve may say about levels: as many probabilities, none of them above the one before,
and not all of them zero. -/
structure IsCurve (levels poes : List R) : Prop where
  length_eq : levels.length = poes.length
  probabilities : ∀ p ∈ poes, Scalar.isProbability p = true
  decreasing : poes.IsChain fun a b => ¬ a < b
  nonzero : ∃ p ∈ poes, Scalar.same p 0 = false

/-- Descriptions of jobs. -/
structure WellFormed (d : JobDescription R) : Prop where
  imts : d.imts.Nodup
  regions : d.regions.Nodup
  increasing : ∀ measure ∈ d.measures, measure.2.IsChain (· < ·)
  positive : ∀ measure ∈ d.measures, ∀ level ∈ measure.2, ¬ level ≤ 0
  declared : ∀ source ∈ d.sources, source.region ∈ d.regions
  weights : ∀ weights, d.weights = some weights → weights.length = d.realizations
  /-- Loading makes a list of the equal weights. Only where there are no regions or measures can it
  be longer than the table of coefficients, and there has to be room for it too. -/
  room : d.weights = none → d.realizations ≤ maxNumbers
  curves : ∀ s r k imt levels poes, s < d.sites.length → r < d.realizations →
    d.measures[k]? = some (imt, levels) → d.curve? s r k = some poes → IsCurve levels poes

variable (d : JobDescription R)

/-- The settings of the job, those that it does not describe being taken from others. -/
def config (base : Config R) : Config R :=
  { base with investigationTime := d.investigationTime, targets := d.targets,
              measures := d.measures }

/-- The sites, numbered in order. -/
def numberedSites : List (Site R) := d.sites.zipIdx.map fun (location, id) => { id, location }

/-- The sources, named by their numbers. -/
def pointSources : List (PointSource R) :=
  d.sources.zipIdx.map fun (source, number) =>
    { id := s!"src-{number}", region := source.region, location := source.location,
      depth := source.depth, rates := source.rates, timeSpan := d.investigationTime }

/-- The weights of the realizations, which are equal where none are described. -/
def allWeights : List R :=
  d.weights.getD (List.replicate d.realizations (1 / (d.realizations : R)))

/-- The coefficients of a realization for a region, by measure. -/
def measureRows (r t : Nat) : List (String × LogLinear R) :=
  d.imts.zipIdx.map fun (imt, k) => (imt, d.coefficients r t k)

/-- The coefficients of a realization by region and measure. -/
def regionRows (r : Nat) : List (String × List (String × LogLinear R)) :=
  d.regions.zipIdx.map fun (region, t) => (region, d.measureRows r t)

/-- The realizations, numbered in order. -/
def storedRealizations : List (StoredRealization R) :=
  d.allWeights.zipIdx.map fun (weight, r) => { id := r, weight, rows := d.regionRows r }

/-- The curve that the job has under a key. -/
structure HasCurve (scale : InterpolationScale) (key : CurveKey) (curve : HazardCurve R) :
    Prop where
  site : key.site < d.sites.length
  realization : key.realization < d.realizations
  measure : ∃ k, d.measures[k]? = some (key.imt, curve.levels) ∧
    d.curve? key.site key.realization k = some curve.poes
  scale_eq : curve.scale = scale

/-- A job is the described one, with the remaining settings of `base`. -/
structure Describes (base : Config R) (stored : StoredJob R) : Prop where
  cfg : stored.cfg = d.config base
  sites : stored.sites = d.numberedSites
  regions : stored.regions.names = d.regions
  sources : stored.sources = d.pointSources
  realizations : stored.realizations = d.storedRealizations
  /-- Every realization predicts with its own coefficients for a region and measure. -/
  models : ∀ realization ∈ stored.realizations, ∀ t region, d.regions[t]? = some region →
    ∃ model, realization.toRealization.model region = .ok model ∧
      ∀ k imt levels, d.measures[k]? = some (imt, levels) → ∀ mag distance,
        model.predict mag distance imt =
          (d.coefficients realization.id t k).predict mag distance
  curves : ∀ key curve, stored.curves.get? key = some curve ↔ d.HasCurve base.scale key curve

variable {d}

/-- There is only one job that a description describes. -/
theorem Describes.unique {base : Config R} {stored other : StoredJob R}
    (hstored : d.Describes base stored) (hother : d.Describes base other) : stored = other := by
  have hregions : stored.regions = other.regions := by
    have hnames := hstored.regions.trans hother.regions.symm
    cases hs : stored.regions
    cases ho : other.regions
    simp_all
  have hcurves : stored.curves = other.curves := by
    apply SortedMap.ext_get?
    intro key
    apply Option.ext
    intro curve
    rw [hstored.curves, hother.curves]
  cases stored
  cases other
  rw [StoredJob.mk.injEq]
  exact ⟨hstored.cfg.trans hother.cfg.symm, hstored.sites.trans hother.sites.symm, hregions,
    hstored.sources.trans hother.sources.symm,
    hstored.realizations.trans hother.realizations.symm, hcurves⟩

end JobDescription

end SeismicHazard
