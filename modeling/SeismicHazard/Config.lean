import SeismicHazard.Capacity
import SeismicHazard.HazardCurve

/-!
# Settings of a disaggregation

Widths of the bins, the truncation of the ground-motion distribution, the targets and the measures
of a job. The settings start from `Config.standard`; targets and measures normally come with the
job.
-/

namespace SeismicHazard

/-- The settings of a disaggregation. -/
structure Config (R : Type) where
  magBinWidth : R
  /-- In kilometres. -/
  distanceBinWidth : R
  /-- In degrees. -/
  coordinateBinWidth : R
  truncationLevel : R
  epsilonBins : Nat
  /-- In kilometres; sources and ruptures farther away than this do not count. -/
  maximumDistance : R
  /-- In years. -/
  investigationTime : R
  /-- The probabilities of exceedance to disaggregate for. -/
  targets : List R
  /-- Intensity measures by name, with the levels of their curves. -/
  measures : List (String × List R)
  extrapolation : Extrapolation
  scale : InterpolationScale
  /-- The number of sources that one task takes. -/
  sourcesPerTask : Nat

namespace Config

open Scalar

variable {R : Type} [Scalar R]

/-- The settings where nothing else is said. -/
def standard : Config R where
  magBinWidth := 1 / 2
  distanceBinWidth := 10
  coordinateBinWidth := 1 / 5
  truncationLevel := 3
  epsilonBins := 6
  maximumDistance := 200
  investigationTime := 50
  targets := [1 / 10]
  measures := []
  extrapolation := .clamp
  scale := .log
  sourcesPerTask := 16

/-- The names of the intensity measures. -/
def imts (cfg : Config R) : List String := cfg.measures.map Prod.fst

/-- The settings that have to be finite and above zero, by name. -/
def lengths (cfg : Config R) : List (String × R) :=
  [("mag_bin_width", cfg.magBinWidth),
   ("distance_bin_width", cfg.distanceBinWidth),
   ("coordinate_bin_width", cfg.coordinateBinWidth),
   ("maximum_distance", cfg.maximumDistance),
   ("investigation_time", cfg.investigationTime)]

/-- A target is a probability of exceedance above zero. -/
def isTarget (poe : R) : Bool := decide (0 < poe) && decide (poe ≤ 1)

/-- The first reason, if any, not to run with these settings. -/
def fault? (cfg : Config R) : Option (ConfigFault R) :=
  match cfg.lengths.find? (fun setting => !isPositive setting.2) with
  | some (setting, value) => some (.notPositive setting value)
  | none =>
      if !isPositive cfg.truncationLevel then some (.truncationLevel cfg.truncationLevel)
      else if cfg.epsilonBins == 0 then some (.lessThanOne "num_epsilon_bins")
      else if cfg.sourcesPerTask == 0 then some (.lessThanOne "sources_per_task")
      else if cfg.targets.isEmpty then some .noTargets
      else
        match cfg.targets.find? (fun poe => !isTarget poe) with
        | some poe => some (.targetOutOfRange poe)
        | none => if cfg.measures.isEmpty then some .noMeasures else none

/-- Refuses settings that cannot be run with. -/
def validate (cfg : Config R) : Except (Error R) Unit :=
  match cfg.fault? with
  | none => .ok ()
  | some fault => .error (.config fault)

/-- The edge number `i` of the bins for epsilon, which divide the truncated distribution evenly. -/
def epsilonEdge (cfg : Config R) (i : Nat) : R :=
  -cfg.truncationLevel + 2 * cfg.truncationLevel * (i : R) / (cfg.epsilonBins : R)

/-- The edges of the bins for epsilon. -/
def epsilonEdges (cfg : Config R) : Except (Error R) (List R) := do
  reserve (cfg.epsilonBins + 1)
  return (List.range (cfg.epsilonBins + 1)).map cfg.epsilonEdge

end Config

end SeismicHazard
