import SeismicHazard.Job
import SeismicHazard.Proofs.Collection.Nearby
import SeismicHazard.Proofs.Config
import SeismicHazard.Proofs.Edges.Coverage

/-!
# Sample settings

Sources with one rupture each at the same place, a curve with a single point, and settings that are
accepted. What is built from any number of them is known exactly, so that statements about jobs can
be tried out.
-/

noncomputable section

namespace SeismicHazard

namespace Sample

open Longitude

/-- A rupture 15 km away from wherever one stands. -/
def rupture (rate : ℝ) : Rupture ℝ where
  mag := 11 / 2
  distanceTo _ := 15
  closestPoint _ := ⟨1 / 2, 1 / 2⟩
  occurrence := .poissonian rate 50

def source (id : String) (rate : ℝ) : Source ℝ where
  id := id
  region := "Crust"
  distanceTo _ := 15
  ruptures := .ok [rupture rate]
  isParametric := true

/-- A model that predicts the same everywhere. -/
def model : GroundMotionModel ℝ where
  predict _ _ _ := .ok { mean := 0, stddev := 1 / 2 }

/-- A curve with a single point. -/
def curve : HazardCurve ℝ where
  levels := [1]
  poes := [1 / 10]
  scale := .linear
  accepted := by
    have hpoe : Scalar.isProbability (10⁻¹ : ℝ) = true :=
      (Scalar.isProbability_exact _).2 (by norm_num)
    simp [HazardCurve.fault?, HazardCurve.allNeighbours, hpoe]

def branch (sources : List (Source ℝ)) : Branch ℝ where
  id := 0
  regions := ⟨["Crust"], List.nodup_singleton _⟩
  sources := sources
  realizations := [{ id := 0, weight := 1, models := [("Crust", model)] }]

def cfg (targets : List ℝ) (sourcesPerTask : Nat) : Config ℝ where
  magBinWidth := 1
  distanceBinWidth := 10
  coordinateBinWidth := 1
  truncationLevel := 3
  epsilonBins := 1
  maximumDistance := 200
  investigationTime := 50
  targets := targets
  measures := [("PGA", [1])]
  extrapolation := .clamp
  scale := .linear
  sourcesPerTask := sourcesPerTask

/-- A job with one site and one branch. -/
def job (targets : List ℝ) (sourcesPerTask : Nat) (sources : List (Source ℝ)) : Job ℝ where
  cfg := cfg targets sourcesPerTask
  sites := [⟨0, ⟨0, 0⟩⟩]
  branches := [branch sources]
  curves := SortedMap.empty.insert ⟨0, 0, "PGA"⟩ curve

variable {targets : List ℝ} {n : Nat} {a b : String} {r s : ℝ}

/-- The edges around the one rupture of the sources. -/
def edges : BinEdges ℝ where
  mag := [5, 6]
  dist := [10, 20]
  lon := [0, 1]
  lat := [0, 1]
  eps := [-3, 3]

theorem cfg_accepted (htargets : targets ≠ []) (hisTarget : ∀ poe ∈ targets, 0 < poe ∧ poe ≤ 1)
    (hn : 0 < n) : (cfg targets n).Accepted := by
  constructor <;> norm_num [cfg] <;> assumption

theorem turn_one : turn 1 = 1 := turn_eq_self (by norm_num) (by norm_num)

theorem ofBox_half :
    Edges.ofBox (⟨1 / 2, 1 / 2, 1 / 2, 1 / 2⟩ : BoundingBox ℝ) 1 = .ok ([0, 1], [0, 1]) := by
  have hsnapped : Edges.snapped (⟨1 / 2, 1 / 2, 1 / 2, 1 / 2⟩ : BoundingBox ℝ) 1 = (0, 1, 1) := by
    rw [Edges.snapped_exact]
    norm_num [Edges.snappedWest, Edges.snappedEast, turn_one]
  have hbins : Scalar.toCount (Scalar.round (1 : ℝ)) = 1 := by
    have hround : Scalar.round (1 : ℝ) = ((1 : ℤ) : ℝ) := by
      change (if (0 : ℝ) ≤ 1 then ((⌊(1 : ℝ) + 1 / 2⌋ : ℤ) : ℝ) else _) = _
      norm_num
    rw [hround]
    change (max 0 (min (Scalar.maxCount : ℤ) (truncated ((1 : ℤ) : ℝ)))).toNat = 1
    rw [truncated, if_pos (by norm_num), Int.floor_intCast]
    decide
  have hlat : Edges.ofRange (1 / 2 : ℝ) (1 / 2) 1 = .ok [0, 1] := by
    rw [Edges.ofRange_of_one (k := 0) (by norm_num) (by norm_num) (by decide) (by decide)]
    norm_num
  have hlon : Equator.points (0 : ℝ) 1 2 = .ok [0, 1] := by
    have hway : Equator.way (0 : ℝ) 1 = 1 := by
      rw [Equator.way_exact] <;> norm_num [turn_one]
    rw [Equator.points, reserve, if_pos (by decide), Equator.spaced_exact _ _ le_rfl, hway]
    norm_num [List.range_succ, Longitude.normalize]
  simp only [Edges.ofBox, hsnapped, div_one, hbins, hlat]
  rw [if_neg (by decide)]
  exact bind_eq_ok.2 ⟨_, hlon, rfl⟩

theorem nearby_source {id : String} {rate : ℝ} {site : Site ℝ} :
    (source id rate).nearby site 200 = [rupture rate] := by
  have hfar : ¬ (200 : ℝ) < 15 := by norm_num
  have hnear : (15 : ℝ) ≤ 200 := by norm_num
  simp [Source.nearby, Source.within, Source.isFar, source, rupture, hfar, hnear]

/-- The extremes of two ruptures at the same place. -/
def spread : Spread ℝ := (Spread.single 15 ⟨1 / 2, 1 / 2⟩).join (Spread.single 15 ⟨1 / 2, 1 / 2⟩)

theorem spread_boundingBox : spread.boundingBox = .ok ⟨1 / 2, 1 / 2, 1 / 2, 1 / 2⟩ := by
  have hof : spread.Of ([(15, ⟨1 / 2, 1 / 2⟩)] ++ [(15, ⟨1 / 2, 1 / 2⟩)]) :=
    (Spread.of_single (15, ⟨1 / 2, 1 / 2⟩)).join (Spread.of_single (15, ⟨1 / 2, 1 / 2⟩))
  have hlat : spread.minLat = 1 / 2 ∧ spread.maxLat = 1 / 2 := by
    simp [spread, Spread.join, Spread.single, Scalar.lesser_exact, Scalar.greater_exact]
  have hbox : BoundingBox.ofPoints spread.decisiveLons
      (List.replicate spread.decisiveLons.length spread.minLat) =
        .ok ⟨1 / 2, 1 / 2, 1 / 2, 1 / 2⟩ := by
    refine BoundingBox.ofPoints_of_same
      (List.ne_nil_of_mem (Spread.mem_decisiveLons.2 (.inl rfl))) (by simp) ?_ ?_ (by norm_num)
    · intro lon hlon
      obtain ⟨x, hx, rfl⟩ := hof.decisive lon hlon
      simp_all
    · intro lat hmem
      rw [List.eq_of_mem_replicate hmem, hlat.1]
  refine bind_eq_ok.2 ⟨_, hbox, ?_⟩
  rw [hlat.2]
  rfl

/-- The edges are built from the two ruptures. -/
theorem edges_built : BinEdges.Built spread ⟨11 / 2, 11 / 2⟩ (cfg targets n) edges := by
  refine ⟨⟨_, spread_boundingBox, ofBox_half⟩, ?_, ?_, ?_⟩
  · change Edges.ofRange (11 / 2 : ℝ) (11 / 2) 1 = .ok [5, 6]
    rw [Edges.ofRange_of_one (k := 5) (by norm_num) (by norm_num) (by decide) (by decide)]
    norm_num
  · have hdist : spread.minDist = 15 ∧ spread.maxDist = 15 := by
      simp [spread, Spread.join, Spread.single, Scalar.lesser_exact, Scalar.greater_exact]
    rw [hdist.1, hdist.2]
    change Edges.ofRange (15 : ℝ) 15 10 = .ok [10, 20]
    rw [Edges.ofRange_of_one (k := 1) (by norm_num) (by norm_num) (by decide) (by decide)]
    norm_num
  · unfold Config.epsilonEdges
    refine bind_eq_ok.2 ⟨(), if_pos (by change 2 ≤ maxNumbers; decide), ?_⟩
    rw [pure_eq_ok]
    change (List.range 2).map (cfg targets n).epsilonEdge = [-3, 3]
    norm_num [List.range_succ, Config.epsilonEdge, cfg]

theorem curve_levelFor (poe : ℝ) : curve.levelFor poe .clamp = .ok 1 := by
  have hascending : curve.ascending = [(1 / 10, 1)] := rfl
  simp only [HazardCurve.levelFor, hascending, List.head?_cons, List.getLast?_singleton]
  split_ifs with houtside hlow hhighest
  · rfl
  · rfl
  · rfl
  · rw [not_or, not_lt, not_lt] at houtside
    exact absurd ((Scalar.same_exact _ _).2 (le_antisymm houtside.2 houtside.1)) hhighest

end Sample

end SeismicHazard

end
