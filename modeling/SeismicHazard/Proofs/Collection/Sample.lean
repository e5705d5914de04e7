import SeismicHazard.Proofs.Collection.Countable
import SeismicHazard.Proofs.GroundMotion.Bands
import SeismicHazard.Proofs.GroundMotion.Normal
import SeismicHazard.Proofs.Numeric.PartialReal

/-!
# Sample settings with values that are no numbers

A site with one target, where magnitudes and predicted means can be any values. Numbers stay numbers
on the way into bins and bands, so a source whose rupture has a magnitude can be counted.
-/

noncomputable section

namespace SeismicHazard

open Scalar PartialReal

/-! ## Numbers stay numbers -/

namespace PartialReal

@[simp] theorem isNaN_add (x y : PartialReal) : isNaN (x + y) = (isNaN x || isNaN y) := by
  cases x with
  | nan => cases y <;> rfl
  | real x =>
      cases y with
      | nan => rw [isNaN_real]; rfl
      | real y => rw [real_add, isNaN_real, isNaN_real, isNaN_real]; rfl

@[simp] theorem isNaN_sub (x y : PartialReal) : isNaN (x - y) = (isNaN x || isNaN y) := by
  cases x with
  | nan => cases y <;> rfl
  | real x =>
      cases y with
      | nan => rw [isNaN_real]; rfl
      | real y => rw [real_sub, isNaN_real, isNaN_real, isNaN_real]; rfl

theorem isNaN_modulo (x : PartialReal) {step : ℝ} (hstep : step ≠ 0) :
    isNaN (modulo x (real step)) = isNaN x := by
  have hremainder : isNaN (remainder x (real step)) = isNaN x := by
    cases x with
    | nan => rfl
    | real x =>
        have hreal : remainder (real x) (real step) = real (remainder x step) := if_neg hstep
        rw [hreal, isNaN_real, isNaN_real]
  have hmagnitude : isNaN (magnitude (real step)) = false := by
    unfold magnitude
    split
    next => rw [real_neg, isNaN_real]
    next => exact isNaN_real step
  simp only [modulo]
  split
  next => rw [isNaN_add, hremainder, hmagnitude, Bool.or_false]
  next => exact hremainder

theorem isNaN_extent (west east : PartialReal) :
    isNaN (Longitude.extent west east) = (isNaN east || isNaN west) := by
  have hturn : isNaN (modulo (east - west + 180) (360 : PartialReal)) =
      isNaN (east - west + 180) := isNaN_modulo _ (by norm_num)
  rw [Longitude.extent, isNaN_sub, hturn, isNaN_add, isNaN_sub, ofNat_eq, isNaN_real]
  simp

theorem isNaN_offset (west span lon : PartialReal) :
    isNaN (Binning.offset west span lon) = (isNaN lon || isNaN west) := by
  simp only [Binning.offset]
  split
  next => rw [isNaN_add, isNaN_extent, ofNat_eq, isNaN_real, Bool.or_false]
  next => exact isNaN_extent west lon

/-- The part of an interval that a number is moved to is a number. -/
theorem exists_clamp (x : ℝ) :
    ∃ y, clamp 0 1 (real x) = real y ∧ 0 ≤ y ∧ y ≤ 1 := by
  simp only [clamp, ofNat_eq, real_lt_real, Nat.cast_zero, Nat.cast_one]
  split_ifs with hlow hhigh
  · exact ⟨0, rfl, le_rfl, zero_le_one⟩
  · exact ⟨1, rfl, zero_le_one, le_rfl⟩
  · exact ⟨x, rfl, not_lt.1 hlow, not_lt.1 hhigh⟩

end PartialReal

namespace Sample

/-- The distribution function, with no value for what is no number. -/
scoped instance partialNormalCdf : NormalCdf PartialReal where
  cdf := PartialReal.map (NormalCdf.cdf (R := ℝ))

/-- Where a truncation keeps something, numbers have bands that are probabilities. -/
theorem exists_probability {truncation : ℝ} (htruncation : 0 < truncation) {n : Nat} (hn : 0 < n)
    (z : ℝ) (j : Nat) : ∃ b, Bands.probability (real truncation) n (real z) j = real b ∧
      0 ≤ b ∧ b ≤ 1 := by
  have hne : (n : ℝ) ≠ 0 := Nat.cast_ne_zero.2 hn.ne'
  have hmass : NormalCdf.cdf truncation - NormalCdf.cdf (-truncation) ≠ 0 :=
    (sub_pos.2 (normalCdf_strictMono (neg_lt_self htruncation))).ne'
  have hedge : ∀ i : Nat, -real truncation + 2 * real truncation / (n : PartialReal) *
      (i : PartialReal) = real (-truncation + 2 * truncation / n * i) := by
    intro i
    rw [ofNat_eq, natCast_eq, natCast_eq, real_mul, real_div _ hne, real_mul, real_neg, real_add]
    rfl
  have hstart : ∃ start, greater (real (-truncation + 2 * truncation / n * j)) (real z) =
      real start := by
    unfold greater
    split
    next => exact ⟨z, rfl⟩
    next => exact ⟨_, rfl⟩
  obtain ⟨start, hstart⟩ := hstart
  have hcdf : ∀ x : ℝ, NormalCdf.cdf (real x) = real (NormalCdf.cdf x) := fun _ => rfl
  simp only [Bands.probability, hedge, hstart]
  split
  next => exact ⟨0, by rw [ofNat_eq, Nat.cast_zero], le_rfl, zero_le_one⟩
  next =>
    rw [real_neg, hcdf, hcdf, hcdf, hcdf, real_sub, real_sub, real_div _ hmass]
    exact exists_clamp _

/-! ## A site with one target -/

/-- A curve with a single point. -/
def partialCurve : HazardCurve PartialReal where
  levels := [real 1]
  poes := [real (1 / 10)]
  scale := .linear
  accepted := by
    have hpoe : isProbability (real 10⁻¹) = true := by
      rw [isProbability_real]
      norm_num
    simp [HazardCurve.fault?, HazardCurve.allNeighbours, hpoe]

/-- A model that predicts the same everywhere. -/
def constantModel (mean : PartialReal) : GroundMotionModel PartialReal where
  predict _ _ _ := .ok { mean := mean, stddev := real (1 / 2) }

/-- A site with one target, and one realization with a model of the given mean. -/
def partialContext (mean : PartialReal) : SiteContext PartialReal where
  cfg :=
    { magBinWidth := real 1
      distanceBinWidth := real 10
      coordinateBinWidth := real 1
      truncationLevel := real 3
      epsilonBins := 1
      maximumDistance := real 200
      investigationTime := real 50
      targets := [real (1 / 10)]
      measures := [("PGA", [real 1])]
      extrapolation := .clamp
      scale := .linear
      sourcesPerTask := 1 }
  regions := ⟨["Crust"], List.nodup_singleton _⟩
  realizations := [{ id := 0, weight := real 1, models := [("Crust", constantModel mean)] }]
  edges :=
    { mag := [real 5, real 6]
      dist := [real 10, real 20]
      lon := [real 0, real 1]
      lat := [real 0, real 1]
      eps := [real (-3), real 3] }
  curves := SortedMap.empty.insert ⟨0, 0, "PGA"⟩ partialCurve

def partialSite : Site PartialReal := ⟨0, ⟨real 0, real 0⟩⟩

def partialTarget : Target PartialReal := ⟨⟨0, ⟨real (1 / 10)⟩, "PGA"⟩, real 1⟩

/-- The key of the target in results. -/
def partialKey : ResultKey PartialReal := ⟨0, 0, ⟨real (1 / 10)⟩, "PGA", ["Crust"]⟩

/-- A rupture 15 km away from wherever one stands. -/
def partialRupture (mag : PartialReal) : Rupture PartialReal where
  mag := mag
  distanceTo _ := real 15
  closestPoint _ := ⟨real (1 / 2), real (1 / 2)⟩
  occurrence := .poissonian (real 1) (real 50)

def partialSource (id : String) (mag : PartialReal) : Source PartialReal where
  id := id
  region := "Crust"
  distanceTo _ := real 15
  ruptures := .ok [partialRupture mag]
  isParametric := true

variable {mean : PartialReal}

theorem partialContext_targets :
    (partialContext mean).targets partialSite = .ok [partialTarget] := by
  have hcurve : (partialContext mean).curves.get? ⟨0, 0, "PGA"⟩ = some partialCurve := by
    rw [partialContext, SortedMap.get?_insert, if_pos rfl]
  have hlevel : partialCurve.levelFor (real (1 / 10)) .clamp = .ok (real 1) := by
    have hascending : partialCurve.ascending = [(real (1 / 10), real 1)] := rfl
    simp [HazardCurve.levelFor, hascending, Scalar.same]
  have htarget : (partialContext mean).target? partialSite (real (1 / 10)) "PGA"
      { id := 0, weight := real 1, models := [("Crust", constantModel mean)] } =
        .ok (some partialTarget) := by
    rw [SiteContext.target?]
    simp only [partialSite, hcurve]
    exact bind_eq_ok.2 ⟨real 1, hlevel, rfl⟩
  exact bind_eq_ok.2 ⟨_, mapM_eq_ok.2 (.cons htarget .nil), rfl⟩

theorem realization_partialContext : ∀ a ∈ (partialContext mean).realizations,
    ∀ b ∈ (partialContext mean).realizations, a.id = b.id → a = b := by
  intro a ha b hb _
  rw [List.mem_singleton.1 ha, List.mem_singleton.1 hb]

theorem nearby_partialSource (id : String) (mag : PartialReal) :
    (partialSource id mag).nearby partialSite (partialContext mean).cfg.maximumDistance =
      [partialRupture mag] := by
  have hfar : (partialSource id mag).isFar partialSite.location (real 200) = false := by
    change decide (real 200 < real 15) = false
    simp only [real_lt_real, decide_eq_false_iff_not]
    norm_num
  have hnear : real 15 ≤ real 200 := by
    rw [real_le_real]
    norm_num
  change (partialSource id mag).nearby partialSite (real 200) = _
  rw [Source.nearby, hfar]
  simp [Source.within, partialSource, partialRupture, hnear]

theorem mem_nearby_partialSource (id : String) (mag : PartialReal) : partialRupture mag ∈
    (partialSource id mag).nearby partialSite (partialContext mean).cfg.maximumDistance := by
  rw [nearby_partialSource]
  exact List.mem_cons_self

/-- A rupture with a magnitude has a cell. -/
theorem exists_cell_partialRupture (mean : PartialReal) (mag : ℝ) : ∃ k,
    Arrangement.cell (partialContext mean).edges (Binning.offsets (partialContext mean).edges.lon)
      (partialContext mean).regions.size
      (Contribution.bare partialSite (partialRupture (real mag)) 0) = .ok k := by
  have hbin : ∀ (x : ℝ) (a b : PartialReal), Succeeds (Binning.bin [a, b] (real x)) :=
    fun x _ _ => Binning.succeeds_bin.2 ⟨isNaN_real x, le_rfl⟩
  obtain ⟨m, hmag⟩ := hbin mag (real 5) (real 6)
  obtain ⟨d, hdist⟩ := hbin 15 (real 10) (real 20)
  obtain ⟨l, hlat⟩ := hbin (1 / 2) (real 0) (real 1)
  obtain ⟨lon, hlon⟩ : Succeeds (Binning.bin (Binning.offsets [real 0, real 1])
      (Binning.offset (real 0) (Binning.spanned [real 0, real 1]) (real (1 / 2)))) := by
    rw [Binning.succeeds_bin, isNaN_offset, Binning.length_offsets (List.cons_ne_nil _ _)]
    simp
  exact ⟨⟨m, d, lon, l, 0⟩, Arrangement.cell_eq_ok.2 ⟨Nat.one_pos, rfl, hmag, hdist,
    Binning.lonBin_eq_ok_iff.2 ⟨isNaN_real _, _, _, rfl, hlon⟩, hlat⟩⟩

/-- A rupture with a magnitude has probabilities for a mean that is a number. -/
theorem exists_bandNonExceedance_partialRupture (mag mu dist : ℝ) : ∃ value,
    Contribution.bandNonExceedance (partialContext (real mu)).cfg (partialRupture (real mag))
      (real dist) (constantModel (real mu)) partialTarget = .ok value ∧
      Collection.Suits (partialContext (real mu)) value.pnes := by
  have hthreshold : Bands.threshold ⟨real mu, real (1 / 2)⟩ (real 1) =
      real ((Real.log 1 - mu) / (1 / 2)) := by
    rw [Bands.threshold, log_real one_pos, real_sub, real_div _ (by norm_num)]
  obtain ⟨b, hb, hnonneg, hle⟩ := exists_probability (three_pos) Nat.one_pos
    ((Real.log 1 - mu) / (1 / 2)) 0
  have hpositive : ∀ x : ℝ, 0 < x → isPositive (real x) = true := by
    intro x hx
    simp only [isPositive, ofNat_eq, real_lt_real, Nat.cast_zero, hx, decide_true, Bool.and_true]
    rfl
  have hbands : Bands.exceedances ⟨real mu, real (1 / 2)⟩ (real 1) (real 3) 1 = .ok [real b] := by
    refine Bands.exceedances_eq_ok_iff.2 ⟨hpositive _ (by norm_num), hpositive _ one_pos, ?_, ?_⟩
    · decide +kernel
    · rw [hthreshold]
      exact (congrArg (fun x => [x]) hb).symm
  have hpne : Scalar.exp (-real 1 * real 50 * real b) = real (Real.exp (-1 * 50 * b)) := rfl
  have hunit : isProbability (real (Real.exp (-1 * 50 * b))) = true := by
    rw [isProbability_real]
    exact ⟨(Real.exp_pos _).le, Real.exp_le_one_iff.2 (by linarith)⟩
  refine ⟨⟨real 1, [real (Real.exp (-1 * 50 * b))]⟩, ?_, ⟨⟨1, 1, 1, 1, 1, 1⟩, rfl, rfl, ?_, rfl⟩⟩
  · exact bind_eq_ok.2 ⟨_, rfl, bind_eq_ok.2 ⟨_, hbands, rfl⟩⟩
  · simpa using hunit

/-- A source whose rupture has a magnitude can be counted. -/
theorem succeeds_shares_partialSource (id : String) (mag mu : ℝ) :
    Succeeds (Collection.shares partialSite (partialContext (real mu))
      (partialSource id (real mag))) := by
  rw [Collection.succeeds_shares_iff (List.cons_ne_nil _ _) partialContext_targets
    realization_partialContext]
  refine ⟨fun _ => ⟨_, rfl⟩, fun rupture hrupture => ?_⟩
  rw [nearby_partialSource, List.mem_singleton] at hrupture
  subst hrupture
  obtain ⟨k, hk⟩ := exists_cell_partialRupture (real mu) mag
  refine ⟨⟨0, k, rfl, hk⟩, fun realization hrealization => ?_⟩
  obtain rfl := List.mem_singleton.1 hrealization
  refine ⟨constantModel (real mu), rfl, fun target htarget _ => ?_⟩
  rw [List.mem_singleton.1 htarget]
  exact exists_bandNonExceedance_partialRupture mag mu 15

end Sample

end SeismicHazard

end
