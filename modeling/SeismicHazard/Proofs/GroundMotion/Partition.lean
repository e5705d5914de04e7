import SeismicHazard.Config
import SeismicHazard.Proofs.GroundMotion.Bands
import SeismicHazard.Proofs.GroundMotion.Normal

/-!
# Bands between the edges for epsilon

The bands of a rupture are those between the edges for epsilon, although they are computed apart. A
band that ends above the standardized level has its own share of the truncated distribution there
and any other band has nothing, so that the bands divide what the truncated distribution has above
the level among them. The share is a probability, and it grows with the mean and falls with the
level.
-/

noncomputable section

namespace SeismicHazard

namespace Config

/-- The edges for epsilon, as long as a list can hold them. -/
theorem epsilonEdges_eq (cfg : Config ℝ) :
    cfg.epsilonEdges =
      if cfg.epsilonBins + 1 ≤ maxNumbers then
        .ok ((List.range (cfg.epsilonBins + 1)).map cfg.epsilonEdge)
      else .error (.broken .capacity) := by
  unfold epsilonEdges reserve
  split <;> rfl

/-- The edges of the bands are those of the settings. -/
theorem edge_eq_epsilonEdge (cfg : Config ℝ) (i : Nat) :
    Bands.edge cfg.truncationLevel cfg.epsilonBins i = cfg.epsilonEdge i := by
  have hedge : cfg.epsilonEdge i =
      -cfg.truncationLevel + 2 * cfg.truncationLevel * i / cfg.epsilonBins := rfl
  rw [hedge, Bands.edge, div_mul_eq_mul_div]

end Config

namespace Bands

theorem edge_strictMono {truncation : ℝ} (htruncation : 0 < truncation) {n : Nat} (hn : 0 < n) :
    StrictMono (edge truncation n) := by
  intro j k hjk
  have hwidth : 0 < 2 * truncation / n := by positivity
  have hcast : (j : ℝ) < k := Nat.cast_lt.2 hjk
  unfold edge
  gcongr

/-- The higher the mean and the lower the level, the lower the standardized level. -/
theorem threshold_mono {prediction prediction' : Prediction ℝ} {level level' : ℝ}
    (hstddev : 0 < prediction.stddev) (hsame : prediction'.stddev = prediction.stddev)
    (hmean : prediction.mean ≤ prediction'.mean) (hpositive : 0 < level') (hlevel : level' ≤ level) :
    threshold prediction' level' ≤ threshold prediction level := by
  have hlog : Real.log level' ≤ Real.log level := Real.log_le_log hpositive hlevel
  change (Real.log level' - prediction'.mean) / prediction'.stddev ≤
    (Real.log level - prediction.mean) / prediction.stddev
  rw [hsame]
  gcongr

variable [NormalCdf ℝ] {truncation z : ℝ} {n j : Nat} {prediction : Prediction ℝ} {level : ℝ}

/-- The bands of a rupture, as long as a list can hold them. -/
theorem exceedances_eq (hstddev : 0 < prediction.stddev) (hlevel : 0 < level) (truncation : ℝ)
    (n : Nat) :
    exceedances prediction level truncation n =
      if n.nextPowerOfTwo ≤ maxNumbers then
        .ok ((List.range n).map (probability truncation n (threshold prediction level)))
      else .error (.broken .capacity) := by
  have hstddev' := (Scalar.isPositive_exact _).2 hstddev
  have hlevel' := (Scalar.isPositive_exact _).2 hlevel
  simp only [exceedances, hstddev', hlevel', Bool.not_true, Bool.false_eq_true, if_false, reserve]
  split <;> rfl

/-- The share of the truncated distribution that lies between two edges and above a standardized
level. -/
def share (truncation z lower upper : ℝ) : ℝ :=
  (NormalCdf.cdf upper - NormalCdf.cdf (max lower z)) /
    (NormalCdf.cdf truncation - NormalCdf.cdf (-truncation))

/-- What a band between two edges has above a standardized level. -/
structure HasShare (truncation z lower upper band : ℝ) : Prop where
  mem : 0 ≤ band ∧ band ≤ 1
  eq_zero_iff : band = 0 ↔ upper ≤ z
  eq_share : z < upper → band = share truncation z lower upper
  /-- The share is a probability before it is held within zero and one. -/
  clamp_share : z < upper →
    Scalar.clamp 0 1 (share truncation z lower upper) = share truncation z lower upper

theorem share_pos (hcdf : StrictMono (NormalCdf.cdf (R := ℝ))) (htruncation : 0 < truncation)
    {lower upper : ℝ} (hedges : lower < upper) (hlevel : z < upper) :
    0 < share truncation z lower upper :=
  div_pos (sub_pos.2 (hcdf (max_lt hedges hlevel))) (sub_pos.2 (hcdf (neg_lt_self htruncation)))

theorem probability_of_le (hcdf : StrictMono (NormalCdf.cdf (R := ℝ)))
    (htruncation : 0 < truncation) (hj : j < n) (hlevel : edge truncation n (j + 1) ≤ z) :
    probability truncation n z j = 0 := by
  have hlower : edge truncation n j ≤ z := (edge_mono htruncation.le n (Nat.le_succ j)).trans hlevel
  rw [probability_of_strictMono hcdf htruncation z hj, below, below, max_eq_right hlevel,
    max_eq_right hlower, sub_self, zero_div]

theorem probability_of_lt (hcdf : StrictMono (NormalCdf.cdf (R := ℝ)))
    (htruncation : 0 < truncation) (hj : j < n) (hlevel : z < edge truncation n (j + 1)) :
    probability truncation n z j =
      share truncation z (edge truncation n j) (edge truncation n (j + 1)) := by
  rw [probability_of_strictMono hcdf htruncation z hj, below, below, max_eq_left hlevel.le]
  rfl

theorem hasShare_probability (hcdf : StrictMono (NormalCdf.cdf (R := ℝ)))
    (htruncation : 0 < truncation) (hj : j < n) (z : ℝ) :
    HasShare truncation z (edge truncation n j) (edge truncation n (j + 1))
      (probability truncation n z j) := by
  have hmem := probability_mem truncation z n j
  have hedges : edge truncation n j < edge truncation n (j + 1) :=
    edge_strictMono htruncation (Nat.zero_lt_of_lt hj) (Nat.lt_succ_self j)
  refine ⟨hmem, ⟨fun hzero => ?_, probability_of_le hcdf htruncation hj⟩,
    probability_of_lt hcdf htruncation hj, fun hlevel => ?_⟩
  · by_contra hlevel
    rw [probability_of_lt hcdf htruncation hj (not_le.1 hlevel)] at hzero
    exact (share_pos hcdf htruncation hedges (not_le.1 hlevel)).ne' hzero
  · rw [probability_of_lt hcdf htruncation hj hlevel] at hmem
    rw [Scalar.clamp_exact zero_le_one, min_eq_right hmem.2, max_eq_right hmem.1]

/-- The bands of a rupture divide what the truncated distribution has above its level: each has its
share between two edges for epsilon, together they have all of it, and none has less for a higher
mean or a lower level. -/
theorem exceedances_partition (hcdf : StrictMono (NormalCdf.cdf (R := ℝ))) {cfg : Config ℝ}
    (htruncation : 0 < cfg.truncationLevel) (hbins : 0 < cfg.epsilonBins)
    (hstddev : 0 < prediction.stddev) (hlevel : 0 < level) :
    ∃ edges bands,
      cfg.epsilonEdges =
        (if cfg.epsilonBins + 1 ≤ maxNumbers then .ok edges else .error (.broken .capacity)) ∧
      exceedances prediction level cfg.truncationLevel cfg.epsilonBins =
        (if cfg.epsilonBins.nextPowerOfTwo ≤ maxNumbers then .ok bands
          else .error (.broken .capacity)) ∧
      edges.length = cfg.epsilonBins + 1 ∧ bands.length = cfg.epsilonBins ∧
      (∀ j < cfg.epsilonBins, ∃ lower upper band,
        edges[j]? = some lower ∧ edges[j + 1]? = some upper ∧ bands[j]? = some band ∧
          HasShare cfg.truncationLevel ((Real.log level - prediction.mean) / prediction.stddev)
            lower upper band) ∧
      bands.sum = truncatedExceedance cfg.truncationLevel
        ((Real.log level - prediction.mean) / prediction.stddev) ∧
      ∀ mean' level', prediction.mean ≤ mean' → 0 < level' → level' ≤ level →
        ∃ bands',
          exceedances ⟨mean', prediction.stddev⟩ level' cfg.truncationLevel cfg.epsilonBins =
            (if cfg.epsilonBins.nextPowerOfTwo ≤ maxNumbers then .ok bands'
              else .error (.broken .capacity)) ∧
          List.Forall₂ (· ≤ ·) bands bands' := by
  refine ⟨_, _, cfg.epsilonEdges_eq, exceedances_eq hstddev hlevel _ _, by simp, by simp,
    fun j hj => ?_, sum_probability hcdf htruncation hbins _,
    fun mean' level' hmean hpositive hle => ?_⟩
  · have hshare := hasShare_probability hcdf htruncation hj (threshold prediction level)
    rw [cfg.edge_eq_epsilonEdge, cfg.edge_eq_epsilonEdge] at hshare
    refine ⟨_, _, _, ?_, ?_, ?_, hshare⟩
    · rw [List.getElem?_map, List.getElem?_range (by omega), Option.map_some]
    · rw [List.getElem?_map, List.getElem?_range (by omega), Option.map_some]
    · rw [List.getElem?_map, List.getElem?_range hj, Option.map_some]
  · have hstddev' : 0 < (⟨mean', prediction.stddev⟩ : Prediction ℝ).stddev := hstddev
    have hthreshold : threshold ⟨mean', prediction.stddev⟩ level' ≤ threshold prediction level :=
      threshold_mono hstddev rfl hmean hpositive hle
    refine ⟨_, exceedances_eq hstddev' hpositive _ _, ?_⟩
    simp only [List.forall₂_map_left_iff, List.forall₂_map_right_iff, List.forall₂_same]
    intro j _
    exact probability_anti hcdf.monotone htruncation.le _ j hthreshold

end Bands

namespace Sample

theorem standard_epsilonEdge (i : Nat) : (Config.standard : Config ℝ).epsilonEdge i = i - 3 := by
  have hedge : (Config.standard : Config ℝ).epsilonEdge i = -(3 : ℕ) + 2 * (3 : ℕ) * i / (6 : ℕ) :=
    rfl
  rw [hedge]
  push_cast
  ring

/-- The level that is the median of a rupture lies on the edge between the third and the fourth of
six bands: the third has nothing of it, and the fourth all that lies between its edges. -/
theorem bands_of_median :
    StrictMono (NormalCdf.cdf (R := ℝ)) ∧ 0 < (Config.standard : Config ℝ).truncationLevel ∧
      0 < (Config.standard : Config ℝ).epsilonBins ∧ 0 < (⟨0, 1 / 2⟩ : Prediction ℝ).stddev ∧
      (0 : ℝ) < 1 ∧
      ∃ bands : List ℝ, Bands.exceedances (⟨0, 1 / 2⟩ : Prediction ℝ) 1
          (Config.standard : Config ℝ).truncationLevel (Config.standard : Config ℝ).epsilonBins =
            .ok bands ∧
        bands.length = 6 ∧ bands[2]? = some 0 ∧ bands[3]? = some (Bands.share 3 0 0 1) ∧
        bands.sum = Bands.truncatedExceedance 3 0 := by
  have htruncation : (Config.standard : Config ℝ).truncationLevel = 3 := Nat.cast_ofNat
  have htruncation' : 0 < (Config.standard : Config ℝ).truncationLevel := by norm_num [htruncation]
  have hcount : (Config.standard : Config ℝ).epsilonBins = 6 := rfl
  have hbins : 0 < (Config.standard : Config ℝ).epsilonBins := hcount ▸ Nat.succ_pos 5
  have hstddev : 0 < (⟨0, 1 / 2⟩ : Prediction ℝ).stddev := by norm_num
  have hlevel : (Real.log 1 - 0) / (1 / 2) = 0 := by simp
  obtain ⟨edges, bands, hedges, hbands, _, hlength, hshares, hsum, _⟩ :=
    Bands.exceedances_partition normalCdf_strictMono htruncation' hbins hstddev one_pos
  have hroom : (Config.standard : Config ℝ).epsilonBins.nextPowerOfTwo ≤ maxNumbers := by
    rw [hcount]
    decide +kernel
  have hroom' : (Config.standard : Config ℝ).epsilonBins + 1 ≤ maxNumbers := by
    rw [hcount]
    decide
  rw [if_pos hroom] at hbands
  rw [Config.epsilonEdges_eq, if_pos hroom', if_pos hroom', Except.ok.injEq, hcount] at hedges
  rw [hlevel, htruncation] at hshares hsum
  have hedge : ∀ i : ℕ, i < 6 + 1 → edges[i]? = some ((i : ℝ) - 3) := by
    intro i hi
    rw [← hedges, List.getElem?_map, List.getElem?_range hi, Option.map_some, standard_epsilonEdge]
  refine ⟨normalCdf_strictMono, htruncation', hbins, hstddev, one_pos, bands, hbands, hlength, ?_,
    ?_, hsum⟩
  · obtain ⟨_, upper, band, _, hupper, hband, hshare⟩ := hshares 2 (by decide)
    rw [hedge 3 (by decide), Option.some.injEq] at hupper
    rw [hband, hshare.eq_zero_iff.2 (by norm_num [← hupper])]
  · obtain ⟨lower, upper, band, hlower, hupper, hband, hshare⟩ := hshares 3 (by decide)
    rw [hedge 3 (by decide), Option.some.injEq] at hlower
    rw [hedge 4 (by decide), Option.some.injEq] at hupper
    rw [hband, hshare.eq_share (by norm_num [← hupper])]
    norm_num [← hlower, ← hupper]

end Sample

end SeismicHazard

end
