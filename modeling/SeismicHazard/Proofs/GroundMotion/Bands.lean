import SeismicHazard.GroundMotion.Bands
import SeismicHazard.Proofs.Numeric.Exact
import SeismicHazard.Proofs.Outcome

/-!
# Probabilities of bands

Each band has the share of the truncated distribution that lies in it and above the level. The upper
edge of a band is the lower edge of the next one, so the bands sum to the probability that the
truncated distribution exceeds the level, and every band has less of it the higher the level is.
-/

noncomputable section

namespace SeismicHazard

theorem Scalar.clamp_exact {lo hi : ℝ} (hle : lo ≤ hi) (x : ℝ) :
    Scalar.clamp lo hi x = max lo (min hi x) := by
  unfold Scalar.clamp
  split_ifs with hlow hhigh
  · rw [min_eq_right (hlow.le.trans hle), max_eq_left hlow.le]
  · rw [min_eq_left hhigh.le, max_eq_right hle]
  · rw [min_eq_right (not_lt.1 hhigh), max_eq_right (not_lt.1 hlow)]

namespace Bands

section General

variable {R : Type} [Scalar R] [NormalCdf R] {prediction : Prediction R} {level truncation : R}
  {n : Nat} {bands : List R}

/-- There are bands exactly where spread and level are positive and there is room. -/
theorem exceedances_eq_ok_iff :
    exceedances prediction level truncation n = .ok bands ↔
      Scalar.isPositive prediction.stddev = true ∧ Scalar.isPositive level = true ∧
        n.nextPowerOfTwo ≤ maxNumbers ∧
        bands = (List.range n).map (probability truncation n (threshold prediction level)) := by
  rw [exceedances]
  by_cases hstddev : Scalar.isPositive prediction.stddev = true
  · by_cases hlevel : Scalar.isPositive level = true
    · by_cases hroom : n.nextPowerOfTwo ≤ maxNumbers
      · simp [hstddev, hlevel, hroom, reserve, eq_comm]
      · simp [hstddev, hlevel, hroom, reserve]
    · simp [hstddev, hlevel]
  · simp [hstddev]

theorem length_exceedances (hbands : exceedances prediction level truncation n = .ok bands) :
    bands.length = n := by
  obtain ⟨_, _, _, rfl⟩ := exceedances_eq_ok_iff.1 hbands
  simp

end General

/-- The lower edge of band `j` of `n`, which is the upper edge of the band before it. -/
def edge (truncation : ℝ) (n j : Nat) : ℝ := -truncation + 2 * truncation / n * j

theorem edge_zero (truncation : ℝ) (n : Nat) : edge truncation n 0 = -truncation := by
  simp [edge]

theorem edge_self (truncation : ℝ) {n : Nat} (hn : 0 < n) : edge truncation n n = truncation := by
  have hne : (n : ℝ) ≠ 0 := Nat.cast_ne_zero.2 hn.ne'
  rw [edge, div_mul_cancel₀ _ hne]
  ring

theorem edge_mono {truncation : ℝ} (htruncation : 0 ≤ truncation) (n : Nat) :
    Monotone (edge truncation n) := by
  intro j k hjk
  have hwidth : 0 ≤ 2 * truncation / n := by positivity
  have hcast : (j : ℝ) ≤ k := Nat.cast_le.2 hjk
  unfold edge
  gcongr

variable [NormalCdf ℝ]

/-- The probability that the standard normal distribution lies below both an edge and a level, as
far as it lies between the truncations. -/
def below (truncation : ℝ) (n : Nat) (z : ℝ) (j : Nat) : ℝ :=
  NormalCdf.cdf (max (edge truncation n j) z)

/-- What the truncated distribution keeps of the probability. -/
def mass (truncation : ℝ) : ℝ := NormalCdf.cdf truncation - NormalCdf.cdf (-truncation)

variable {truncation z : ℝ} {n : Nat}

theorem exceedances_eq_ok {prediction : Prediction ℝ} {level : ℝ} {bands : List ℝ} :
    exceedances prediction level truncation n = .ok bands ↔
      0 < prediction.stddev ∧ 0 < level ∧ n.nextPowerOfTwo ≤ maxNumbers ∧
        bands = (List.range n).map (probability truncation n (threshold prediction level)) := by
  rw [exceedances_eq_ok_iff, Scalar.isPositive_exact, Scalar.isPositive_exact]

/-- What is in a band is a probability. -/
theorem probability_mem (truncation z : ℝ) (n j : Nat) :
    0 ≤ probability truncation n z j ∧ probability truncation n z j ≤ 1 := by
  simp only [probability, Scalar.zero_exact, Scalar.one_exact]
  split
  next => exact ⟨le_rfl, zero_le_one⟩
  next =>
    rw [Scalar.clamp_exact zero_le_one]
    exact ⟨le_max_left _ _, max_le zero_le_one (min_le_left _ _)⟩

/-- A band that ends below the level is no case of its own. -/
theorem probability_eq (htruncation : 0 ≤ truncation) (n : Nat) (z : ℝ) (j : Nat) :
    probability truncation n z j = max 0
      (min 1 ((below truncation n z (j + 1) - below truncation n z j) / mass truncation)) := by
  have hedges : edge truncation n j ≤ edge truncation n (j + 1) :=
    edge_mono htruncation n (Nat.le_succ j)
  have hopen : probability truncation n z j =
      if edge truncation n (j + 1) ≤ max (edge truncation n j) z then 0
      else Scalar.clamp 0 1 ((NormalCdf.cdf (edge truncation n (j + 1)) -
        NormalCdf.cdf (max (edge truncation n j) z)) / mass truncation) := by
    simp only [probability, Scalar.greater_exact, Scalar.zero_exact, Scalar.one_exact]
    rfl
  rw [hopen, Scalar.clamp_exact zero_le_one, below, below]
  split
  next hlow =>
    rw [show max (edge truncation n (j + 1)) z = max (edge truncation n j) z from
      le_antisymm (max_le hlow (le_max_right _ _)) (max_le_max_right _ hedges)]
    simp
  next hhigh =>
    rw [max_eq_left ((le_max_right _ _).trans (not_le.1 hhigh).le)]

theorem below_mono (hcdf : Monotone (NormalCdf.cdf (R := ℝ))) (htruncation : 0 ≤ truncation) :
    Monotone (below truncation n z) :=
  fun _ _ hle => hcdf (max_le_max_right _ (edge_mono htruncation n hle))

theorem mass_nonneg (hcdf : Monotone (NormalCdf.cdf (R := ℝ))) (htruncation : 0 ≤ truncation) :
    0 ≤ mass truncation :=
  sub_nonneg.2 (hcdf (neg_le_self htruncation))

/-! ## The sum of the bands -/

/-- The probability that the truncated distribution exceeds a standardized level. -/
def truncatedExceedance (truncation z : ℝ) : ℝ :=
  if z ≤ -truncation then 1
  else if truncation ≤ z then 0
  else (NormalCdf.cdf truncation - NormalCdf.cdf z) /
    (NormalCdf.cdf truncation - NormalCdf.cdf (-truncation))

theorem truncatedExceedance_le_one (hcdf : Monotone (NormalCdf.cdf (R := ℝ)))
    (htruncation : 0 ≤ truncation) (z : ℝ) : truncatedExceedance truncation z ≤ 1 := by
  unfold truncatedExceedance
  split_ifs with hlow hhigh
  · exact le_rfl
  · exact zero_le_one
  · have hlower := hcdf (not_le.1 hlow).le
    exact div_le_one_of_le₀ (sub_le_sub_left hlower _) (mass_nonneg hcdf htruncation)

theorem below_last_sub_first (hcdf : StrictMono (NormalCdf.cdf (R := ℝ)))
    (htruncation : 0 < truncation) (hn : 0 < n) (z : ℝ) :
    (below truncation n z n - below truncation n z 0) / mass truncation =
      truncatedExceedance truncation z := by
  rw [below, below, edge_self _ hn, edge_zero, truncatedExceedance]
  have hends : -truncation < truncation := neg_lt_self htruncation
  split_ifs with hlow hhigh
  · rw [max_eq_left (hlow.trans hends.le), max_eq_left hlow]
    exact div_self (sub_pos.2 (hcdf hends)).ne'
  · rw [max_eq_right hhigh, max_eq_right (hends.le.trans hhigh), sub_self, zero_div]
  · rw [max_eq_left (not_le.1 hhigh).le, max_eq_right (not_le.1 hlow).le]
    rfl

/-- Neither bound of the probabilities is reached from outside. -/
theorem probability_of_strictMono (hcdf : StrictMono (NormalCdf.cdf (R := ℝ)))
    (htruncation : 0 < truncation) (z : ℝ) {j : Nat} (hj : j < n) :
    probability truncation n z j =
      (below truncation n z (j + 1) - below truncation n z j) / mass truncation := by
  have hmono := below_mono (n := n) (z := z) hcdf.monotone htruncation.le
  have hmass := mass_nonneg hcdf.monotone htruncation.le
  have hnonneg : 0 ≤ (below truncation n z (j + 1) - below truncation n z j) / mass truncation :=
    div_nonneg (sub_nonneg.2 (hmono (Nat.le_succ j))) hmass
  have hle : (below truncation n z (j + 1) - below truncation n z j) / mass truncation ≤ 1 :=
    calc
      _ ≤ (below truncation n z n - below truncation n z 0) / mass truncation := by
        gcongr
        · exact hmono hj
        · exact hmono (Nat.zero_le j)
      _ = truncatedExceedance truncation z :=
        below_last_sub_first hcdf htruncation (Nat.zero_lt_of_lt hj) z
      _ ≤ 1 := truncatedExceedance_le_one hcdf.monotone htruncation.le z
  rw [probability_eq htruncation.le, min_eq_right hle, max_eq_right hnonneg]

/-- The bands sum to the probability that the truncated distribution exceeds the level. -/
theorem sum_probability (hcdf : StrictMono (NormalCdf.cdf (R := ℝ))) (htruncation : 0 < truncation)
    (hn : 0 < n) (z : ℝ) :
    ((List.range n).map (probability truncation n z)).sum = truncatedExceedance truncation z := by
  -- what the first bands have ends where the next one starts
  have hfirst : ∀ m ≤ n, ((List.range m).map (probability truncation n z)).sum =
      (below truncation n z m - below truncation n z 0) / mass truncation := by
    intro m
    induction m with
    | zero => simp
    | succ m ih =>
        intro hm
        rw [List.range_succ, List.map_append, List.sum_append, ih (Nat.le_of_succ_le hm),
          List.map_singleton, List.sum_singleton, probability_of_strictMono hcdf htruncation z hm]
        ring
  rw [hfirst n le_rfl, below_last_sub_first hcdf htruncation hn]

/-! ## Higher levels -/

/-- The higher the level, the less of the distribution a band has above it. -/
theorem probability_anti (hcdf : Monotone (NormalCdf.cdf (R := ℝ))) (htruncation : 0 ≤ truncation)
    (n j : Nat) : Antitone fun z => probability truncation n z j := by
  intro z z' hz
  have hedges : edge truncation n j ≤ edge truncation n (j + 1) :=
    edge_mono htruncation n (Nat.le_succ j)
  have hmass := mass_nonneg hcdf htruncation
  have hless : below truncation n z' (j + 1) - below truncation n z' j ≤
      below truncation n z (j + 1) - below truncation n z j := by
    rcases le_total (edge truncation n (j + 1)) z' with hhigh | hlow
    · -- nothing of the band is left above the higher level
      have hnothing : below truncation n z' (j + 1) = below truncation n z' j := by
        rw [below, below, max_eq_right hhigh, max_eq_right (hedges.trans hhigh)]
      rw [hnothing, sub_self]
      exact sub_nonneg.2 (below_mono hcdf htruncation (Nat.le_succ j))
    · have hupper : below truncation n z' (j + 1) = below truncation n z (j + 1) := by
        rw [below, below, max_eq_left hlow, max_eq_left (hz.trans hlow)]
      rw [hupper]
      exact sub_le_sub_left (hcdf (max_le_max_left _ hz)) _
  simp only [probability_eq htruncation]
  gcongr

end Bands

end SeismicHazard

end
