import Mathlib
import SeismicHazard.Numeric.Scalar

/-!
# The standard normal distribution

Statements about bands range over every increasing function in place of the distribution function of
the standard normal distribution. Here is that function itself, as one of them.
-/

noncomputable section

namespace SeismicHazard.Sample

open ProbabilityTheory MeasureTheory

/-- The distribution function of the standard normal distribution. -/
scoped instance normalCdf : NormalCdf ℝ where
  cdf := cdf (gaussianReal 0 1)

/-- The normal distribution has something between any two numbers. -/
theorem normalCdf_strictMono : StrictMono (NormalCdf.cdf (R := ℝ)) := by
  intro x y hxy
  change cdf (gaussianReal 0 1) x < cdf (gaussianReal 0 1) y
  rw [cdf_eq_real, cdf_eq_real]
  have hne : gaussianReal 0 1 (Set.Ioc x y) ≠ 0 := by
    intro hzero
    have hvolume := gaussianReal_absolutelyContinuous' 0 one_ne_zero hzero
    rw [Real.volume_Ioc, ENNReal.ofReal_eq_zero] at hvolume
    linarith
  have hpos : 0 < (gaussianReal 0 1).real (Set.Ioc x y) :=
    ENNReal.toReal_pos hne (measure_ne_top _ _)
  have hsplit : (gaussianReal 0 1).real (Set.Iic y) =
      (gaussianReal 0 1).real (Set.Iic x) + (gaussianReal 0 1).real (Set.Ioc x y) := by
    rw [← measureReal_union (Set.Iic_disjoint_Ioc le_rfl) measurableSet_Ioc,
      Set.Iic_union_Ioc_eq_Iic hxy.le]
  linarith

end SeismicHazard.Sample

end
