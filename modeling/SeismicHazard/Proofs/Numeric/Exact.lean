import Mathlib
import SeismicHazard.Numeric.Scalar

/-!
# Exact arithmetic

The real numbers as scalars. The rules of the library, read at this instance, are statements about
exact arithmetic: there is no rounding, no overflow of the number itself and no value that is no
number. Whole parts are still held within the bounds that the rules give.
-/

noncomputable section

namespace SeismicHazard

/-- The whole part of a number, toward zero. -/
def truncated (x : ℝ) : ℤ := if 0 ≤ x then ⌊x⌋ else ⌈x⌉

/-- Real numbers with their usual operations. -/
instance exactScalar : Scalar ℝ where
  decidableLT := inferInstance
  decidableLE := inferInstance
  floor x := (⌊x⌋ : ℤ)
  ceil x := (⌈x⌉ : ℤ)
  round x := if 0 ≤ x then (⌊x + 1 / 2⌋ : ℤ) else (⌈x - 1 / 2⌉ : ℤ)
  wholePart lo hi x := max lo (min hi (truncated x))
  remainder x step := x - step * (truncated (x / step) : ℝ)
  sqrt := Real.sqrt
  exp := Real.exp
  log := Real.log
  sin := Real.sin
  cos := Real.cos
  asin := Real.arcsin
  pi := Real.pi
  isFinite _ := true
  order := compare
  order_trans := inferInstance

namespace Scalar

@[simp] theorem isNaN_exact (x : ℝ) : isNaN x = false := by
  simp [isNaN]

@[simp] theorem same_exact (x y : ℝ) : same x y = true ↔ x = y := by
  simp only [same, Bool.and_eq_true, decide_eq_true_eq]
  exact le_antisymm_iff.symm

theorem lesser_exact (x y : ℝ) : lesser x y = min x y := by
  simp only [lesser, isNaN_exact, Bool.false_or, decide_eq_true_eq]
  split
  next hle => exact (min_eq_right hle).symm
  next hlt => exact (min_eq_left (le_of_not_ge hlt)).symm

theorem greater_exact (x y : ℝ) : greater x y = max x y := by
  simp only [greater, isNaN_exact, Bool.false_or, decide_eq_true_eq]
  split
  next hle => exact (max_eq_right hle).symm
  next hlt => exact (max_eq_left (le_of_not_ge hlt)).symm

/-- The zero that the library writes is the zero of the real numbers. -/
@[simp] theorem zero_exact : @OfNat.ofNat ℝ 0 (instOfNat 0) = 0 := Nat.cast_zero

@[simp] theorem one_exact : @OfNat.ofNat ℝ 1 (instOfNat 1) = 1 := Nat.cast_one

theorem isProbability_exact (x : ℝ) : isProbability x = true ↔ 0 ≤ x ∧ x ≤ 1 := by
  simp [isProbability, within]

theorem isPositive_exact (x : ℝ) : isPositive x = true ↔ 0 < x := by
  simp only [isPositive, Bool.and_eq_true, decide_eq_true_eq, zero_exact]
  exact and_iff_right rfl

/-- The remainder that is never negative is what is left after the floor of the quotient. -/
theorem modulo_exact (x : ℝ) {step : ℝ} (hstep : 0 < step) :
    modulo x step = x - step * ⌊x / step⌋ := by
  have hremainder : Scalar.remainder x step = x - step * (truncated (x / step) : ℝ) := rfl
  have hfloor : (⌊x / step⌋ : ℝ) * step ≤ x := (le_div_iff₀ hstep).1 (Int.floor_le _)
  have hceil : x ≤ (⌈x / step⌉ : ℝ) * step := (div_le_iff₀ hstep).1 (Int.le_ceil _)
  simp only [modulo, magnitude, hremainder, truncated, zero_exact, if_neg (not_lt.2 hstep.le)]
  split_ifs with hsign hneg hneg
  · linarith
  · rfl
  · -- below zero the ceiling is one more than the floor, unless the quotient is whole
    have hne : (⌊x / step⌋ : ℝ) ≠ x / step := by
      intro heq
      have hwhole : ⌈x / step⌉ = ⌊x / step⌋ := by
        rw [← heq, Int.ceil_intCast, Int.floor_intCast]
      have hzero : x = (⌊x / step⌋ : ℝ) * step := (div_eq_iff hstep.ne').1 heq.symm
      rw [hwhole] at hneg
      linarith
    have hceil_eq : ⌈x / step⌉ = ⌊x / step⌋ + 1 := by
      refine Int.ceil_eq_iff.2 ⟨?_, ?_⟩
      · push_cast
        linarith [lt_of_le_of_ne (Int.floor_le (x / step)) hne]
      · push_cast
        exact (Int.lt_floor_add_one _).le
    rw [hceil_eq]
    push_cast
    ring
  · have hzero : x = (⌈x / step⌉ : ℝ) * step := by linarith
    have hwhole : x / step = (⌈x / step⌉ : ℝ) := (div_eq_iff hstep.ne').2 hzero
    rw [hwhole, Int.ceil_intCast, Int.floor_intCast]

theorem toLong_floor (x : ℝ) : toLong (Scalar.floor x) = max minLong (min maxLong ⌊x⌋) := by
  have htruncated : truncated ((⌊x⌋ : ℤ) : ℝ) = ⌊x⌋ := by simp [truncated]
  change max minLong (min maxLong (truncated ((⌊x⌋ : ℤ) : ℝ))) = _
  rw [htruncated]

theorem toLong_ceil (x : ℝ) : toLong (Scalar.ceil x) = max minLong (min maxLong ⌈x⌉) := by
  have htruncated : truncated ((⌈x⌉ : ℤ) : ℝ) = ⌈x⌉ := by simp [truncated]
  change max minLong (min maxLong (truncated ((⌈x⌉ : ℤ) : ℝ))) = _
  rw [htruncated]

end Scalar

end SeismicHazard

end
