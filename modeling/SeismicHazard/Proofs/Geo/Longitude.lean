import SeismicHazard.Geo.Longitude
import SeismicHazard.Proofs.Numeric.Exact

/-!
# Eastward ways

Eastward ways are differences of longitudes up to whole turns. All that is needed of whole turns is
that a way between no turn and a full one is its own remainder.
-/

noncomputable section

namespace SeismicHazard.Longitude

/-- What is left of an angle, in degrees, after whole turns. -/
def turn (x : ℝ) : ℝ := 360 * Int.fract (x / 360)

theorem turn_nonneg (x : ℝ) : 0 ≤ turn x :=
  mul_nonneg (by norm_num) (Int.fract_nonneg _)

theorem turn_lt (x : ℝ) : turn x < 360 := by
  have hlt := Int.fract_lt_one (x / 360)
  unfold turn
  linarith

theorem turn_add (x : ℝ) (k : ℤ) : turn (x + 360 * k) = turn x := by
  rw [turn, turn, add_div, mul_div_cancel_left₀ _ (by norm_num), Int.fract_add_intCast]

/-- An angle of less than a full turn is left as it is. -/
theorem turn_eq_self {x : ℝ} (hnonneg : 0 ≤ x) (hlt : x < 360) : turn x = x := by
  have hfract : Int.fract (x / 360) = x / 360 :=
    Int.fract_eq_self.2 ⟨by positivity, by rw [div_lt_one (by norm_num)]; exact hlt⟩
  rw [turn, hfract]
  ring

theorem turn_eq_of {x y : ℝ} (k : ℤ) (h : x = y + 360 * k) (hnonneg : 0 ≤ y) (hlt : y < 360) :
    turn x = y := by
  rw [h, turn_add, turn_eq_self hnonneg hlt]

theorem exists_turn (x : ℝ) : ∃ k : ℤ, x = turn x + 360 * k := by
  refine ⟨⌊x / 360⌋, ?_⟩
  rw [turn, ← mul_add, Int.fract_add_floor]
  ring

theorem extent_exact (west east : ℝ) :
    extent west east =
      if turn (east - west) < 180 then turn (east - west) else turn (east - west) - 360 := by
  have hmodulo : extent west east = turn (east - west + 180) - 180 := by
    rw [extent, Scalar.modulo_exact _ (by norm_num), turn, Int.fract]
    ring
  obtain ⟨k, hk⟩ := exists_turn (east - west)
  have hnonneg := turn_nonneg (east - west)
  have hlt := turn_lt (east - west)
  rw [hmodulo]
  split
  next hhalf =>
    rw [turn_eq_of k (y := turn (east - west) + 180) (by linarith) (by linarith) (by linarith)]
    ring
  next hhalf =>
    rw [turn_eq_of (k + 1) (y := turn (east - west) - 180) (by push_cast; linarith) (by linarith)
      (by linarith)]
    ring

theorem extent_add_turn (west east : ℝ) : extent west (east + 360) = extent west east := by
  have hturn : turn (east + 360 - west) = turn (east - west) := by
    rw [show east + 360 - west = east - west + 360 * ((1 : ℤ) : ℝ) by push_cast; ring, turn_add]
  rw [extent_exact, extent_exact, hturn]

theorem extent_nonneg_iff (west east : ℝ) : 0 ≤ extent west east ↔ turn (east - west) < 180 := by
  rw [extent_exact]
  have hnonneg := turn_nonneg (east - west)
  have hlt := turn_lt (east - west)
  split
  next hhalf => exact ⟨fun _ => hhalf, fun _ => hnonneg⟩
  next hhalf => exact ⟨fun h => by linarith, fun h => absurd h hhalf⟩

theorem eastward_exact (west east : ℝ) : eastward west east = turn (east - west) := by
  have hnonneg := turn_nonneg (east - west)
  have hlt := turn_lt (east - west)
  simp only [eastward, extent_exact, Scalar.zero_exact]
  split_ifs with hhalf hneg hneg
  · linarith
  · rfl
  · ring
  · linarith

/-- Normalizing moves a longitude by whole turns. -/
theorem exists_normalize (lon : ℝ) : ∃ k : ℤ, normalize lon = lon + 360 * k := by
  unfold normalize
  split_ifs
  · exact ⟨-1, by push_cast; ring⟩
  · exact ⟨1, by push_cast; ring⟩
  · exact ⟨0, by push_cast; ring⟩

/-- A longitude at most a turn outside the range is moved into it. -/
theorem normalize_mem {lon : ℝ} (hlow : -540 ≤ lon) (hhigh : lon ≤ 540) :
    -180 ≤ normalize lon ∧ normalize lon ≤ 180 := by
  unfold normalize
  split_ifs with heast hwest
  · constructor <;> linarith
  · constructor <;> linarith
  · exact ⟨not_lt.1 hwest, not_lt.1 heast⟩

theorem turn_normalize_sub (a b : ℝ) : turn (normalize b - normalize a) = turn (b - a) := by
  obtain ⟨k, hk⟩ := exists_normalize a
  obtain ⟨l, hl⟩ := exists_normalize b
  rw [hk, hl, show b + 360 * (l : ℝ) - (a + 360 * k) = b - a + 360 * ((l - k : ℤ) : ℝ) by
    push_cast; ring, turn_add]

theorem turn_sub_normalize (a b : ℝ) : turn (b - normalize a) = turn (b - a) := by
  obtain ⟨k, hk⟩ := exists_normalize a
  rw [hk, show b - (a + 360 * (k : ℝ)) = b - a + 360 * ((-k : ℤ) : ℝ) by push_cast; ring, turn_add]

end SeismicHazard.Longitude

end
