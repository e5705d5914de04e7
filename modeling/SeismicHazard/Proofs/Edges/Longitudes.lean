import SeismicHazard.Proofs.Edges.Offsets
import SeismicHazard.Proofs.Edges.Range

/-!
# Longitude edges

Edges of a box are evenly spaced longitudes, from one of its ends moved outward to the other. When
the box is less than half a turn wide, with bins of at most a quarter of one, they reach around every
longitude of the box. When it spans the range, they reach around the antimeridian alone.
-/

noncomputable section

namespace SeismicHazard

open Longitude

namespace Equator

/-- The way between two longitudes is what is left of their difference after whole turns, or a full
turn. -/
theorem way_exact {west east : ℝ} (hway : turn (east - west) ≠ 0) :
    way west east = turn (east - west) := by
  have hnonneg := turn_nonneg (east - west)
  have hlt := turn_lt (east - west)
  simp only [way, extent_exact, Scalar.same_exact, Scalar.zero_exact]
  by_cases hhalf : turn (east - west) < 180
  · rw [if_pos hhalf, if_neg]
    rintro (hneg | ⟨hzero, _⟩)
    · linarith
    · exact hway hzero
  · rw [if_neg hhalf, if_pos (.inl (by linarith))]
    ring

theorem spaced_exact (west east : ℝ) {n : Nat} (hn : 2 ≤ n) :
    spaced west east n = (List.range n).map fun i : Nat =>
      Longitude.normalize (west + way west east / ((n - 1 : Nat) : ℝ) * (i : ℝ)) := by
  obtain ⟨m, rfl⟩ : ∃ m, n = m + 2 := ⟨n - 2, by omega⟩
  rfl

/-- Neighbouring longitudes that follow each other at one distance have steps of this size. -/
theorem steps_map_range' {f : Nat → ℝ} {step : ℝ} (hstep : ∀ i, turn (f (i + 1) - f i) = step)
    (first count : Nat) :
    Binning.steps ((List.range' first (count + 1)).map f) = List.replicate count step := by
  induction count generalizing first with
  | zero => rfl
  | succ count ih =>
      have hcons : (List.range' first (count + 1 + 1)).map f =
          f first :: f (first + 1) :: (List.range' (first + 2) count).map f := rfl
      have hrest : (List.range' (first + 1) (count + 1)).map f =
          f (first + 1) :: (List.range' (first + 2) count).map f := rfl
      rw [hcons, Binning.steps, hstep, ← hrest, ih, List.replicate_succ]

theorem steps_spaced {west east : ℝ} {n : Nat} (hway : turn (east - west) ≠ 0) (hn : 0 < n) :
    Binning.steps (spaced west east (n + 1)) = List.replicate n (turn (east - west) / n) := by
  have hone : (1 : ℝ) ≤ n := by exact_mod_cast hn
  have hnonneg := turn_nonneg (east - west)
  have hlt := turn_lt (east - west)
  -- a step is not longer than the way, so it is its own remainder
  have hstep : ∀ i : Nat, turn
      (Longitude.normalize (west + way west east / (n : ℝ) * ((i + 1 : Nat) : ℝ)) -
        Longitude.normalize (west + way west east / (n : ℝ) * (i : ℝ))) =
      turn (east - west) / n := by
    intro i
    rw [turn_normalize_sub, way_exact hway]
    have hle : turn (east - west) / n ≤ turn (east - west) := div_le_self hnonneg hone
    refine turn_eq_of 0 ?_ (div_nonneg hnonneg (by positivity)) (hle.trans_lt hlt)
    push_cast
    ring
  rw [spaced_exact west east (by omega), Nat.add_sub_cancel, List.range_eq_range']
  exact steps_map_range' hstep 0 n

/-- Evenly spaced longitudes span the way between their ends. -/
theorem span_spaced {west east : ℝ} {n : Nat} (hn : 2 ≤ n) (hway : turn (east - west) ≠ 0) :
    Binning.span (spaced west east n) = turn (east - west) := by
  obtain ⟨m, rfl⟩ : ∃ m, n = m + 1 := ⟨n - 1, by omega⟩
  have hpos : (m : ℝ) ≠ 0 := by exact_mod_cast (by omega : m ≠ 0)
  rw [Binning.span_eq_sum, steps_spaced hway (by omega), List.sum_replicate, nsmul_eq_mul,
    mul_div_cancel₀ _ hpos]

/-- Offsets of evenly spaced longitudes are evenly spaced. -/
theorem offsets_spaced {west east : ℝ} {n : Nat} (hway : turn (east - west) ≠ 0) (hn : 0 < n) :
    Binning.offsets (spaced west east (n + 1)) =
      (List.range (n + 1)).map fun k : Nat => k * (turn (east - west) / n) := by
  have hnonempty : spaced west east (n + 1) ≠ [] :=
    List.ne_nil_of_length_pos (by rw [length_spaced]; omega)
  rw [Binning.offsets_eq_sums hnonempty, length_spaced, steps_spaced hway hn]
  apply List.map_congr_left
  intro k hk
  have hle : k ≤ n := Nat.le_of_lt_succ (List.mem_range.1 hk)
  rw [List.take_replicate, Nat.min_eq_left hle, List.sum_replicate, nsmul_eq_mul]

/-- Spaced longitudes are normalized from places along the way. -/
theorem exists_of_mem_spaced {west east : ℝ} {n : Nat} (hway : turn (east - west) ≠ 0)
    (hn : 0 < n) {lon : ℝ} (hlon : lon ∈ spaced west east (n + 1)) :
    ∃ place, 0 ≤ place ∧ place ≤ turn (east - west) ∧
      lon = Longitude.normalize (west + place) := by
  rw [spaced_exact west east (by omega), Nat.add_sub_cancel, way_exact hway] at hlon
  obtain ⟨i, hi, rfl⟩ := List.mem_map.1 hlon
  have hpos : (0 : ℝ) < n := by exact_mod_cast hn
  have hle : (i : ℝ) ≤ n := by exact_mod_cast Nat.le_of_lt_succ (List.mem_range.1 hi)
  have hnonneg := turn_nonneg (east - west)
  refine ⟨turn (east - west) / n * i, by positivity, ?_, rfl⟩
  calc turn (east - west) / n * i ≤ turn (east - west) / n * n :=
        mul_le_mul_of_nonneg_left hle (by positivity)
    _ = turn (east - west) := div_mul_cancel₀ _ hpos.ne'

theorem head?_spaced (west east : ℝ) {n : Nat} (hn : 2 ≤ n) :
    (spaced west east n).head? = some (Longitude.normalize west) := by
  rw [spaced_exact west east hn, List.head?_map, List.head?_range, if_neg (by omega)]
  simp

end Equator

namespace Edges

variable {box : BoundingBox ℝ} {width : ℝ}

/-- The west and the east edge moved outward to multiples of a width. -/
def snappedWest (box : BoundingBox ℝ) (width : ℝ) : ℝ := ⌊box.west / width⌋ * width

def snappedEast (box : BoundingBox ℝ) (width : ℝ) : ℝ := ⌈box.east / width⌉ * width

theorem snapped_exact (box : BoundingBox ℝ) (width : ℝ) :
    snapped box width =
      if turn (snappedEast box width - snappedWest box width) = 0 then
        (snappedWest box width, Longitude.normalize (snappedWest box width + width), width)
      else
        (snappedWest box width, snappedEast box width,
          turn (snappedEast box width - snappedWest box width)) := by
  rw [← eastward_exact, snapped]
  simp only [Scalar.same_exact, Scalar.zero_exact]
  rfl

theorem snapped_west (box : BoundingBox ℝ) (width : ℝ) :
    (snapped box width).1 = snappedWest box width := by
  rw [snapped_exact]
  split
  next => rfl
  next => rfl

/-- How far a box is moved outward at either end. -/
theorem snapped_mem (box : BoundingBox ℝ) (hwidth : 0 < width) :
    0 ≤ box.west - snappedWest box width ∧ box.west - snappedWest box width < width ∧
      0 ≤ snappedEast box width - box.east ∧ snappedEast box width - box.east < width := by
  have hfloor := Int.floor_le (box.west / width)
  have hfloor' := Int.lt_floor_add_one (box.west / width)
  have hceil := Int.le_ceil (box.east / width)
  have hceil' := Int.ceil_lt_add_one (box.east / width)
  rw [le_div_iff₀ hwidth] at hfloor
  rw [div_lt_iff₀ hwidth] at hfloor'
  rw [div_le_iff₀ hwidth] at hceil
  rw [← sub_lt_iff_lt_add, lt_div_iff₀ hwidth] at hceil'
  rw [snappedWest, snappedEast]
  refine ⟨by linarith, by linarith, by linarith, by linarith⟩

/-- Moving a box outward by less than a quarter of a turn at either end leaves it less than a full
turn wide. -/
theorem turn_snapped (hwidth : 0 < width) (hquarter : width ≤ 90)
    (hbox : turn (box.east - box.west) < 180) :
    turn (snappedEast box width - snappedWest box width) =
      box.west - snappedWest box width + turn (box.east - box.west) +
        (snappedEast box width - box.east) := by
  obtain ⟨hwest, hwest', heast, heast'⟩ := snapped_mem box hwidth
  obtain ⟨k, hk⟩ := exists_turn (box.east - box.west)
  have hnonneg := turn_nonneg (box.east - box.west)
  exact turn_eq_of k (by linarith) (by linarith) (by linarith)

/-- A longitude has a bin between the edges of a box, which encloses its eastward way from the first
edge unless that is longer than the way to the last one. -/
theorem encloses_ofBox {lon lat : List ℝ} (hedges : ofBox box width = .ok (lon, lat)) (value : ℝ) :
    ∃ i west, lon.head? = some west ∧
      Binning.lonBin lon (Binning.offsets lon) value = .ok i ∧
      (Binning.Encloses (Binning.offsets lon) i (turn (value - west)) ↔
        turn (value - west) ≤ Binning.span lon) := by
  obtain ⟨⟨n, hn, rfl⟩, _⟩ := ofBox_eq_ok hedges
  exact Binning.encloses_lon (by rw [Equator.length_spaced]; exact hn) value

/-- The edges of a box of less than half a turn reach around all longitudes of the box, when they
are at most a quarter of a turn apart. -/
theorem turn_le_span (hwidth : 0 < width) (hquarter : width ≤ 90)
    (hbox : turn (box.east - box.west) < 180) {lon lat : List ℝ}
    (hedges : ofBox box width = .ok (lon, lat)) {west : ℝ} (hhead : lon.head? = some west)
    {value : ℝ} (hvalue : turn (value - box.west) ≤ turn (box.east - box.west)) :
    turn (value - west) ≤ Binning.span lon := by
  obtain ⟨⟨n, hn, rfl⟩, _⟩ := ofBox_eq_ok hedges
  rw [Equator.head?_spaced _ _ hn, Option.some.injEq, snapped_west] at hhead
  obtain ⟨hwest, hwest', heast, heast'⟩ := snapped_mem box hwidth
  obtain ⟨k, hk⟩ := exists_turn (value - box.west)
  have hnonneg := turn_nonneg (value - box.west)
  have hway := turn_snapped hwidth hquarter hbox
  have hturn : turn (value - snappedWest box width) =
      box.west - snappedWest box width + turn (value - box.west) :=
    turn_eq_of k (by linarith) (by linarith) (by linarith)
  rw [← hhead, turn_sub_normalize, snapped_exact]
  split
  next hzero =>
    refine le_trans ?_ (Binning.span_nonneg _)
    linarith
  next hzero =>
    rw [Equator.span_spaced hn hzero, hway, hturn]
    linarith

/-- A box without extent has edges one bin apart. -/
theorem span_of_closed (hwidth : 0 < width) (hlt : width < 360)
    (hclosed : turn (snappedEast box width - snappedWest box width) = 0) {lon lat : List ℝ}
    (hedges : ofBox box width = .ok (lon, lat)) : Binning.span lon = width := by
  obtain ⟨⟨n, hn, rfl⟩, _⟩ := ofBox_eq_ok hedges
  obtain ⟨k, hk⟩ := exists_normalize (snappedWest box width + width)
  have hway : turn (Longitude.normalize (snappedWest box width + width) - snappedWest box width) =
      width := turn_eq_of k (by rw [hk]; ring) hwidth.le hlt
  rw [snapped_exact, if_pos hclosed, Equator.span_spaced hn (by rw [hway]; exact hwidth.ne'), hway]

/-- Half a turn, rounded up to whole bins. -/
def halfTurn (width : ℝ) : ℝ := ⌈180 / width⌉ * width

theorem halfTurn_mem (hwidth : 0 < width) :
    180 ≤ halfTurn width ∧ halfTurn width < 180 + width := by
  have hceil := Int.le_ceil (180 / width)
  have hceil' := Int.ceil_lt_add_one (180 / width)
  rw [div_le_iff₀ hwidth] at hceil
  rw [← sub_lt_iff_lt_add, lt_div_iff₀ hwidth] at hceil'
  unfold halfTurn
  exact ⟨hceil, by linarith⟩

/-- How far the edges of a box from one end of the range to the other reach: one bin, or to where
the last edge lies beyond the antimeridian. -/
def endsSpan (width : ℝ) : ℝ := if halfTurn width = 180 then width else 2 * halfTurn width - 360

/-- The edges of a box that spans the range reach around the antimeridian alone. -/
theorem turn_le_span_of_ends (hwidth : 0 < width) (hquarter : width ≤ 90) (hwest : box.west = -180)
    (heast : box.east = 180) {lon lat : List ℝ} (hedges : ofBox box width = .ok (lon, lat))
    {west : ℝ} (hhead : lon.head? = some west) (value : ℝ) :
    turn (value - west) ≤ Binning.span lon ↔
      turn (value + halfTurn width) ≤ endsSpan width := by
  obtain ⟨hle, hlt⟩ := halfTurn_mem hwidth
  have hfirst : snappedWest box width = -halfTurn width := by
    rw [snappedWest, hwest, neg_div, Int.floor_neg, halfTurn]
    push_cast
    ring
  have hlast : snappedEast box width = halfTurn width := by
    rw [snappedEast, heast, halfTurn]
  -- the way around is more than a full turn, which is taken off
  have hway : turn (snappedEast box width - snappedWest box width) = 2 * halfTurn width - 360 := by
    rw [hfirst, hlast]
    exact turn_eq_of 1 (by push_cast; ring) (by linarith) (by linarith)
  have hhead' : turn (value - west) = turn (value + halfTurn width) := by
    obtain ⟨⟨n, hn, rfl⟩, _⟩ := ofBox_eq_ok hedges
    rw [Equator.head?_spaced _ _ hn, Option.some.injEq, snapped_west, hfirst] at hhead
    rw [← hhead, turn_sub_normalize, sub_neg_eq_add]
  rw [hhead', endsSpan]
  by_cases hclosed : halfTurn width = 180
  · rw [if_pos hclosed, span_of_closed hwidth (by linarith) (by rw [hway]; linarith) hedges]
  · have hzero : turn (snappedEast box width - snappedWest box width) ≠ 0 := by
      intro h
      apply hclosed
      linarith
    obtain ⟨⟨n, hn, rfl⟩, _⟩ := ofBox_eq_ok hedges
    rw [if_neg hclosed, snapped_exact, if_neg hzero, Equator.span_spaced hn hzero, hway]

end Edges

end SeismicHazard

end
