import SeismicHazard.Proofs.Edges.Longitudes

/-!
# Edges around a box

Longitude edges of a box divide the eastward way between its snapped ends evenly, wherever on the
globe they lie: they never leave the range of longitudes and never fall together, and every
longitude of the box is in the bin that holds its eastward way. The edges are built unless there are
more of them than a list can hold, or the latitudes have no edges.
-/

noncomputable section

namespace SeismicHazard

open Longitude

/-- A rounded number counts up to the largest count there is. -/
theorem toCount_round {x : ℝ} (hx : 0 ≤ x) :
    Scalar.toCount (Scalar.round x) = min Scalar.maxCount (round x).toNat := by
  have hround : Scalar.round x = ((round x : ℤ) : ℝ) := by
    rw [round_eq]
    exact if_pos hx
  have htruncated : truncated ((round x : ℤ) : ℝ) = round x := by simp [truncated]
  rw [Scalar.toCount, hround]
  change (max (0 : ℤ) (min (Scalar.maxCount : ℤ) (truncated ((round x : ℤ) : ℝ)))).toNat = _
  rw [htruncated]
  omega

namespace Edges

variable {box : BoundingBox ℝ} {width : ℝ}

/-- The eastward way between the snapped ends of a box, or one bin if it has none. -/
def snappedWay (box : BoundingBox ℝ) (width : ℝ) : ℝ :=
  if turn (snappedEast box width - snappedWest box width) = 0 then width
  else turn (snappedEast box width - snappedWest box width)

/-- The number of bins of longitude: the nearest whole number of widths on the way, at least one. -/
def lonBins (box : BoundingBox ℝ) (width : ℝ) : Nat :=
  max 1 (round (snappedWay box width / width)).toNat

theorem lonBins_pos (box : BoundingBox ℝ) (width : ℝ) : 0 < lonBins box width :=
  lt_max_of_lt_left Nat.one_pos

theorem snapped_way (box : BoundingBox ℝ) (width : ℝ) :
    (snapped box width).2.2 = snappedWay box width := by
  rw [snapped_exact, snappedWay]
  split
  next => rfl
  next => rfl

theorem snappedWay_pos (hwidth : 0 < width) : 0 < snappedWay box width := by
  unfold snappedWay
  split
  next => exact hwidth
  next hway => exact lt_of_le_of_ne (turn_nonneg _) (Ne.symm hway)

theorem snappedWay_lt (hquarter : width ≤ 90) : snappedWay box width < 360 := by
  unfold snappedWay
  split
  next => linarith
  next => exact turn_lt _

/-- The snapped ends are as far apart as the way says. -/
theorem turn_snapped_ends (hwidth : 0 < width) (hquarter : width ≤ 90) :
    turn ((snapped box width).2.1 - (snapped box width).1) = snappedWay box width := by
  rw [snapped_exact, snappedWay]
  split
  next =>
    obtain ⟨k, hk⟩ := exists_normalize (snappedWest box width + width)
    exact turn_eq_of k (by rw [hk]; ring) hwidth.le (by linarith)
  next => rfl

/-- Edges of a box are evenly spaced longitudes and edges of its latitudes, unless there are too many
longitudes to be counted or stored. -/
theorem ofBox_eq (hwidth : 0 < width) :
    ofBox box width =
      if Scalar.maxCount ≤ lonBins box width then .error (.broken .edgeIndex)
      else if maxNumbers < lonBins box width + 1 then .error (.broken .capacity)
      else
        (fun lat => (Equator.spaced (snapped box width).1 (snapped box width).2.1
          (lonBins box width + 1), lat)) <$> ofRange box.south box.north width := by
  have hpos : 0 < snappedWay box width := snappedWay_pos hwidth
  have hcount := toCount_round (div_nonneg hpos.le hwidth.le)
  have hone : 1 < Scalar.maxCount := by decide
  simp only [ofBox, snapped_way, hcount]
  by_cases hmany : Scalar.maxCount ≤ lonBins box width
  · have hover : Scalar.maxCount ≤ (round (snappedWay box width / width)).toNat := by
      unfold lonBins at hmany
      omega
    rw [if_pos hmany, if_pos (by omega)]
    rfl
  · have hbins : max (min Scalar.maxCount (round (snappedWay box width / width)).toNat + 1) 2 =
        lonBins box width + 1 := by
      unfold lonBins at hmany ⊢
      omega
    have hfew : ¬Scalar.maxCount ≤
        min Scalar.maxCount (round (snappedWay box width / width)).toNat := by
      unfold lonBins at hmany
      omega
    rw [if_neg hmany, if_neg hfew, hbins, Equator.points, reserve]
    by_cases hroom : lonBins box width + 1 ≤ maxNumbers
    · rw [if_pos hroom, if_neg (not_lt.2 hroom)]
      cases ofRange box.south box.north width with
      | error e => rfl
      | ok lat => rfl
    · rw [if_neg hroom, if_pos (not_le.1 hroom)]
      rfl

theorem succeeds_ofBox (hwidth : 0 < width) :
    Succeeds (ofBox box width) ↔
      lonBins box width + 1 ≤ maxNumbers ∧ Succeeds (ofRange box.south box.north width) := by
  have hmax : maxNumbers < Scalar.maxCount := by decide
  rw [ofBox_eq hwidth]
  split
  next hmany => simp only [not_succeeds_error, false_iff, not_and]; omega
  next =>
    split
    next hfull => simp only [not_succeeds_error, false_iff, not_and]; omega
    next hroom =>
      simp only [Succeeds, map_eq_ok]
      constructor
      · rintro ⟨_, lat, hlat, _⟩
        exact ⟨not_lt.1 hroom, lat, hlat⟩
      · rintro ⟨_, lat, hlat⟩
        exact ⟨_, lat, hlat, rfl⟩

theorem lon_of_ofBox (hwidth : 0 < width) {lon lat : List ℝ}
    (hedges : ofBox box width = .ok (lon, lat)) :
    lon = Equator.spaced (snapped box width).1 (snapped box width).2.1
      (lonBins box width + 1) := by
  rw [ofBox_eq hwidth] at hedges
  split at hedges
  next => simp at hedges
  next =>
    split at hedges
    next => simp at hedges
    next =>
      obtain ⟨_, _, hpair⟩ := map_eq_ok.1 hedges
      exact (congrArg Prod.fst hpair).symm

/-- Longitude edges around a box: they are in the range of longitudes, divide the way between the
snapped ends evenly, and have every longitude of the box in the bin that holds its eastward way. -/
structure Surrounds (box : BoundingBox ℝ) (width : ℝ) (lon : List ℝ) : Prop where
  length : lon.length = lonBins box width + 1
  range : ∀ edge ∈ lon, -180 ≤ edge ∧ edge ≤ 180
  offsets : Binning.offsets lon = (List.range (lonBins box width + 1)).map fun k : Nat =>
    k * (snappedWay box width / lonBins box width)
  increasing : (Binning.offsets lon).Pairwise (· < ·)
  holds : ∃ west, lon.head? = some west ∧
    ∀ value, turn (value - box.west) ≤ turn (box.east - box.west) →
      turn (value - west) ≤ snappedWay box width ∧
      ∃ i, Binning.lonBin lon (Binning.offsets lon) value = .ok i ∧
        ∀ j, Binning.Holds (Binning.offsets lon) j (turn (value - west)) ↔ j = i

theorem surrounds_of_ofBox (hwidth : 0 < width) (hquarter : width ≤ 90)
    (hwest : -180 ≤ box.west ∧ box.west ≤ 180) (hbox : turn (box.east - box.west) < 180)
    {lon lat : List ℝ} (hedges : ofBox box width = .ok (lon, lat)) : Surrounds box width lon := by
  have hlon := lon_of_ofBox hwidth hedges
  have hbins := lonBins_pos box width
  have hends : turn ((snapped box width).2.1 - (snapped box width).1) = snappedWay box width :=
    turn_snapped_ends hwidth hquarter
  have hpos : 0 < snappedWay box width := snappedWay_pos hwidth
  have hlt : snappedWay box width < 360 := snappedWay_lt hquarter
  have hway : turn ((snapped box width).2.1 - (snapped box width).1) ≠ 0 := by
    rw [hends]
    exact hpos.ne'
  have hlength : lon.length = lonBins box width + 1 := by rw [hlon, Equator.length_spaced]
  have hoffsets : Binning.offsets lon = (List.range (lonBins box width + 1)).map fun k : Nat =>
      k * (snappedWay box width / lonBins box width) := by
    rw [hlon, Equator.offsets_spaced hway hbins, hends]
  refine ⟨hlength, fun edge hedge => ?_, hoffsets, ?_, ?_⟩
  · rw [hlon] at hedge
    obtain ⟨place, hnonneg, hle, rfl⟩ := Equator.exists_of_mem_spaced hway hbins hedge
    rw [hends] at hle
    rw [snapped_west]
    obtain ⟨hout, hout', _⟩ := snapped_mem box hwidth
    exact normalize_mem (by linarith) (by linarith)
  · rw [hoffsets, List.pairwise_map]
    refine List.pairwise_lt_range.imp fun {i j} hij => ?_
    apply mul_lt_mul_of_pos_right
    · exact_mod_cast hij
    · exact div_pos hpos (by exact_mod_cast hbins)
  · have hspan : Binning.span lon = snappedWay box width := by
      rw [hlon, Equator.span_spaced (by omega) hway, hends]
    obtain ⟨first, rest, rfl⟩ := List.exists_cons_of_length_pos (by omega : 0 < lon.length)
    refine ⟨first, rfl, fun value hvalue => ?_⟩
    have hle := turn_le_span hwidth hquarter hbox hedges rfl hvalue
    exact ⟨hspan ▸ hle, Binning.exists_lonBin_holds (by omega) rfl hle⟩

/-- Edges of longitude around a box of less than half a turn, with bins of at most a quarter of one,
surround it. They are built exactly when a list can hold them and the latitudes have edges, the first
of which needs an index below the largest 64-bit number. -/
theorem ofBox_surrounds (hwidth : 0 < width) (hquarter : width ≤ 90)
    (hwest : -180 ≤ box.west ∧ box.west ≤ 180) (hextent : 0 ≤ box.lonExtent) :
    (Succeeds (ofBox box width) ↔
      lonBins box width + 1 ≤ maxNumbers ∧ ⌊box.south / width⌋ < Scalar.maxLong ∧
        ((indices box.south box.north width).2 - (indices box.south box.north width).1 + 1).toNat ≤
          maxNumbers) ∧
    ∀ lon lat, ofBox box width = .ok (lon, lat) → Surrounds box width lon := by
  rw [succeeds_ofBox hwidth, succeeds_ofRange]
  exact ⟨Iff.rfl, fun _ _ hedges =>
    surrounds_of_ofBox hwidth hquarter hwest ((extent_nonneg_iff _ _).1 hextent) hedges⟩

/-- A box across the antimeridian that is not a whole number of widths wide. -/
def pacificBox : BoundingBox ℝ := ⟨170, -175, 1, 0⟩

/-- The box of a single place. -/
def pointBox : BoundingBox ℝ := ⟨0, 0, 1, 1⟩

theorem snappedWay_pacificBox : snappedWay pacificBox 7 = 17 := by
  have hwest : ⌊(170 : ℝ) / 7⌋ = 24 := by norm_num
  have heast : ⌈(-175 : ℝ) / 7⌉ = -25 := by norm_num
  have hway : turn (snappedEast pacificBox 7 - snappedWest pacificBox 7) = 17 := by
    simp only [snappedEast, snappedWest, pacificBox, hwest, heast]
    exact turn_eq_of (-1) (by norm_num) (by norm_num) (by norm_num)
  rw [snappedWay, hway, if_neg (by norm_num)]

/-- Edges around the Pacific box; around a single place none are built when its latitude has too
many widths to be an index. -/
theorem ofBox_surrounds_pacificBox :
    ((0 : ℝ) < 7 ∧ (7 : ℝ) ≤ 90 ∧ (-180 ≤ pacificBox.west ∧ pacificBox.west ≤ 180) ∧
      0 ≤ pacificBox.lonExtent) ∧
    (∃ lon lat, ofBox pacificBox 7 = .ok (lon, lat) ∧ Surrounds pacificBox 7 lon ∧
      Binning.offsets lon = [0, 17 / 2, 17]) ∧
    ¬Succeeds (ofBox pointBox (1 / 10 ^ 20)) := by
  have hwest : -180 ≤ pacificBox.west ∧ pacificBox.west ≤ 180 := by norm_num [pacificBox]
  have hextent : 0 ≤ pacificBox.lonExtent := by
    have hway : turn (-175 - 170) = 15 :=
      turn_eq_of (-1) (by norm_num) (by norm_num) (by norm_num)
    rw [BoundingBox.lonExtent, extent_nonneg_iff, pacificBox, hway]
    norm_num
  have hround : round ((17 : ℝ) / 7) = 2 := by
    rw [round_eq]
    norm_num
  have hbins : lonBins pacificBox 7 = 2 := by
    rw [lonBins, snappedWay_pacificBox, hround]
    rfl
  have hindices : indices 0 1 (7 : ℝ) = (0, 1) := by
    rw [indices_eq]
    norm_num [Scalar.minLong, Scalar.maxLong]
  have hwidth : (0 : ℝ) < 7 := by norm_num
  have hquarter : (7 : ℝ) ≤ 90 := by norm_num
  refine ⟨⟨hwidth, hquarter, hwest, hextent⟩, ?_, ?_⟩
  · obtain ⟨hsucceeds, hall⟩ := ofBox_surrounds hwidth hquarter hwest hextent
    obtain ⟨⟨lon, lat⟩, hedges⟩ := hsucceeds.2
      ⟨by rw [hbins]; decide, by norm_num [pacificBox, Scalar.maxLong],
        by rw [pacificBox, hindices]; decide⟩
    refine ⟨lon, lat, hedges, hall lon lat hedges, ?_⟩
    rw [(hall lon lat hedges).offsets, hbins, snappedWay_pacificBox]
    norm_num [List.range_succ]
  · have hplace : 0 ≤ pointBox.lonExtent := by
      rw [BoundingBox.lonExtent, extent_nonneg_iff, pointBox, sub_self,
        turn_eq_self le_rfl (by norm_num)]
      norm_num
    rw [(ofBox_surrounds (by norm_num) (by norm_num) (by norm_num [pointBox]) hplace).1]
    rintro ⟨_, hlat, _⟩
    norm_num [pointBox, Scalar.maxLong] at hlat

end Edges

end SeismicHazard

end
