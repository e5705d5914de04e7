import SeismicHazard.Proofs.Binning
import SeismicHazard.Proofs.Geo.Longitude

/-!
# Longitudes among eastward edges

The offsets of longitude edges are the running sums of the eastward steps between them, whatever the
steps are. A longitude that is no farther east of the first edge than the last edge is lies in the
one bin that holds its eastward way. Any other one is in the last bin or the first, as it is less
than half a turn east of the first edge or not, and whole turns make no difference.
-/

noncomputable section

namespace SeismicHazard.Binning

open Longitude

/-- The eastward steps between neighbouring longitudes, up to whole turns. -/
def steps : List ℝ → List ℝ
  | west :: east :: rest => turn (east - west) :: steps (east :: rest)
  | _ => []

theorem length_steps (edges : List ℝ) : (steps edges).length = edges.length - 1 := by
  induction edges with
  | nil => rfl
  | cons west rest ih =>
      cases rest with
      | nil => rfl
      | cons east rest => simpa [steps] using ih

/-- Offsets from a start are the running sums of the steps from there. -/
theorem offsetsFrom_eq_sums (start : ℝ) (edges : List ℝ) :
    start :: offsetsFrom start edges =
      (List.range ((steps edges).length + 1)).map fun k => start + ((steps edges).take k).sum := by
  induction edges generalizing start with
  | nil => simp [offsetsFrom, steps]
  | cons west rest ih =>
      cases rest with
      | nil => simp [offsetsFrom, steps]
      | cons east rest =>
          have hrange : List.range ((steps (west :: east :: rest)).length + 1) =
              0 :: (List.range ((steps (east :: rest)).length + 1)).map Nat.succ :=
            List.range_succ_eq_map
          rw [offsetsFrom, eastward_exact, ih, hrange, List.map_cons, List.map_map, steps]
          simp only [Function.comp_def, Nat.succ_eq_add_one, List.take_zero, List.sum_nil, add_zero,
            List.take_succ_cons, List.sum_cons, add_assoc]

theorem offsets_eq_sums {edges : List ℝ} (hnonempty : edges ≠ []) :
    offsets edges = (List.range edges.length).map fun k => ((steps edges).take k).sum := by
  have hlength : (steps edges).length + 1 = edges.length := by
    have hpos := List.length_pos_iff.2 hnonempty
    rw [length_steps]
    omega
  rw [offsets, Scalar.zero_exact, offsetsFrom_eq_sums, hlength]
  simp

/-- The eastward way from the first longitude edge to the last one. -/
def span (edges : List ℝ) : ℝ := (offsets edges).getLast?.getD 0

theorem le_of_mem_offsetsFrom {edges : List ℝ} {start x : ℝ} (hx : x ∈ offsetsFrom start edges) :
    start ≤ x := by
  induction edges generalizing start with
  | nil => simp [offsetsFrom] at hx
  | cons west rest ih =>
      cases rest with
      | nil => simp [offsetsFrom] at hx
      | cons east rest =>
          have hway : 0 ≤ eastward west east := eastward_exact west east ▸ turn_nonneg _
          unfold offsetsFrom at hx
          rcases List.mem_cons.1 hx with rfl | hrest
          · exact le_add_of_nonneg_right hway
          · exact (le_add_of_nonneg_right hway).trans (ih hrest)

theorem pairwise_offsetsFrom (start : ℝ) (edges : List ℝ) :
    (offsetsFrom start edges).Pairwise (· ≤ ·) := by
  induction edges generalizing start with
  | nil => exact .nil
  | cons west rest ih =>
      cases rest with
      | nil => exact .nil
      | cons east rest =>
          unfold offsetsFrom
          exact List.pairwise_cons.2 ⟨fun _ hx => le_of_mem_offsetsFrom hx, ih _⟩

theorem pairwise_offsets (edges : List ℝ) : (offsets edges).Pairwise (· ≤ ·) :=
  List.pairwise_cons.2 ⟨fun _ hx => le_of_mem_offsetsFrom hx, pairwise_offsetsFrom _ _⟩

theorem getLast?_offsets (edges : List ℝ) : (offsets edges).getLast? = some (span edges) := by
  rw [span, offsets, List.getLast?_cons, Option.getD_some]

theorem le_span {edges : List ℝ} {x : ℝ} (hx : x ∈ offsets edges) : x ≤ span edges := by
  obtain ⟨before, hsplit⟩ := List.getLast?_eq_some_iff.1 (getLast?_offsets edges)
  have hsorted := pairwise_offsets edges
  rw [hsplit] at hx hsorted
  rcases List.mem_append.1 hx with hbefore | hlast
  · exact (List.pairwise_append.1 hsorted).2.2 x hbefore _ List.mem_cons_self
  · exact (List.mem_singleton.1 hlast).le

theorem span_nonneg (edges : List ℝ) : 0 ≤ span edges := by
  have hzero : (0 : ℝ) ∈ offsets edges := by
    rw [offsets, Scalar.zero_exact]
    exact List.mem_cons_self
  exact le_span hzero

/-- The way to the last edge is the sum of all steps. -/
theorem span_eq_sum (edges : List ℝ) : span edges = (steps edges).sum := by
  rw [span, offsets, Scalar.zero_exact, offsetsFrom_eq_sums, List.getLast?_map, List.getLast?_range,
    if_neg (by omega)]
  simp

variable {edges : List ℝ} {west : ℝ}

theorem lonBin_eq (hwest : edges.head? = some west) (lon : ℝ) :
    lonBin edges (offsets edges) lon = bin (offsets edges) (offset west (span edges) lon) := by
  obtain ⟨rest, rfl⟩ := List.head?_eq_some_iff.1 hwest
  simp only [lonBin, Scalar.isNaN_exact, Bool.false_eq_true, if_false, span, Scalar.zero_exact]

theorem two_le_length_offsets (hlength : 2 ≤ edges.length) : 2 ≤ (offsets edges).length := by
  rw [length_offsets (List.ne_nil_of_length_pos (by omega))]
  exact hlength

/-- The offset of a longitude is its eastward way, or its way to the west. -/
theorem offset_eq (west span lon : ℝ) :
    offset west span lon =
      if turn (lon - west) < 180 ∨ turn (lon - west) ≤ span + wrapTolerance then turn (lon - west)
      else turn (lon - west) - 360 := by
  have hnonneg := turn_nonneg (lon - west)
  have hfull := turn_lt (lon - west)
  simp only [offset, extent_exact, Scalar.zero_exact]
  by_cases hhalf : turn (lon - west) < 180
  · rw [if_pos hhalf, if_neg fun h => absurd h.1 (not_lt.2 hnonneg), if_pos (.inl hhalf)]
  · rw [if_neg hhalf, sub_add_cancel]
    by_cases hnear : turn (lon - west) ≤ span + wrapTolerance
    · rw [if_pos ⟨by linarith, hnear⟩, if_pos (.inr hnear)]
    · rw [if_neg fun h => hnear h.2, if_neg (not_or.2 ⟨hhalf, hnear⟩)]

/-- The offset of a longitude that is not beyond the last edge is its eastward way. -/
theorem offset_exact (west width lon : ℝ) (hle : turn (lon - west) ≤ width) :
    offset west width lon = turn (lon - west) := by
  have htolerance : (0 : ℝ) ≤ wrapTolerance := by
    rw [wrapTolerance, Scalar.one_exact]
    exact div_nonneg zero_le_one (by norm_num)
  rw [offset_eq, if_pos (.inr (by linarith))]

/-- A longitude that the edges reach to is in the one bin that holds its eastward way. -/
theorem exists_lonBin_holds (hlength : 2 ≤ edges.length) (hwest : edges.head? = some west)
    {lon : ℝ} (hle : turn (lon - west) ≤ span edges) :
    ∃ i, lonBin edges (offsets edges) lon = .ok i ∧
      ∀ j, Holds (offsets edges) j (turn (lon - west)) ↔ j = i := by
  rw [lonBin_eq hwest, offset_exact _ _ _ hle]
  apply exists_bin_holds (two_le_length_offsets hlength) (pairwise_offsets edges)
  rw [spans_iff rfl (getLast?_offsets edges), Scalar.zero_exact]
  exact ⟨turn_nonneg _, hle⟩

/-- A longitude has a bin, which encloses its eastward way from the first edge unless that is longer
than the way to the last edge. -/
theorem encloses_lon {edges : List ℝ} (hlength : 2 ≤ edges.length) (lon : ℝ) :
    ∃ i west, edges.head? = some west ∧ lonBin edges (offsets edges) lon = .ok i ∧
      (Encloses (offsets edges) i (turn (lon - west)) ↔ turn (lon - west) ≤ span edges) := by
  obtain ⟨west, rest, rfl⟩ := List.exists_cons_of_length_pos (by omega : 0 < edges.length)
  have hoffsets : 2 ≤ (offsets (west :: rest)).length := by
    rw [offsets, List.length_cons, length_offsetsFrom]
    omega
  obtain ⟨i, hbin⟩ := exists_bin hoffsets (offset west (span (west :: rest)) lon)
  refine ⟨i, west, rfl, lonBin_eq_ok.2 ⟨west, rest, rfl, hbin⟩, ?_⟩
  constructor
  · rintro ⟨lower, upper, _, hupper, _, hle⟩
    exact hle.trans (le_span (List.mem_of_getElem? hupper))
  · intro hle
    rw [offset_exact _ _ _ hle] at hbin
    rw [encloses_iff (pairwise_offsets _) hbin, spans_iff rfl (getLast?_offsets _),
      Scalar.zero_exact]
    exact ⟨turn_nonneg _, hle⟩

/-- A longitude beyond the last edge is in the last bin, or in the first one when it is nearer to
the first edge from the west. -/
theorem lonBin_of_span_lt (hlength : 2 ≤ edges.length) (hwest : edges.head? = some west) {lon : ℝ}
    (hlt : span edges < turn (lon - west)) :
    lonBin edges (offsets edges) lon =
      .ok (if turn (lon - west) < 180 ∨ turn (lon - west) ≤ span edges + wrapTolerance
        then edges.length - 2 else 0) := by
  have hoffsets := two_le_length_offsets hlength
  have hnonempty : edges ≠ [] := List.ne_nil_of_length_pos (by omega)
  rw [lonBin_eq hwest, offset_eq]
  split
  next =>
    rw [bin_of_last_le hoffsets (pairwise_offsets edges) (getLast?_offsets edges) hlt.le,
      length_offsets hnonempty]
  next =>
    have hfirst : (offsets edges).head? = some 0 := by
      rw [offsets, List.head?_cons, Scalar.zero_exact]
    have hfull := turn_lt (lon - west)
    exact bin_of_lt_first hoffsets (pairwise_offsets edges) hfirst (by linarith)

theorem lonBin_add_turn (edges offs : List ℝ) (lon : ℝ) :
    lonBin edges offs (lon + 360) = lonBin edges offs lon := by
  simp only [lonBin, offset, extent_add_turn, Scalar.isNaN_exact]

/-- Among two or more eastward edges, offsets are the running sums of the steps. A longitude whose
eastward way from the first edge is not longer than all steps is in the one bin that holds this way.
Any other one is in the first bin or in the last, and a full turn makes no difference. -/
theorem lonBin_among (hlength : 2 ≤ edges.length) (hwest : edges.head? = some west) (lon : ℝ) :
    offsets edges = (List.range edges.length).map (fun k => ((steps edges).take k).sum) ∧
      (turn (lon - west) ≤ (steps edges).sum →
        ∃ i, lonBin edges (offsets edges) lon = .ok i ∧
          ∀ j, Holds (offsets edges) j (turn (lon - west)) ↔ j = i) ∧
      ((steps edges).sum < turn (lon - west) →
        lonBin edges (offsets edges) lon = .ok 0 ∨
          lonBin edges (offsets edges) lon = .ok (edges.length - 2)) ∧
      lonBin edges (offsets edges) (lon + 360) = lonBin edges (offsets edges) lon := by
  rw [← span_eq_sum]
  refine ⟨offsets_eq_sums (List.ne_nil_of_length_pos (by omega)),
    exists_lonBin_holds hlength hwest, fun hlt => ?_, lonBin_add_turn _ _ lon⟩
  rw [lonBin_of_span_lt hlength hwest hlt]
  split
  next => exact .inr rfl
  next => exact .inl rfl

/-- Uneven edges across the antimeridian, with a step of half a turn. -/
def unevenEdges : List ℝ := [170, -160, 20, 150]

theorem steps_unevenEdges : steps unevenEdges = [30, 180, 130] := by
  simp only [unevenEdges, steps]
  rw [turn_eq_of (x := -160 - 170) (y := 30) (-1) (by norm_num) (by norm_num) (by norm_num),
    turn_eq_self (by norm_num) (by norm_num), turn_eq_self (by norm_num) (by norm_num)]
  norm_num

theorem lonBin_among_unevenEdges :
    2 ≤ unevenEdges.length ∧ unevenEdges.head? = some 170 ∧
      lonBin unevenEdges (offsets unevenEdges) 100 = .ok 2 := by
  have hlength : 2 ≤ unevenEdges.length := by simp [unevenEdges]
  have hwest : unevenEdges.head? = some 170 := rfl
  have hway : turn (100 - 170) = 290 :=
    turn_eq_of (-1) (by norm_num) (by norm_num) (by norm_num)
  obtain ⟨hoffsets, hinside, _⟩ := lonBin_among hlength hwest 100
  rw [steps_unevenEdges, hway] at hinside
  obtain ⟨i, hbin, hholds⟩ := hinside (by norm_num)
  have htwo : Holds (offsets unevenEdges) 2 290 := by
    rw [hoffsets, steps_unevenEdges]
    refine ⟨210, 340, ?_, ?_, by norm_num, .inl (by norm_num)⟩
    · norm_num [unevenEdges, List.range_succ]
    · norm_num [unevenEdges, List.range_succ]
  rw [← (hholds 2).1 htwo] at hbin
  exact ⟨hlength, hwest, hbin⟩

end SeismicHazard.Binning

end
