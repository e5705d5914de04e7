import SeismicHazard.Proofs.Config
import SeismicHazard.Proofs.Edges.Longitudes
import SeismicHazard.Proofs.Edges.Spread

/-!
# How far edges reach

The bins of a value enclose it exactly where the edges reach to it. Edges that are built from the
extremes of some ruptures reach to all of them, except past the 64-bit indices of multiples, for
bins of longitude wider than a quarter of a turn, and where closest points lie at both ends of the
range of longitudes.
-/

noncomputable section

namespace SeismicHazard

open Binning Longitude Scalar

namespace BinEdges

/-- The bins of a cell enclose a rupture, given by its magnitude, distance and closest point,
exactly where the edges reach to it. -/
structure Locates (edges : BinEdges ℝ) (k : Cell) (mag dist : ℝ) (closest : Point ℝ) : Prop where
  mag : Encloses edges.mag k.mag mag ↔ Spans edges.mag mag
  dist : Encloses edges.dist k.dist dist ↔ Spans edges.dist dist
  lat : Encloses edges.lat k.lat closest.lat ↔ Spans edges.lat closest.lat
  lon : ∃ west, edges.lon.head? = some west ∧
    (Encloses (offsets edges.lon) k.lon (turn (closest.lon - west)) ↔
      turn (closest.lon - west) ≤ span edges.lon)

/-- How far edges reach: to the multiples of a width that have a 64-bit index. -/
structure Reaches (edges : BinEdges ℝ) (cfg : Config ℝ) (mag dist : ℝ) (closest : Point ℝ) :
    Prop where
  mag : Spans edges.mag mag ↔ cfg.magBinWidth * minLong ≤ mag ∧ mag ≤ cfg.magBinWidth * maxLong
  dist : Spans edges.dist dist ↔
    cfg.distanceBinWidth * minLong ≤ dist ∧ dist ≤ cfg.distanceBinWidth * maxLong
  lat : Spans edges.lat closest.lat ↔
    cfg.coordinateBinWidth * minLong ≤ closest.lat ∧ closest.lat ≤ cfg.coordinateBinWidth * maxLong

namespace Built

variable {s : Spread ℝ} {mags : MagRange ℝ} {cfg : Config ℝ} {edges : BinEdges ℝ}

theorem exists_cell (h : Built s mags cfg edges) (hcfg : cfg.Accepted) {regions : Nat}
    {c : Contribution ℝ} (hregion : c.trt < regions) :
    ∃ k, Arrangement.cell edges (offsets edges.lon) regions c = .ok k ∧
      edges.Locates k c.mag c.dist ⟨c.lon, c.lat⟩ := by
  obtain ⟨box, _, hbox⟩ := h.box
  obtain ⟨i, hi, hmag⟩ := Edges.encloses_ofRange hcfg.magBinWidth h.mag c.mag
  obtain ⟨j, hj, hdist⟩ := Edges.encloses_ofRange hcfg.distanceBinWidth h.dist c.dist
  obtain ⟨l, west, hwest, hl, hlon⟩ := Edges.encloses_ofBox hbox c.lon
  obtain ⟨p, hp, hlat⟩ :=
    Edges.encloses_ofRange hcfg.coordinateBinWidth (Edges.ofBox_eq_ok hbox).2 c.lat
  exact ⟨⟨i, j, l, p, c.trt⟩, Arrangement.cell_eq_ok.2 ⟨hregion, rfl, hi, hj, hl, hp⟩,
    ⟨hmag, hdist, hlat, west, hwest, hlon⟩⟩

theorem counted (h : Built s mags cfg edges) : edges.Counted cfg where
  mag := Edges.two_le_length_ofRange h.mag
  dist := Edges.two_le_length_ofRange h.dist
  lon := by
    obtain ⟨box, _, hbox⟩ := h.box
    exact (Edges.two_le_length_ofBox hbox).1
  lat := by
    obtain ⟨box, _, hbox⟩ := h.box
    exact (Edges.two_le_length_ofBox hbox).2
  eps := length_epsilonEdges h.eps

/-- Edges that are built give matrices a shape, with a bin for each band of epsilon. -/
theorem exists_shape (h : Built s mags cfg edges) (regions : Nat) :
    ∃ shape, edges.shape regions = .ok shape ∧ shape.eps = cfg.epsilonBins :=
  h.counted.exists_shape regions

/-- Edges built from the extremes of some ruptures reach to each of them. -/
theorem reaches (h : Built s mags cfg edges) (hcfg : cfg.Accepted) {xs : List (ℝ × Point ℝ)}
    (hs : s.Of xs) {x : ℝ × Point ℝ} (hx : x ∈ xs) {mag : ℝ} (hmag : mags.low ≤ mag)
    (hmag' : mag ≤ mags.high) : edges.Reaches cfg mag x.1 x.2 := by
  obtain ⟨box, hbox, hedges⟩ := h.box
  obtain ⟨hdist, hdist'⟩ := (hs.covers x hx).dist
  obtain ⟨hlat, hlat'⟩ := (hs.covers x hx).lat
  rw [← Spread.south_boundingBox hbox] at hlat
  rw [← Spread.north_boundingBox hbox] at hlat'
  exact ⟨Edges.spans_ofRange hcfg.magBinWidth h.mag hmag hmag',
    Edges.spans_ofRange hcfg.distanceBinWidth h.dist hdist hdist',
    Edges.spans_ofRange hcfg.coordinateBinWidth (Edges.ofBox_eq_ok hedges).2 hlat hlat'⟩

theorem turn_le_span (h : Built s mags cfg edges) (hcfg : cfg.Accepted)
    (hquarter : cfg.coordinateBinWidth ≤ 90) {xs : List (ℝ × Point ℝ)} (hs : s.Of xs)
    (hends : ¬((∃ x ∈ xs, x.2.lon = -180) ∧ ∃ x ∈ xs, x.2.lon = 180)) {x : ℝ × Point ℝ}
    (hx : x ∈ xs) {west : ℝ} (hwest : edges.lon.head? = some west) :
    turn (x.2.lon - west) ≤ span edges.lon := by
  obtain ⟨box, hbox, hedges⟩ := h.box
  obtain ⟨hhalf, hall⟩ := hs.turn_le hbox hends
  exact Edges.turn_le_span hcfg.coordinateBinWidth hquarter hhalf hedges hwest (hall x hx)

/-- Where closest points lie at both ends of the range, the edges reach around the antimeridian
alone. -/
theorem turn_le_span_of_ends (h : Built s mags cfg edges) (hcfg : cfg.Accepted)
    (hquarter : cfg.coordinateBinWidth ≤ 90) {xs : List (ℝ × Point ℝ)} (hs : s.Of xs)
    (hlow : ∃ x ∈ xs, x.2.lon = -180) (hhigh : ∃ x ∈ xs, x.2.lon = 180) {west : ℝ}
    (hwest : edges.lon.head? = some west) (value : ℝ) :
    turn (value - west) ≤ span edges.lon ↔
      turn (value + Edges.halfTurn cfg.coordinateBinWidth) ≤
        Edges.endsSpan cfg.coordinateBinWidth := by
  obtain ⟨box, hbox, hedges⟩ := h.box
  obtain ⟨x, hx, hxlon⟩ := hlow
  obtain ⟨y, hy, hylon⟩ := hhigh
  obtain ⟨hbwest, hbeast⟩ := hs.west_east_of_ends hbox hx hxlon hy hylon
  exact Edges.turn_le_span_of_ends hcfg.coordinateBinWidth hquarter hbwest hbeast hedges hwest value

end Built

end BinEdges

end SeismicHazard

end
