import SeismicHazard.Proofs.Config
import SeismicHazard.Proofs.Edges.Tight

/-!
# Indices of edges

The indices of the multiples around a range are 64-bit numbers. A quotient beyond those is held at
the nearest of them, and a first index that is the largest of them has no successor. Settings are
accepted with any width above zero, so whether the indices are those of the range depends on the
values that it was folded from.
-/

noncomputable section

namespace SeismicHazard

open Scalar

variable {low high width : ℝ} {values : List ℝ}

namespace Edges

/-- The indices of a range are the floor and the ceiling of its quotients, and the last one is
within the 64-bit numbers also where a bin is added to an empty range. -/
structure Exact (low high width : ℝ) : Prop where
  first : toLong (Scalar.floor (low / width)) = ⌊low / width⌋
  last : toLong (Scalar.ceil (high / width)) = ⌈high / width⌉
  within : (indices low high width).2 ≤ maxLong

theorem Exact.indices_eq (h : Exact low high width) :
    indices low high width = (⌊low / width⌋, max ⌈high / width⌉ (⌊low / width⌋ + 1)) := by
  rw [Edges.indices_eq, ← toLong_floor, ← toLong_ceil, h.first, h.last]

/-- There is no index after the largest one. -/
theorem ofRange_eq_edgeIndex :
    ofRange low high width = .error (.broken .edgeIndex) ↔
      maxLong < (indices low high width).2 := by
  rw [ofRange]
  simp only [reserve]
  split
  next hbeyond => simp [hbeyond]
  next hwithin =>
    split <;> simp [hwithin, Error.broken, Error.of, bind, Except.bind, pure, Except.pure]

theorem floor_lt_maxLong_iff (hwidth : 0 < width) :
    ⌊low / width⌋ < maxLong ↔ low < width * maxLong := by
  rw [Int.floor_lt, div_lt_iff₀ hwidth, mul_comm]

/-- The last index is beyond the 64-bit numbers exactly when the range begins at the largest
multiple or after it. -/
theorem maxLong_lt_indices_iff (hwidth : 0 < width) :
    maxLong < (indices low high width).2 ↔ width * maxLong ≤ low := by
  have hminmax : minLong < maxLong := by decide
  rw [← not_lt (a := low), ← floor_lt_maxLong_iff hwidth, Edges.indices_eq]
  omega

/-- Indices are exact as far as a range lies between the multiples that have one, and does not
begin at the last of these. -/
theorem exact_iff (hwidth : 0 < width) (hle : low ≤ high) :
    Exact low high width ↔
      width * minLong ≤ low ∧ high ≤ width * maxLong ∧ low < width * maxLong := by
  have hminmax : minLong < maxLong := by decide
  have hquotient : ⌊low / width⌋ ≤ ⌈high / width⌉ :=
    (Int.floor_le_ceil _).trans (Int.ceil_mono (div_le_div_of_nonneg_right hle hwidth.le))
  have hlow : minLong ≤ ⌊low / width⌋ ↔ width * minLong ≤ low := by
    rw [Int.le_floor, le_div_iff₀ hwidth, mul_comm]
  have hhigh : ⌈high / width⌉ ≤ maxLong ↔ high ≤ width * maxLong := by
    rw [Int.ceil_le, div_le_iff₀ hwidth, mul_comm]
  rw [← hlow, ← hhigh, ← floor_lt_maxLong_iff hwidth]
  constructor
  · rintro ⟨hfirst, hlast, hwithin⟩
    rw [toLong_floor] at hfirst
    rw [toLong_ceil] at hlast
    rw [Edges.indices_eq] at hwithin
    omega
  · rintro ⟨hfirst, hlast, hbelow⟩
    constructor
    · rw [toLong_floor]
      omega
    · rw [toLong_ceil]
      omega
    · rw [Edges.indices_eq]
      omega

end Edges

theorem MagRange.mem_ofList {mags : List ℝ} {range : MagRange ℝ}
    (hrange : MagRange.ofList mags = some range) : range.low ∈ mags ∧ range.high ∈ mags := by
  induction mags using List.reverseRecOn generalizing range with
  | nil => simp [MagRange.ofList] at hrange
  | append_singleton before mag ih =>
      rw [MagRange.ofList, List.foldl_append, List.foldl_cons, List.foldl_nil,
        ← MagRange.ofList] at hrange
      cases hbefore : (MagRange.ofList before : Option (MagRange ℝ)) with
      | none =>
          rw [hbefore] at hrange
          obtain rfl := Option.some.inj hrange
          simp
      | some r =>
          rw [hbefore] at hrange
          obtain rfl := Option.some.inj hrange
          obtain ⟨hlow, hhigh⟩ := ih hbefore
          simp only [lesser_exact, greater_exact, List.mem_append, List.mem_singleton]
          constructor
          · rcases min_choice r.low mag with h | h <;> simp [h, hlow]
          · rcases max_choice r.high mag with h | h <;> simp [h, hhigh]

/-- A range that is folded from values begins and ends at one of them. -/
theorem Folded.attains (h : Folded low high values) : low ∈ values ∧ high ∈ values := by
  cases h with
  | magnitudes hrange => exact MagRange.mem_ofList hrange
  | distances hbounds hrange =>
      obtain ⟨s, rfl, heq⟩ := SiteBounds.distanceRange?_eq_some.1 hrange
      obtain ⟨rfl, rfl⟩ := Prod.mk.inj heq
      obtain ⟨hof, hattains⟩ := SiteBounds.of_gathered hbounds
      exact ⟨(s.isLeast_minDist hof hattains).1, (s.isGreatest_maxDist hof hattains).1⟩
  | latitudes hbounds hbox =>
      obtain ⟨s, rfl, hspread⟩ := SiteBounds.boundingBox?_eq_some.1 hbox
      obtain ⟨_, hattains⟩ := SiteBounds.of_gathered hbounds
      rw [Spread.south_boundingBox hspread, Spread.north_boundingBox hspread]
      exact ⟨List.mem_map.2 hattains.minLat, List.mem_map.2 hattains.maxLat⟩

namespace Folded

variable {a : ℝ} (h : Folded low high values)
include h

theorem le_high : low ≤ high := (h.encloses h.attains.2).1

theorem le_low_iff : a ≤ low ↔ ∀ value ∈ values, a ≤ value :=
  ⟨fun hle _ hvalue => hle.trans (h.encloses hvalue).1, fun hall => hall _ h.attains.1⟩

theorem high_le_iff : high ≤ a ↔ ∀ value ∈ values, value ≤ a :=
  ⟨fun hle _ hvalue => (h.encloses hvalue).2.trans hle, fun hall => hall _ h.attains.2⟩

theorem low_lt_iff : low < a ↔ ∃ value ∈ values, value < a :=
  ⟨fun hlt => ⟨low, h.attains.1, hlt⟩,
    fun ⟨_, hvalue, hlt⟩ => (h.encloses hvalue).1.trans_lt hlt⟩

end Folded

namespace BinEdges

/-- What edges are built for: the gathered bounds of ruptures, with their distances and box, and the
magnitudes of their branch. -/
structure Extremes (g : SiteBounds.Gathering) (mags : List ℝ) where
  bounds : SiteBounds ℝ
  magnitudes : MagRange ℝ
  nearest : ℝ
  farthest : ℝ
  box : BoundingBox ℝ
  bounds_eq : g.bounds = .ok bounds
  magnitudes_eq : MagRange.ofList mags = some magnitudes
  distances_eq : bounds.distanceRange? = some (nearest, farthest)
  box_eq : bounds.boundingBox? = .ok (some box)

variable {g : SiteBounds.Gathering} {mags : List ℝ} {x : Extremes g mags} {cfg : Config ℝ}

/-- The ranges for which edges of a width are computed, with the values they were folded from and the
axis that the edges are for. -/
inductive Call (x : Extremes g mags) (cfg : Config ℝ) :
    ℝ → ℝ → ℝ → List ℝ → (BinEdges ℝ → List ℝ) → Prop
  | magnitudes : Call x cfg x.magnitudes.low x.magnitudes.high cfg.magBinWidth mags BinEdges.mag
  | distances : Call x cfg x.nearest x.farthest cfg.distanceBinWidth (g.ruptures.map Prod.fst)
      BinEdges.dist
  | latitudes : Call x cfg x.box.south x.box.north cfg.coordinateBinWidth
      (g.ruptures.map fun rupture => rupture.2.lat) BinEdges.lat

variable {axis : BinEdges ℝ → List ℝ}

namespace Call

theorem folded (h : Call x cfg low high width values axis) : Folded low high values := by
  cases h with
  | magnitudes => exact .magnitudes x.magnitudes_eq
  | distances => exact .distances x.bounds_eq x.distances_eq
  | latitudes => exact .latitudes x.bounds_eq x.box_eq

theorem width_pos (hcfg : cfg.Accepted) (h : Call x cfg low high width values axis) :
    0 < width := by
  cases h with
  | magnitudes => exact hcfg.magBinWidth
  | distances => exact hcfg.distanceBinWidth
  | latitudes => exact hcfg.coordinateBinWidth

/-- Where edges are built, those of an axis are the edges of its range. -/
theorem exists_axis (h : Call x cfg low high width values axis) {edges? : Option (BinEdges ℝ)}
    (hedges : ofBounds? x.bounds (some x.magnitudes) cfg = .ok edges?) :
    ∃ edges, edges? = some edges ∧ Edges.ofRange low high width = .ok (axis edges) := by
  obtain ⟨s, hbounds, heq⟩ := SiteBounds.distanceRange?_eq_some.1 x.distances_eq
  obtain ⟨hnearest, hfarthest⟩ := Prod.mk.inj heq
  have hbox := x.box_eq
  rw [hbounds] at hedges hbox
  obtain ⟨_, hspread, hbox⟩ := SiteBounds.boundingBox?_eq_some.1 hbox
  cases hspread
  obtain ⟨edges, rfl, hbuilt⟩ := ofBounds?_eq_ok.1 hedges
  refine ⟨edges, rfl, ?_⟩
  cases h with
  | magnitudes => exact hbuilt.mag
  | distances =>
      rw [hnearest, hfarthest]
      exact hbuilt.dist
  | latitudes =>
      obtain ⟨box, hbox', hcoordinates⟩ := hbuilt.box
      obtain rfl := Except.ok.inj (hbox'.symm.trans hbox)
      exact (Edges.ofBox_eq_ok hcoordinates).2

end Call

/-- With accepted settings, the indices of a range are exact when the values it was folded from lie
between the multiples with the smallest and the largest index, not all of them at the latter. The
edges of the axis, if any are built, are then the multiples around the range. The last index
overflows, and no edges are built, when no value lies before the largest multiple. -/
theorem exact_iff_of_call (hcfg : cfg.validate = .ok ())
    (hcall : Call x cfg low high width values axis) :
    (Edges.Exact low high width ↔
      (∀ value ∈ values, width * minLong ≤ value ∧ value ≤ width * maxLong) ∧
        ∃ value ∈ values, value < width * maxLong) ∧
    (Edges.Exact low high width →
      Edges.indices low high width =
        (⌊low / width⌋, max ⌈high / width⌉ (⌊low / width⌋ + 1)) ∧
      ∀ edges, ofBounds? x.bounds (some x.magnitudes) cfg = .ok (some edges) →
        axis edges = Edges.around width low high) ∧
    (Edges.ofRange low high width = .error (.broken .edgeIndex) ↔
      ∀ value ∈ values, width * maxLong ≤ value) ∧
    ((∀ value ∈ values, width * maxLong ≤ value) →
      ¬ Succeeds (ofBounds? x.bounds (some x.magnitudes) cfg)) := by
  have hfolded := hcall.folded
  have hwidth := hcall.width_pos (Config.validate_eq_ok.1 hcfg)
  have hoverflow : Edges.ofRange low high width = .error (.broken .edgeIndex) ↔
      ∀ value ∈ values, width * maxLong ≤ value := by
    rw [Edges.ofRange_eq_edgeIndex, Edges.maxLong_lt_indices_iff hwidth, hfolded.le_low_iff]
  refine ⟨?_, fun hexact => ⟨hexact.indices_eq, fun edges hedges => ?_⟩, hoverflow,
    fun hall hedges => ?_⟩
  · rw [Edges.exact_iff hwidth hfolded.le_high, hfolded.le_low_iff, hfolded.high_le_iff,
      hfolded.low_lt_iff, ← and_assoc, ← forall₂_and]
  · obtain ⟨_, hsome, haxis⟩ := hcall.exists_axis hedges
    cases hsome
    rw [(Edges.ofRange_eq_ok haxis).2, hexact.indices_eq, Edges.around]
  · obtain ⟨edges?, hedges⟩ := hedges
    obtain ⟨edges, _, haxis⟩ := hcall.exists_axis hedges
    rw [hoverflow.2 hall] at haxis
    cases haxis

namespace Sample

/-- Settings with a width that is far below any difference of magnitudes. -/
def narrowCfg : Config ℝ :=
  { Config.standard with
    magBinWidth := 1 / 10 ^ 20
    coordinateBinWidth := 1
    targets := [1 / 10]
    measures := [("PGA", [1])] }

/-- One rupture half a degree to the east and to the north. -/
def oneRupture : SiteBounds.Gathering := .insert .nothing 15 ⟨1 / 2, 1 / 2⟩

def oneExtremes : Extremes oneRupture [5] where
  bounds := SiteBounds.single 15 ⟨1 / 2, 1 / 2⟩
  magnitudes := ⟨5, 5⟩
  nearest := 15
  farthest := 15
  box := ⟨1 / 2, 1 / 2, 1 / 2, 1 / 2⟩
  bounds_eq := rfl
  magnitudes_eq := rfl
  distances_eq := rfl
  box_eq := by
    obtain ⟨hs, hattains⟩ := SiteBounds.of_single (15, (⟨1 / 2, 1 / 2⟩ : Point ℝ))
    have hbox : BoundingBox.ofPoints [1 / 2] [1 / 2] = .ok ⟨1 / 2, 1 / 2, 1 / 2, (1 / 2 : ℝ)⟩ :=
      BoundingBox.ofPoints_of_same (List.cons_ne_nil _ _) rfl (by simp) (by simp) (by norm_num)
    exact map_eq_ok.2 ⟨_, (Spread.boundingBox_eq_ofPoints hs hattains).trans hbox, rfl⟩

/-- A single magnitude has an index beyond the 64-bit numbers and no edges, although the settings
are accepted and the distance has an index. -/
theorem exact_iff_narrowCfg : narrowCfg.validate = .ok () ∧
    ¬ Edges.Exact 5 5 narrowCfg.magBinWidth ∧
    Edges.ofRange 5 5 narrowCfg.magBinWidth = .error (.broken .edgeIndex) ∧
    ¬ Succeeds (ofBounds? oneExtremes.bounds (some ⟨5, 5⟩) narrowCfg) ∧
    Edges.Exact 15 15 narrowCfg.distanceBinWidth := by
  have hcfg : narrowCfg.validate = .ok () := by
    apply Config.validate_eq_ok.2
    constructor <;> norm_num [narrowCfg, Config.standard]
  have hbeyond : ∀ value ∈ [(5 : ℝ)], narrowCfg.magBinWidth * maxLong ≤ value := by
    norm_num [narrowCfg, maxLong]
  obtain ⟨hexact, _, hoverflow, hnone⟩ := exact_iff_of_call hcfg (.magnitudes (x := oneExtremes))
  obtain ⟨hexact', _⟩ := exact_iff_of_call hcfg (.distances (x := oneExtremes))
  refine ⟨hcfg, fun h => ?_, hoverflow.2 hbeyond, hnone hbeyond, hexact'.2 ⟨?_, ?_⟩⟩
  · obtain ⟨value, hvalue, hlt⟩ := (hexact.1 h).2
    exact absurd (hbeyond value hvalue) (not_le.2 hlt)
  · norm_num [oneRupture, SiteBounds.Gathering.ruptures, narrowCfg, Config.standard, minLong,
      maxLong]
  · norm_num [oneRupture, SiteBounds.Gathering.ruptures, narrowCfg, Config.standard, maxLong]

end Sample

end BinEdges

end SeismicHazard

end
