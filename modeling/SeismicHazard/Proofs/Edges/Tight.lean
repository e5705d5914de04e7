import SeismicHazard.Proofs.Edges.Gathering
import SeismicHazard.Proofs.Edges.Range

/-!
# Tight covers

Edges of magnitude, distance and latitude cover their range and no bin more: with two bins or more,
the range begins before the second edge and ends after the last but one. A value of the range is in
the one bin that holds it, so every value that a range was folded from has a bin.
-/

noncomputable section

namespace SeismicHazard

open Scalar

/-- Ranges that are folded from values: magnitudes of a branch, and distances and latitudes of
ruptures whose bounds are gathered. -/
inductive Folded : ℝ → ℝ → List ℝ → Prop
  | magnitudes {mags : List ℝ} {range : MagRange ℝ} (hrange : MagRange.ofList mags = some range) :
      Folded range.low range.high mags
  | distances {g : SiteBounds.Gathering} {bounds : SiteBounds ℝ} {nearest farthest : ℝ}
      (hbounds : g.bounds = .ok bounds)
      (hrange : bounds.distanceRange? = some (nearest, farthest)) :
      Folded nearest farthest (g.ruptures.map Prod.fst)
  | latitudes {g : SiteBounds.Gathering} {bounds : SiteBounds ℝ} {box : BoundingBox ℝ}
      (hbounds : g.bounds = .ok bounds) (hbox : bounds.boundingBox? = .ok (some box)) :
      Folded box.south box.north (g.ruptures.map fun x => x.2.lat)

theorem SiteBounds.of_gathered {g : Gathering} {bounds : SiteBounds ℝ}
    (hbounds : g.bounds = .ok bounds) : bounds.Of g.ruptures := by
  obtain ⟨gathered, hof, heq⟩ := exists_bounds g
  rw [heq] at hbounds
  split at hbounds
  next => simp at hbounds
  next => exact Except.ok.inj hbounds ▸ hof

/-- A folded range encloses the values. -/
theorem Folded.encloses {low high : ℝ} {values : List ℝ} (h : Folded low high values) {value : ℝ}
    (hvalue : value ∈ values) : low ≤ value ∧ value ≤ high := by
  cases h with
  | magnitudes hrange => exact MagRange.encloses_ofList hrange hvalue
  | distances hbounds hrange =>
      obtain ⟨s, rfl, heq⟩ := SiteBounds.distanceRange?_eq_some.1 hrange
      obtain ⟨rfl, rfl⟩ := Prod.mk.inj heq
      obtain ⟨x, hx, rfl⟩ := List.mem_map.1 hvalue
      exact ((SiteBounds.of_gathered hbounds).1.covers x hx).dist
  | latitudes hbounds hbox =>
      obtain ⟨s, rfl, hspread⟩ := SiteBounds.boundingBox?_eq_some.1 hbox
      obtain ⟨x, hx, rfl⟩ := List.mem_map.1 hvalue
      rw [Spread.south_boundingBox hspread, Spread.north_boundingBox hspread]
      exact ((SiteBounds.of_gathered hbounds).1.covers x hx).lat

namespace Edges

variable {width low high : ℝ}

/-- Consecutive multiples of a width around a range, the least number of them that has a bin. -/
structure TightCover (width low high : ℝ) (edges : List ℝ) : Prop where
  two_le : 2 ≤ edges.length
  multiples : ∃ first : ℤ, ∀ i < edges.length, edges[i]? = some (width * (first + i : ℤ))
  first_le : ∃ first, edges.head? = some first ∧ first ≤ low
  le_last : ∃ last, edges.getLast? = some last ∧ high ≤ last
  lt_second : 2 < edges.length → ∃ second, edges[1]? = some second ∧ low < second
  lt_high : 2 < edges.length → ∃ edge, edges[edges.length - 2]? = some edge ∧ edge < high

theorem getElem?_multiples {first last : ℤ} {i : Nat} (hi : i < (last - first + 1).toNat) :
    (multiples width first last)[i]? = some (width * (first + i : ℤ)) := by
  rw [multiples_exact, List.getElem?_map, List.getElem?_range hi, Option.map_some]

/-- Quotients of a range that are far from the largest 64-bit number. -/
structure Small (width low high : ℝ) : Prop where
  low : |low / width| < 2 ^ 62
  high : |high / width| < 2 ^ 62

/-- The multiples of a width around a range, at least one bin apart. -/
def around (width low high : ℝ) : List ℝ :=
  multiples width ⌊low / width⌋ (max ⌈high / width⌉ (⌊low / width⌋ + 1))

/-- Small quotients have their floor and ceiling as indices. -/
theorem Small.indices_eq (h : Small width low high) :
    indices low high width = (⌊low / width⌋, max ⌈high / width⌉ (⌊low / width⌋ + 1)) ∧
      (indices low high width).2 ≤ maxLong := by
  obtain ⟨hlow, hlow'⟩ := abs_lt.1 h.low
  obtain ⟨hhigh, hhigh'⟩ := abs_lt.1 h.high
  have hfloor : -2 ^ 62 ≤ ⌊low / width⌋ := Int.le_floor.2 (by push_cast; linarith)
  have hfloor' : ⌊low / width⌋ < 2 ^ 62 := Int.floor_lt.2 (by push_cast; linarith)
  have hceil : -2 ^ 62 < ⌈high / width⌉ := Int.lt_ceil.2 (by push_cast; linarith)
  have hceil' : ⌈high / width⌉ ≤ 2 ^ 62 := Int.ceil_le.2 (by push_cast; linarith)
  rw [Edges.indices_eq, minLong, maxLong]
  constructor
  · congr 1 <;> omega
  · omega

/-- The edges of a range are the multiples around it, as long as a list can hold them. -/
theorem Small.ofRange_eq (h : Small width low high) :
    ofRange low high width =
      if (around width low high).length ≤ maxNumbers then .ok (around width low high)
      else .error (.broken .capacity) := by
  obtain ⟨hindices, hlong⟩ := h.indices_eq
  rw [hindices] at hlong
  rw [around, length_multiples]
  simp only [ofRange, hindices, if_neg (not_lt.2 hlong), reserve]
  split <;> rfl

theorem tightCover_around (hwidth : 0 < width) (low high : ℝ) :
    TightCover width low high (around width low high) := by
  have hfloor := Int.floor_le (low / width)
  have hfloor' := Int.lt_floor_add_one (low / width)
  have hceil := Int.le_ceil (high / width)
  have hceil' := Int.ceil_lt_add_one (high / width)
  rw [le_div_iff₀ hwidth] at hfloor
  rw [div_lt_iff₀ hwidth] at hfloor'
  rw [div_le_iff₀ hwidth] at hceil
  rw [← sub_lt_iff_lt_add, lt_div_iff₀ hwidth] at hceil'
  unfold around
  generalize hfirst : ⌊low / width⌋ = first at *
  generalize hlast : max ⌈high / width⌉ (first + 1) = last
  have hlt : first < last := by omega
  have hlength := length_multiples width first last
  refine ⟨by omega, ⟨first, fun i hi => getElem?_multiples (by omega)⟩,
    ⟨_, head?_multiples hlt.le, by linarith⟩, ⟨_, getLast?_multiples hlt.le, ?_⟩, fun hmore => ?_,
    fun hmore => ?_⟩
  · have hle : (⌈high / width⌉ : ℝ) ≤ last := by exact_mod_cast (by omega : ⌈high / width⌉ ≤ last)
    calc high ≤ ⌈high / width⌉ * width := hceil
      _ ≤ last * width := mul_le_mul_of_nonneg_right hle hwidth.le
      _ = width * last := mul_comm _ _
  · refine ⟨_, getElem?_multiples (by omega), ?_⟩
    push_cast
    linarith
  · -- there is more than one bin, so the last edge is the first multiple not below the range
    refine ⟨_, getElem?_multiples (by omega), ?_⟩
    rw [show first + ((multiples width first last).length - 2 : ℕ) = ⌈high / width⌉ - 1 by omega]
    push_cast
    linarith

/-- A value of a range is in the one bin around the range that holds it. -/
theorem exists_bin_around (hwidth : 0 < width) {value : ℝ} (hlow : low ≤ value)
    (hhigh : value ≤ high) :
    ∃ i, Binning.bin (around width low high) value = .ok i ∧
      ∀ j, Binning.Holds (around width low high) j value ↔ j = i := by
  have htight := tightCover_around hwidth low high
  obtain ⟨first, hfirst, hle⟩ := htight.first_le
  obtain ⟨last, hlast, hge⟩ := htight.le_last
  exact Binning.exists_bin_holds htight.two_le (pairwise_multiples hwidth.le _ _)
    ⟨first, last, hfirst, hlast, hle.trans hlow, hhigh.trans hge⟩

/-- Edges of a range cover it tightly, as long as a list can hold them, and the bin that is found for
a value of the range is the one bin that holds it. So every value that the range was folded from
has a bin that holds it. -/
theorem ofRange_tight (hwidth : 0 < width) (hsmall : Small width low high) :
    ∃ edges, ofRange low high width =
        (if edges.length ≤ maxNumbers then .ok edges else .error (.broken .capacity)) ∧
      TightCover width low high edges ∧
      (∀ value, low ≤ value → value ≤ high →
        ∃ i, Binning.bin edges value = .ok i ∧ ∀ j, Binning.Holds edges j value ↔ j = i) ∧
      ∀ values, Folded low high values → ∀ value ∈ values,
        ∃ i, Binning.bin edges value = .ok i ∧ Binning.Holds edges i value := by
  refine ⟨around width low high, hsmall.ofRange_eq, tightCover_around hwidth low high,
    fun value => exists_bin_around hwidth, fun values hvalues value hvalue => ?_⟩
  obtain ⟨hlow, hhigh⟩ := hvalues.encloses hvalue
  obtain ⟨i, hbin, hholds⟩ := exists_bin_around hwidth hlow hhigh
  exact ⟨i, hbin, (hholds i).2 rfl⟩

/-- Three magnitudes folded to a range that begins at an edge and ends between two. -/
theorem ofRange_tight_halves :
    (0 : ℝ) < 1 / 2 ∧ Small (1 / 2) (-1) (3 / 4) ∧
      ∃ edges, ofRange (-1) (3 / 4) (1 / 2) = .ok edges ∧
        TightCover (1 / 2) (-1) (3 / 4) edges ∧
        ∀ mag ∈ [3 / 4, -1, 0], ∃ i, Binning.bin edges mag = .ok i ∧ Binning.Holds edges i mag := by
  have hwidth : (0 : ℝ) < 1 / 2 := by norm_num
  have hsmall : Small (1 / 2) (-1) (3 / 4) := ⟨by norm_num [abs_lt], by norm_num [abs_lt]⟩
  have hrange : MagRange.ofList [3 / 4, -1, 0] = some (⟨-1, 3 / 4⟩ : MagRange ℝ) := by
    simp only [MagRange.ofList, List.foldl_cons, List.foldl_nil, MagRange.extend, lesser_exact,
      greater_exact]
    norm_num
  have hcount : (around (1 / 2) (-1) (3 / 4)).length = 5 := by
    have hfloor : ⌊(-1 : ℝ) / (1 / 2)⌋ = -2 := by norm_num
    have hceil : ⌈(3 / 4 : ℝ) / (1 / 2)⌉ = 2 := by norm_num
    rw [around, length_multiples, hfloor, hceil]
    rfl
  obtain ⟨edges, hedges, htight, _, hfound⟩ := ofRange_tight hwidth hsmall
  have hroom : edges.length ≤ maxNumbers := by
    by_contra hfull
    rw [if_neg hfull, hsmall.ofRange_eq, hcount, if_pos (by decide)] at hedges
    simp at hedges
  rw [if_pos hroom] at hedges
  exact ⟨hwidth, hsmall, edges, hedges, htight, hfound _ (.magnitudes hrange)⟩

end Edges

end SeismicHazard

end
