import SeismicHazard.Arrangement
import SeismicHazard.Proofs.Failure
import SeismicHazard.Proofs.Matrix.Cells

/-!
# Numbers of edges

Edges that are built have a bin on every axis and a band of epsilon for each one that is set,
however the numbers come out. So a bin that is found is one of theirs, and none is found only for a
value that is no number.
-/

namespace SeismicHazard

variable {R : Type} [Scalar R]

/-! ## Edges of one axis -/

namespace Edges

variable {low high width : R}

theorem length_multiples (width : R) (first last : Int) :
    (multiples width first last).length = (last - first + 1).toNat := by
  rw [multiples, List.length_map, List.length_range]

/-- The multiples that enclose a range are at least one bin apart. -/
theorem indices_lt (low high width : R) :
    (indices low high width).1 < (indices low high width).2 := by
  simp only [indices]
  split <;> omega

theorem ofRange_eq_ok {edges : List R} (hedges : ofRange low high width = .ok edges) :
    (indices low high width).2 ≤ Scalar.maxLong ∧
      edges = multiples width (indices low high width).1 (indices low high width).2 := by
  unfold ofRange at hedges
  simp only at hedges
  split at hedges
  next => simp at hedges
  next hle =>
    obtain ⟨_, _, hedges⟩ := bind_eq_ok.1 hedges
    exact ⟨Int.not_lt.1 hle, (pure_eq_ok.1 hedges).symm⟩

theorem two_le_length_ofRange {edges : List R} (hedges : ofRange low high width = .ok edges) :
    2 ≤ edges.length := by
  obtain ⟨_, rfl⟩ := ofRange_eq_ok hedges
  have hlt := indices_lt low high width
  rw [length_multiples]
  omega

end Edges

theorem Equator.length_spaced (west east : R) (n : Nat) : (spaced west east n).length = n := by
  unfold spaced
  split
  next => rfl
  next => rfl
  next => rw [List.length_map, List.length_range]

/-- Edges of a box are spaced longitudes, at least one bin apart, and multiples of a width. -/
theorem Edges.ofBox_eq_ok {box : BoundingBox R} {width : R} {lon lat : List R}
    (hedges : ofBox box width = .ok (lon, lat)) :
    (∃ n, 2 ≤ n ∧ lon = Equator.spaced (snapped box width).1 (snapped box width).2.1 n) ∧
      ofRange box.south box.north width = .ok lat := by
  unfold ofBox at hedges
  simp only at hedges
  split at hedges
  next => simp [throw, throwThe, MonadExceptOf.throw, bind, Except.bind] at hedges
  next =>
    obtain ⟨points, hpoints, hedges⟩ := bind_eq_ok.1 hedges
    obtain ⟨multiples, hmultiples, hedges⟩ := bind_eq_ok.1 hedges
    obtain ⟨rfl, rfl⟩ := Prod.mk.inj (pure_eq_ok.1 hedges)
    obtain ⟨_, _, hpoints⟩ := bind_eq_ok.1 hpoints
    exact ⟨⟨_, Nat.le_max_right _ _, (pure_eq_ok.1 hpoints).symm⟩, hmultiples⟩

theorem Edges.two_le_length_ofBox {box : BoundingBox R} {width : R} {lon lat : List R}
    (hedges : ofBox box width = .ok (lon, lat)) : 2 ≤ lon.length ∧ 2 ≤ lat.length := by
  obtain ⟨⟨n, hn, rfl⟩, hlat⟩ := ofBox_eq_ok hedges
  exact ⟨by rw [Equator.length_spaced]; exact hn, two_le_length_ofRange hlat⟩

theorem BinEdges.length_epsilonEdges {cfg : Config R} {edges : List R}
    (hedges : cfg.epsilonEdges = .ok edges) : edges.length = cfg.epsilonBins + 1 := by
  obtain ⟨_, _, hedges⟩ := bind_eq_ok.1 hedges
  rw [← pure_eq_ok.1 hedges]
  simp

theorem Binning.length_offsetsFrom (start : R) (edges : List R) :
    (offsetsFrom start edges).length = edges.length - 1 := by
  induction edges generalizing start with
  | nil => rfl
  | cons west rest ih =>
      cases rest with
      | nil => rfl
      | cons east rest =>
          rw [offsetsFrom, List.length_cons, ih]
          simp

theorem Binning.length_offsets {edges : List R} (hedges : edges ≠ []) :
    (offsets edges).length = edges.length := by
  have hpos := List.length_pos_iff.2 hedges
  rw [offsets, List.length_cons, length_offsetsFrom]
  omega

/-! ## Edges of all axes -/

namespace BinEdges

omit [Scalar R] in
theorem shape_eq_ok {edges : BinEdges R} {regions : Nat} {shape : Shape}
    (hshape : edges.shape regions = .ok shape) :
    shape.mag = edges.mag.length - 1 ∧ shape.dist = edges.dist.length - 1 ∧
      shape.lon = edges.lon.length - 1 ∧ shape.lat = edges.lat.length - 1 ∧ shape.trt = regions ∧
      shape.eps = edges.eps.length - 1 := by
  unfold BinEdges.shape at hshape
  split at hshape
  next => simp at hshape
  next =>
    rw [← Except.ok.inj hshape]
    exact ⟨rfl, rfl, rfl, rfl, rfl, rfl⟩

/-- Edges with a bin on every axis and the bands of epsilon that are set. -/
structure Counted (edges : BinEdges R) (cfg : Config R) : Prop where
  mag : 2 ≤ edges.mag.length
  dist : 2 ≤ edges.dist.length
  lon : 2 ≤ edges.lon.length
  lat : 2 ≤ edges.lat.length
  eps : edges.eps.length = cfg.epsilonBins + 1

variable {edges : BinEdges R} {cfg : Config R}

theorem counted_of_ofBounds? {bounds : SiteBounds R} {mags : Option (MagRange R)}
    (hedges : ofBounds? bounds mags cfg = .ok (some edges)) : edges.Counted cfg := by
  obtain ⟨box?, _, hedges⟩ := bind_eq_ok.1 hedges
  split at hedges
  next =>
    obtain ⟨⟨lon, lat⟩, hbox, hedges⟩ := bind_eq_ok.1 hedges
    obtain ⟨mag, hmag, hedges⟩ := bind_eq_ok.1 hedges
    obtain ⟨dist, hdist, hedges⟩ := bind_eq_ok.1 hedges
    obtain ⟨eps, heps, hedges⟩ := bind_eq_ok.1 hedges
    obtain rfl := Option.some.inj (pure_eq_ok.1 hedges)
    obtain ⟨hlon, hlat⟩ := Edges.two_le_length_ofBox hbox
    exact ⟨Edges.two_le_length_ofRange hmag, Edges.two_le_length_ofRange hdist, hlon, hlat,
      length_epsilonEdges heps⟩
  next => cases pure_eq_ok.1 hedges

omit [Scalar R] in
theorem Counted.exists_shape (h : edges.Counted cfg) (regions : Nat) :
    ∃ shape, edges.shape regions = .ok shape ∧ shape.eps = cfg.epsilonBins := by
  have hsome : ∀ {axis : List R}, 2 ≤ axis.length → axis ≠ [] :=
    fun hlength hnil => by simp [hnil] at hlength
  have heps : edges.eps ≠ [] := fun hnil => by simpa [hnil] using h.eps
  refine ⟨_, if_neg ?_, by rw [h.eps, Nat.add_sub_cancel]⟩
  simp [axes, hsome h.mag, hsome h.dist, hsome h.lon, hsome h.lat, heps]

end BinEdges

/-! ## Bins between counted edges -/

namespace Binning

variable {edges : List R}

/-- Among two edges or more, every number has a bin. -/
theorem ends_bin (hlength : 2 ≤ edges.length) (value : R) :
    Ends (fun e => Scalar.isNaN value = true ∧ e = .geometry .coordinateNaN)
      (fun i => i + 1 < edges.length) (bin edges value) := by
  unfold bin
  split
  next hnan => exact ⟨hnan, rfl⟩
  next =>
    rw [if_neg (by omega)]
    change min _ _ + 1 < edges.length
    omega

/-- The way to the last of some longitude edges from the first one. -/
def spanned (edges : List R) : R := (offsets edges).getLast?.getD 0

theorem ends_lonBin (hlength : 2 ≤ edges.length) (lon : R) :
    Ends (fun e => (Scalar.isNaN lon = true ∧ e = .geometry .longitudeNaN) ∨
        ∃ west, edges.head? = some west ∧
          Scalar.isNaN (offset west (spanned edges) lon) = true ∧ e = .geometry .coordinateNaN)
      (fun i => i + 1 < edges.length) (lonBin edges (offsets edges) lon) := by
  unfold lonBin
  split
  next hnan => exact .inl ⟨hnan, rfl⟩
  next =>
    split
    next => simp at hlength
    next west rest =>
      have hoffsets := length_offsets (List.cons_ne_nil west rest)
      have hbin := ends_bin (hoffsets ▸ hlength) (offset west (spanned (west :: rest)) lon)
      rw [hoffsets] at hbin
      exact hbin.weaken fun e ⟨hnan, he⟩ => .inr ⟨west, rfl, hnan, he⟩

end Binning

/-- Why a rupture has no cell: one of its coordinates, or its way from the first longitude edge, is
no number. -/
inductive Unplaceable (edges : BinEdges R) (mag dist : R) (closest : Point R) : Fault R → Prop
  | mag (nan : Scalar.isNaN mag = true) :
      Unplaceable edges mag dist closest (.geometry .coordinateNaN)
  | dist (nan : Scalar.isNaN dist = true) :
      Unplaceable edges mag dist closest (.geometry .coordinateNaN)
  | lon (nan : Scalar.isNaN closest.lon = true) :
      Unplaceable edges mag dist closest (.geometry .longitudeNaN)
  | offset (west : R) (first : edges.lon.head? = some west)
      (nan : Scalar.isNaN (Binning.offset west (Binning.spanned edges.lon) closest.lon) = true) :
      Unplaceable edges mag dist closest (.geometry .coordinateNaN)
  | lat (nan : Scalar.isNaN closest.lat = true) :
      Unplaceable edges mag dist closest (.geometry .coordinateNaN)

/-- Between counted edges, a contribution of a declared region has a cell of the matrix unless it is
unplaceable. -/
theorem Arrangement.ends_cell {edges : BinEdges R} {cfg : Config R} (hedges : edges.Counted cfg)
    {regions : Nat} {shape : Shape} (hshape : edges.shape regions = .ok shape)
    {c : Contribution R} (htrt : c.trt < regions) :
    Ends (fun e => ∃ fault, Unplaceable edges c.mag c.dist ⟨c.lon, c.lat⟩ fault ∧ e = .of fault)
      (fun k => shape.holds k = true) (cell edges (Binning.offsets edges.lon) regions c) := by
  obtain ⟨smag, sdist, slon, slat, strt, _⟩ := BinEdges.shape_eq_ok hshape
  unfold cell
  rw [if_neg (by omega)]
  apply ((Binning.ends_bin hedges.mag c.mag).weaken ?_).bind
  · intro mag _ hmag
    apply ((Binning.ends_bin hedges.dist c.dist).weaken ?_).bind
    · intro dist _ hdist
      apply ((Binning.ends_lonBin hedges.lon c.lon).weaken ?_).bind
      · intro lon _ hlon
        apply ((Binning.ends_bin hedges.lat c.lat).weaken ?_).bind
        · intro lat _ hlat
          apply Shape.holds_iff.2
          dsimp only
          omega
        · rintro e ⟨hnan, rfl⟩
          exact ⟨_, .lat hnan, rfl⟩
      · rintro e (⟨hnan, rfl⟩ | ⟨west, hwest, hnan, rfl⟩)
        · exact ⟨_, .lon hnan, rfl⟩
        · exact ⟨_, .offset west hwest hnan, rfl⟩
    · rintro e ⟨hnan, rfl⟩
      exact ⟨_, .dist hnan, rfl⟩
  · rintro e ⟨hnan, rfl⟩
    exact ⟨_, .mag hnan, rfl⟩

end SeismicHazard
