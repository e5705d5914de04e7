import SeismicHazard.Edges
import SeismicHazard.Proofs.Outcome

/-!
# Bounds and the edges built from them

Bounds of ruptures and of magnitudes exist as soon as there is one of them. Edges are built where
both are known, and from nothing but the extremes.
-/

namespace SeismicHazard

variable {R : Type} [Scalar R]

namespace SiteBounds

/-- The bounds of a list of ruptures, given by their distances and closest points. -/
def ofList (ruptures : List (R × Point R)) : SiteBounds R :=
  ruptures.foldl (fun bounds rupture => bounds.insert rupture.1 rupture.2) empty

theorem ofList_append_singleton (xs : List (R × Point R)) (x : R × Point R) :
    ofList (xs ++ [x]) = (ofList xs).insert x.1 x.2 := by
  simp [ofList]

omit [Scalar R] in
theorem distanceRange?_eq_some {bounds : SiteBounds R} {range : R × R} :
    bounds.distanceRange? = some range ↔
      ∃ s, bounds = ⟨some s⟩ ∧ range = (s.minDist, s.maxDist) := by
  obtain ⟨spread?⟩ := bounds
  cases spread? <;> simp [distanceRange?, eq_comm]

theorem boundingBox?_eq_some {bounds : SiteBounds R} {box : BoundingBox R} :
    bounds.boundingBox? = .ok (some box) ↔
      ∃ s, bounds = ⟨some s⟩ ∧ s.boundingBox = .ok box := by
  obtain ⟨spread?⟩ := bounds
  cases spread? <;> simp [boundingBox?, map_eq_ok]

theorem exists_spread {xs : List (R × Point R)} (hnonempty : xs ≠ []) :
    ∃ s, ofList xs = ⟨some s⟩ := by
  obtain ⟨before, x, rfl⟩ := List.eq_nil_or_concat xs |>.resolve_left hnonempty
  rw [List.concat_eq_append, ofList_append_singleton]
  obtain ⟨spread?⟩ := ofList before
  cases spread? with
  | none => exact ⟨_, rfl⟩
  | some s => exact ⟨_, rfl⟩

end SiteBounds

theorem MagRange.exists_range {mags : List R} (hnonempty : mags ≠ []) :
    ∃ range, (MagRange.ofList mags : Option (MagRange R)) = some range := by
  obtain ⟨before, mag, rfl⟩ := List.eq_nil_or_concat mags |>.resolve_left hnonempty
  rw [List.concat_eq_append, MagRange.ofList, List.foldl_append, List.foldl_cons, List.foldl_nil]
  cases List.foldl MagRange.extend none before with
  | none => exact ⟨_, rfl⟩
  | some range => exact ⟨_, rfl⟩

namespace BinEdges

/-- Edges built from extremes. -/
structure Built (s : Spread R) (mags : MagRange R) (cfg : Config R) (edges : BinEdges R) :
    Prop where
  box : ∃ box, s.boundingBox = .ok box ∧
    Edges.ofBox box cfg.coordinateBinWidth = .ok (edges.lon, edges.lat)
  mag : Edges.ofRange mags.low mags.high cfg.magBinWidth = .ok edges.mag
  dist : Edges.ofRange s.minDist s.maxDist cfg.distanceBinWidth = .ok edges.dist
  eps : cfg.epsilonEdges = .ok edges.eps

variable {s : Spread R} {mags : MagRange R} {cfg : Config R}

theorem ofBounds?_eq_ok {edges? : Option (BinEdges R)} :
    ofBounds? ⟨some s⟩ (some mags) cfg = .ok edges? ↔
      ∃ edges, edges? = some edges ∧ Built s mags cfg edges := by
  constructor
  · intro h
    obtain ⟨_, hbox?, h⟩ := bind_eq_ok.1 h
    obtain ⟨box, hbox, rfl⟩ := map_eq_ok.1 hbox?
    obtain ⟨coordinates, hcoordinates, h⟩ := bind_eq_ok.1 h
    obtain ⟨mag, hmag, h⟩ := bind_eq_ok.1 h
    obtain ⟨dist, hdist, h⟩ := bind_eq_ok.1 h
    obtain ⟨eps, heps, h⟩ := bind_eq_ok.1 h
    exact ⟨_, (pure_eq_ok.1 h).symm, ⟨box, hbox, hcoordinates⟩, hmag, hdist, heps⟩
  · rintro ⟨edges, rfl, ⟨box, hbox, hcoordinates⟩, hmag, hdist, heps⟩
    exact bind_eq_ok.2 ⟨some box, map_eq_ok.2 ⟨box, hbox, rfl⟩,
      bind_eq_ok.2 ⟨(edges.lon, edges.lat), hcoordinates, bind_eq_ok.2 ⟨edges.mag, hmag,
        bind_eq_ok.2 ⟨edges.dist, hdist, bind_eq_ok.2 ⟨edges.eps, heps, rfl⟩⟩⟩⟩⟩

theorem ofBounds?_empty {mags? : Option (MagRange R)} :
    ofBounds? SiteBounds.empty mags? cfg = .ok none := rfl

end BinEdges

end SeismicHazard
