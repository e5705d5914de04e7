import SeismicHazard.Edges
import SeismicHazard.Proofs.Failure

/-!
# Edges are built or refused

That no edges are built has its cause in the numbers: coordinates that have no box, or more edges
than can be indexed or stored.
-/

noncomputable section

namespace SeismicHazard

namespace Edges

theorem safe_ofRange (low high width : ℝ) : Safe (fun _ => True) (ofRange low high width) := by
  simp only [ofRange]
  split
  next => rfl
  next => exact (safe_reserve _).bind fun _ _ _ => trivial

theorem safe_points (west east : ℝ) (n : Nat) :
    Safe (fun _ => True) (Equator.points west east n) :=
  (safe_reserve n).bind fun _ _ _ => trivial

theorem safe_ofBox (box : BoundingBox ℝ) (width : ℝ) :
    Safe (fun _ => True) (ofBox box width) := by
  simp only [ofBox]
  split
  next => rfl
  next =>
    apply (safe_points _ _ _).bind
    intro lon _ _
    exact (safe_ofRange _ _ _).bind fun _ _ _ => trivial

end Edges

theorem BoundingBox.safe_ofPoints (lons lats : List ℝ) :
    Safe (fun _ => True) (ofPoints lons lats) := by
  unfold ofPoints
  split
  next => rfl
  next =>
    simp only []
    split
    next => rfl
    next =>
      split
      next =>
        cases acrossAntimeridian? lons with
        | none => rfl
        | some ends => trivial
      next => trivial

theorem Spread.safe_boundingBox (s : Spread ℝ) : Safe (fun _ => True) s.boundingBox :=
  (BoundingBox.safe_ofPoints _ _).bind fun _ _ _ => trivial

theorem SiteBounds.safe_boundingBox? (bounds : SiteBounds ℝ) :
    Safe (fun _ => True) bounds.boundingBox? := by
  unfold boundingBox?
  cases bounds.spread? with
  | none => trivial
  | some s => exact s.safe_boundingBox.map fun _ _ => trivial

theorem Config.safe_epsilonEdges (cfg : Config ℝ) : Safe (fun _ => True) cfg.epsilonEdges :=
  (safe_reserve _).bind fun _ _ _ => trivial

theorem BinEdges.safe_ofBounds? (bounds : SiteBounds ℝ) (mags : Option (MagRange ℝ))
    (cfg : Config ℝ) : Safe (fun _ => True) (ofBounds? bounds mags cfg) := by
  apply bounds.safe_boundingBox?.bind
  intro box? _ _
  split
  next =>
    apply (Edges.safe_ofBox _ _).bind
    rintro ⟨lon, lat⟩ _ _
    apply (Edges.safe_ofRange _ _ _).bind
    intro mag _ _
    apply (Edges.safe_ofRange _ _ _).bind
    intro dist _ _
    exact cfg.safe_epsilonEdges.bind fun _ _ _ => trivial
  next => trivial

end SeismicHazard

end
