import SeismicHazard.Proofs.Collection.Sources
import SeismicHazard.Proofs.Edges.Alike

/-!
# Bins between edges that are alike

Edges that compare alike have the same bins, so that every contribution has the same cell between
them, or none for the same reason, and every source counts with the same.
-/

noncomputable section

namespace SeismicHazard

open Scalar

variable {R : Type} [Scalar R] [RankRules R]

namespace Binning

variable {edges edges' : List R} {value value' : R}

theorem any_getElem?_eq (hedges : List.Forall₂ Alike edges edges') (hvalue : Alike value value')
    (i : Nat) :
    edges[i]?.any (fun edge => decide (edge ≤ value)) =
      edges'[i]?.any (fun edge => decide (edge ≤ value')) := by
  induction hedges generalizing i with
  | nil => rfl
  | cons hhead _ ih =>
      cases i with
      | zero => simp [hhead.le_iff hvalue]
      | succ i => simpa using ih i

theorem bin_eq_of_alike (hedges : List.Forall₂ Alike edges edges') (hvalue : Alike value value') :
    bin edges value = bin edges' value' := by
  have hcount : edgesAtMost value edges.toArray = edgesAtMost value' edges'.toArray := by
    simp only [edgesAtMost, List.getElem?_toArray, List.size_toArray, hedges.length_eq,
      any_getElem?_eq hedges hvalue]
  simp only [bin, hvalue.isNaN_eq, hedges.length_eq, hcount]

variable [AlikeRules R]

theorem offsets_alike (hedges : List.Forall₂ Alike edges edges') :
    List.Forall₂ Alike (offsets edges) (offsets edges') := by
  suffices h : ∀ {start start' : R}, Alike start start' →
      List.Forall₂ Alike (offsetsFrom start edges) (offsetsFrom start' edges') from
    .cons (.refl 0) (h (.refl 0))
  -- the running sums are alike, edge after edge
  induction hedges with
  | nil => exact fun _ => .nil
  | cons hwest hrest ih =>
      intro start start' hstart
      cases hrest with
      | nil => exact .nil
      | cons heast =>
          have hnext := AlikeRules.add hstart (Longitude.eastward_alike hwest heast)
          exact .cons hnext (ih hnext)

theorem offset_alike {west west' span span' lon : R} (hwest : Alike west west')
    (hspan : Alike span span') : Alike (offset west span lon) (offset west' span' lon) := by
  have hway := Longitude.extent_alike hwest (.refl lon)
  have hturn := AlikeRules.add hway (.refl (360 : R))
  refine .ite ?_ hturn hway
  rw [hway.lt_iff (.refl 0), hturn.le_iff (AlikeRules.add hspan (.refl _))]

theorem lonBin_eq_of_alike (hedges : List.Forall₂ Alike edges edges') (lon : R) :
    lonBin edges (offsets edges) lon = lonBin edges' (offsets edges') lon := by
  have hoffsets := offsets_alike hedges
  have hspan : Alike ((offsets edges).getLast?.getD 0) ((offsets edges').getLast?.getD 0) := by
    refine Alike.getD ?_ 0
    rw [List.getLast?_eq_head?_reverse, List.getLast?_eq_head?_reverse]
    have hreverse := List.rel_reverse hoffsets
    generalize (offsets edges).reverse = xs, (offsets edges').reverse = ys at hreverse ⊢
    cases hreverse with
    | nil => exact .none
    | cons hlast => exact .some hlast
  cases hedges with
  | nil => rfl
  | cons hwest => rw [lonBin, lonBin, bin_eq_of_alike hoffsets (offset_alike hwest hspan)]

end Binning

namespace BinEdges.Alike

variable {edges edges' : BinEdges R}

omit [RankRules R] in
theorem shape_eq (h : edges.Alike edges') (regions : Nat) :
    edges.shape regions = edges'.shape regions := by
  have hempty : edges.axes.any (fun axis => axis.2.isEmpty) =
      edges'.axes.any (fun axis => axis.2.isEmpty) := by
    have hlon : ∀ {xs ys : List R}, List.Forall₂ Scalar.Alike xs ys → xs.isEmpty = ys.isEmpty := by
      rintro _ _ (_ | _) <;> rfl
    simp only [axes, List.any_cons, h.mag, h.dist, hlon h.lon, h.lat, h.eps]
  rw [shape, shape, hempty, h.mag, h.dist, h.lon.length_eq, h.lat, h.eps]

theorem cell_eq [AlikeRules R] (h : edges.Alike edges') (regions : Nat) (c : Contribution R) :
    Arrangement.cell edges (Binning.offsets edges.lon) regions c =
      Arrangement.cell edges' (Binning.offsets edges'.lon) regions c := by
  simp only [Arrangement.cell, h.mag, h.dist, Binning.lonBin_eq_of_alike h.lon, h.lat]

end BinEdges.Alike

/-- Between edges that are alike a source counts with the same. -/
theorem Collection.shares_eq_of_alike [AlikeRules R] [NormalCdf R] {ctx : SiteContext R}
    {edges : BinEdges R} (h : ctx.edges.Alike edges) (site : Site R) (source : Source R) :
    shares site { ctx with edges := edges } source = shares site ctx source := by
  have hplace : place site { ctx with edges := edges } = place site ctx := by
    funext targets region trt rupture
    simp only [place, ← h.cell_eq]
    rfl
  have hsharesFor : sharesFor site { ctx with edges := edges } = sharesFor site ctx := by
    funext key placed
    simp only [sharesFor, ← h.shape_eq]
    rfl
  have hplacedOf : placedOf site { ctx with edges := edges } = placedOf site ctx := by
    funext targets source
    simp only [placedOf, hplace]
  have hsharesAt : sharesAt site { ctx with edges := edges } = sharesAt site ctx := by
    funext targets placed
    simp only [sharesAt, hsharesFor]
  simp only [shares, hplacedOf, hsharesAt]
  rfl

end SeismicHazard

end
