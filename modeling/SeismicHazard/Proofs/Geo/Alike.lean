import SeismicHazard.Geo.BoundingBox
import SeismicHazard.Geo.Equator
import SeismicHazard.Proofs.Numeric.Alike
import SeismicHazard.Proofs.Outcome

/-!
# Places that are alike

Longitudes that compare alike are equally far from others, as far as comparisons tell. Boxes of such
points, and the points between their edges, are alike too.
-/

namespace SeismicHazard

open Scalar

variable {R : Type} [Scalar R] [RankRules R] [AlikeRules R]

theorem modulo_alike {x y step : R} (h : Alike x y) : Alike (modulo x step) (modulo y step) := by
  have hremainder : Alike (remainder x step) (remainder y step) := AlikeRules.remainder h
  exact .ite (hremainder.lt_iff (.refl 0)) (AlikeRules.add hremainder (.refl _)) hremainder

namespace Longitude

variable {west east west' east' : R}

theorem extent_alike (hwest : Alike west west') (heast : Alike east east') :
    Alike (extent west east) (extent west' east') :=
  AlikeRules.sub (modulo_alike (AlikeRules.add (AlikeRules.sub heast hwest) (.refl _))) (.refl _)

theorem eastward_alike (hwest : Alike west west') (heast : Alike east east') :
    Alike (eastward west east) (eastward west' east') := by
  have hextent := extent_alike hwest heast
  exact .ite (hextent.lt_iff (.refl 0)) (AlikeRules.add hextent (.refl _)) hextent

theorem normalize_alike {lon lon' : R} (h : Alike lon lon') :
    Alike (normalize lon) (normalize lon') :=
  .ite (Alike.lt_iff (.refl _) h) (AlikeRules.sub h (.refl _))
    (.ite (h.lt_iff (.refl _)) (AlikeRules.add h (.refl _)) h)

end Longitude

namespace Equator

open Longitude

variable {west east west' east' : R}

theorem way_alike (hwest : Alike west west') (heast : Alike east east') :
    Alike (way west east) (way west' east') := by
  have hextent := extent_alike hwest heast
  refine .ite ?_ (AlikeRules.add hextent (.refl _)) hextent
  rw [hextent.lt_iff (.refl 0), hextent.same_eq (.refl 0), hwest.same_eq heast]

theorem spaced_alike (hwest : Alike west west') (heast : Alike east east') (n : Nat) :
    List.Forall₂ Alike (spaced west east n) (spaced west' east' n) := by
  match n with
  | 0 => exact .nil
  | 1 => exact .cons (normalize_alike hwest) .nil
  | n + 2 =>
      have hstep : Alike (way west east / ((n + 2 - 1 : Nat) : R))
          (way west' east' / ((n + 2 - 1 : Nat) : R)) := AlikeRules.div (way_alike hwest heast)
      simp only [spaced, List.forall₂_map_left_iff, List.forall₂_map_right_iff, List.forall₂_same]
      exact fun i _ => normalize_alike (AlikeRules.add hwest (AlikeRules.mul hstep (.refl _)))

theorem points_agree (hwest : Alike west west') (heast : Alike east east') (n : Nat) :
    Agree (List.Forall₂ Alike) (points west east n) (points west' east' n) := by
  exact .bind_same _ fun _ => .ok (spaced_alike hwest heast n)

end Equator

namespace BoundingBox

/-- Boxes with edges that are alike. -/
structure Alike (a b : BoundingBox R) : Prop where
  west : Scalar.Alike a.west b.west
  east : Scalar.Alike a.east b.east
  north : Scalar.Alike a.north b.north
  south : Scalar.Alike a.south b.south

variable {lons lats lons' lats' : List R}

omit [AlikeRules R] in
theorem leastOf_alike (h : List.Forall₂ Scalar.Alike lons lons') :
    Scalar.Alike (leastOf lons) (leastOf lons') :=
  Alike.getD (least?_alike h) _

omit [AlikeRules R] in
theorem greatestOf_alike (h : List.Forall₂ Scalar.Alike lons lons') :
    Scalar.Alike (greatestOf lons) (greatestOf lons') :=
  Alike.getD (greatest?_alike h) _

theorem between_eq {west east lon west' east' lon' : R} (hwest : Scalar.Alike west west')
    (heast : Scalar.Alike east east') (hlon : Scalar.Alike lon lon') :
    between west east lon = between west' east' lon' := by
  simp only [between, Alike.le_iff (.refl 0) (Longitude.extent_alike hwest hlon),
    Alike.le_iff (.refl 0) (Longitude.extent_alike hlon heast)]

theorem all_between_eq {west east west' east' : R} (hwest : Scalar.Alike west west')
    (heast : Scalar.Alike east east') (h : List.Forall₂ Scalar.Alike lons lons') :
    lons.all (between west east) = lons'.all (between west' east') := by
  induction h with
  | nil => rfl
  | cons hhead _ ih => rw [List.all_cons, List.all_cons, between_eq hwest heast hhead, ih]

theorem acrossAntimeridian?_alike (h : List.Forall₂ Scalar.Alike lons lons') :
    Option.Rel (fun a b => Scalar.Alike a.1 b.1 ∧ Scalar.Alike a.2 b.2)
      (acrossAntimeridian? lons) (acrossAntimeridian? lons') := by
  have hpositive := least?_alike (List.rel_filter
    (p := fun lon => decide (0 < lon)) (q := fun lon => decide (0 < lon))
    (fun _ _ hlon => by simp only [decide_eq_true_eq, Alike.lt_iff (.refl 0) hlon]) h)
  have hnegative := greatest?_alike (List.rel_filter
    (p := fun lon => decide (lon < 0)) (q := fun lon => decide (lon < 0))
    (fun _ _ hlon => by simp only [decide_eq_true_eq, hlon.lt_iff (.refl 0)]) h)
  unfold acrossAntimeridian?
  generalize least? (lons.filter fun lon => decide (0 < lon)) = west?,
    least? (lons'.filter fun lon => decide (0 < lon)) = west?' at hpositive
  generalize greatest? (lons.filter fun lon => decide (lon < 0)) = east?,
    greatest? (lons'.filter fun lon => decide (lon < 0)) = east?' at hnegative
  cases hpositive with
  | none => exact .none
  | @some west west' hwest =>
      cases hnegative with
      | none => exact .none
      | @some east east' heast =>
          simp only [Option.bind_eq_bind, Option.bind_some, all_between_eq hwest heast h]
          cases lons'.all (between west' east') with
          | false => exact .none
          | true => exact .some ⟨hwest, heast⟩

/-- Points that are alike have boxes that are alike, or none of them has one. -/
theorem ofPoints_agree (hlons : List.Forall₂ Scalar.Alike lons lons')
    (hlats : List.Forall₂ Scalar.Alike lats lats') :
    Agree Alike (ofPoints lons lats) (ofPoints lons' lats') := by
  have hwest := leastOf_alike hlons
  have heast := greatestOf_alike hlons
  have hempty : (lons.isEmpty || lons.length != lats.length) =
      (lons'.isEmpty || lons'.length != lats'.length) := by
    rw [hlons.length_eq, hlats.length_eq]
    cases hlons <;> rfl
  simp only [ofPoints, hempty, hwest.within_eq, heast.within_eq,
    (Longitude.extent_alike hwest heast).lt_iff (.refl 0)]
  split
  next => exact .error _ _
  next =>
    split
    next => exact .error _ _
    next =>
      split
      next =>
        have hacross := acrossAntimeridian?_alike hlons
        generalize acrossAntimeridian? lons = a?, acrossAntimeridian? lons' = b? at hacross
        cases hacross with
        | none => exact .error _ _
        | some h => exact .ok ⟨h.1, h.2, greatestOf_alike hlats, leastOf_alike hlats⟩
      next => exact .ok ⟨hwest, heast, greatestOf_alike hlats, leastOf_alike hlats⟩

end BoundingBox

end SeismicHazard
