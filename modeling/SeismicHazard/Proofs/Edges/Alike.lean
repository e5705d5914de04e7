import SeismicHazard.Proofs.Edges.Bounds
import SeismicHazard.Proofs.Geo.Alike

/-!
# Edges from ruptures in another order

Which of several extremes that are alike is kept can depend on the order in which ruptures are taken
in. Edges are built from them all the same, or none are. Those of magnitude, distance and latitude
are multiples of a width and come out equal, and those of longitude come out alike.
-/

namespace SeismicHazard

open Scalar

section Folding

variable {α β : Type} {r : β → β → Prop}

theorem optionRel_refl (hrefl : ∀ b, r b b) (b? : Option β) : Option.Rel r b? b? := by
  cases b? with
  | none => exact .none
  | some b => exact .some (hrefl b)

theorem optionRel_trans (htrans : ∀ a b c, r a b → r b c → r a c) {a? b? c? : Option β}
    (hab : Option.Rel r a? b?) (hbc : Option.Rel r b? c?) : Option.Rel r a? c? := by
  cases hab with
  | none => exact hbc
  | some hab =>
      cases hbc with
      | some hbc => exact .some (htrans _ _ _ hab hbc)

theorem optionRel_eq (heq : ∀ {a b}, r a b → a = b) {a? b? : Option β}
    (h : Option.Rel r a? b?) : a? = b? := by
  cases h with
  | none => rfl
  | some h => rw [heq h]

theorem forall₂_replicate {b b' : β} (h : r b b') (n : Nat) :
    List.Forall₂ r (List.replicate n b) (List.replicate n b') := by
  induction n with
  | zero => exact .nil
  | succ n ih => exact .cons h ih

/-- A fold whose steps can be exchanged, up to a relation, ends in related values for any order of
the list. -/
theorem rel_foldl_perm {f : β → α → β} (hrefl : ∀ b, r b b)
    (htrans : ∀ a b c, r a b → r b c → r a c) (hstep : ∀ {b b'} x, r b b' → r (f b x) (f b' x))
    (hcomm : ∀ b x y, r (f (f b x) y) (f (f b y) x)) {xs ys : List α} (hperm : xs.Perm ys) (b : β) :
    r (xs.foldl f b) (ys.foldl f b) := by
  have hfold : ∀ {b b'} (zs : List α), r b b' → r (zs.foldl f b) (zs.foldl f b') := by
    intro b b' zs hb
    induction zs generalizing b b' with
    | nil => exact hb
    | cons z _ ih => exact ih (hstep z hb)
  induction hperm generalizing b with
  | nil => exact hrefl b
  | cons x _ ih => exact ih (f b x)
  | swap x y zs => exact hfold zs (hcomm b y x)
  | trans _ _ ihxy ihyz => exact htrans _ _ _ (ihxy b) (ihyz b)

end Folding

variable {R : Type} [Scalar R]

/-! ## Extremes -/

/-- Ranges with extremes that are alike. -/
structure MagRange.Alike (a b : MagRange R) : Prop where
  low : Scalar.Alike a.low b.low
  high : Scalar.Alike a.high b.high

/-- Extremes that are alike one by one. -/
structure Spread.Alike (s t : Spread R) : Prop where
  count : s.count = t.count
  minDist : Scalar.Alike s.minDist t.minDist
  maxDist : Scalar.Alike s.maxDist t.maxDist
  minLon : Scalar.Alike s.minLon t.minLon
  maxLon : Scalar.Alike s.maxLon t.maxLon
  minPositiveLon : Option.Rel Scalar.Alike s.minPositiveLon t.minPositiveLon
  maxNegativeLon : Option.Rel Scalar.Alike s.maxNegativeLon t.maxNegativeLon
  onGreenwich : s.onGreenwich = t.onGreenwich
  minLat : Scalar.Alike s.minLat t.minLat
  maxLat : Scalar.Alike s.maxLat t.maxLat

/-- Where values that are alike are equal, so are extremes. -/
theorem Spread.Alike.eq [ExactRules R] {s t : Spread R} (h : s.Alike t) : s = t := by
  obtain ⟨hcount, hminDist, hmaxDist, hminLon, hmaxLon, hpositive, hnegative, hgreenwich, hminLat,
    hmaxLat⟩ := h
  cases s
  cases t
  rw [Spread.mk.injEq]
  exact ⟨hcount, hminDist.eq, hmaxDist.eq, hminLon.eq, hmaxLon.eq,
    optionRel_eq Scalar.Alike.eq hpositive, optionRel_eq Scalar.Alike.eq hnegative, hgreenwich,
    hminLat.eq, hmaxLat.eq⟩

variable [RankRules R]

namespace MagRange

theorem extend_alike {range range' : Option (MagRange R)} (mag : R)
    (h : Option.Rel Alike range range') :
    Option.Rel Alike (extend range mag) (extend range' mag) := by
  cases h with
  | none => exact .some ⟨.refl mag, .refl mag⟩
  | some h => exact .some ⟨h.low.lesser (.refl mag), h.high.greater (.refl mag)⟩

theorem extend_right_comm (range : Option (MagRange R)) (a b : R) :
    Option.Rel Alike (extend (extend range a) b) (extend (extend range b) a) := by
  cases range with
  | none => exact .some ⟨lesser_comm a b, greater_comm a b⟩
  | some r => exact .some ⟨lesser_right_comm r.low a b, greater_right_comm r.high a b⟩

theorem ofList_perm {xs ys : List R} (hperm : xs.Perm ys) :
    Option.Rel Alike (ofList xs) (ofList ys) :=
  rel_foldl_perm (optionRel_refl fun _ => ⟨.refl _, .refl _⟩)
    (fun _ _ _ => optionRel_trans fun _ _ _ h k => ⟨h.low.trans k.low, h.high.trans k.high⟩)
    extend_alike extend_right_comm hperm none

end MagRange

namespace Spread

section Combine

variable {op : R → R → R} (hcongr : ∀ {x x' y y' : R}, Scalar.Alike x x' → Scalar.Alike y y' →
    Scalar.Alike (op x y) (op x' y'))
  (hcomm : ∀ x y, Scalar.Alike (op x y) (op y x))
  (hright : ∀ x y z, Scalar.Alike (op (op x y) z) (op (op x z) y))

include hcongr in
omit [RankRules R] in
theorem combine_alike {a b a' b' : Option R} (ha : Option.Rel Scalar.Alike a a')
    (hb : Option.Rel Scalar.Alike b b') :
    Option.Rel Scalar.Alike (combine op a b) (combine op a' b') := by
  cases ha with
  | none => exact hb
  | some ha =>
      cases hb with
      | none => exact .some ha
      | some hb => exact .some (hcongr ha hb)

include hcomm in
theorem combine_comm (a b : Option R) :
    Option.Rel Scalar.Alike (combine op a b) (combine op b a) := by
  cases a with
  | none => cases b <;> exact optionRel_refl .refl _
  | some x =>
      cases b with
      | none => exact optionRel_refl .refl _
      | some y => exact .some (hcomm x y)

include hcomm hright in
theorem combine_right_comm (a b c : Option R) :
    Option.Rel Scalar.Alike (combine op (combine op a b) c) (combine op (combine op a c) b) := by
  cases a with
  | none => exact combine_comm hcomm b c
  | some x =>
      cases b with
      | none => cases c <;> exact optionRel_refl .refl _
      | some y =>
          cases c with
          | none => exact optionRel_refl .refl _
          | some z => exact .some (hright x y z)

end Combine

theorem join_alike {s t s' t' : Spread R} (hs : s.Alike s') (ht : t.Alike t') :
    (s.join t).Alike (s'.join t') where
  count := congrArg₂ (· + ·) hs.count ht.count
  minDist := hs.minDist.lesser ht.minDist
  maxDist := hs.maxDist.greater ht.maxDist
  minLon := hs.minLon.lesser ht.minLon
  maxLon := hs.maxLon.greater ht.maxLon
  minPositiveLon := combine_alike Scalar.Alike.lesser hs.minPositiveLon ht.minPositiveLon
  maxNegativeLon := combine_alike Scalar.Alike.greater hs.maxNegativeLon ht.maxNegativeLon
  onGreenwich := congrArg₂ (· || ·) hs.onGreenwich ht.onGreenwich
  minLat := hs.minLat.lesser ht.minLat
  maxLat := hs.maxLat.greater ht.maxLat

theorem join_comm (s t : Spread R) : (s.join t).Alike (t.join s) where
  count := Nat.add_comm _ _
  minDist := lesser_comm _ _
  maxDist := greater_comm _ _
  minLon := lesser_comm _ _
  maxLon := greater_comm _ _
  minPositiveLon := combine_comm lesser_comm _ _
  maxNegativeLon := combine_comm greater_comm _ _
  onGreenwich := Bool.or_comm _ _
  minLat := lesser_comm _ _
  maxLat := greater_comm _ _

theorem join_right_comm (s a b : Spread R) : ((s.join a).join b).Alike ((s.join b).join a) where
  count := Nat.add_right_comm _ _ _
  minDist := lesser_right_comm _ _ _
  maxDist := greater_right_comm _ _ _
  minLon := lesser_right_comm _ _ _
  maxLon := greater_right_comm _ _ _
  minPositiveLon := combine_right_comm lesser_comm lesser_right_comm _ _ _
  maxNegativeLon := combine_right_comm greater_comm greater_right_comm _ _ _
  onGreenwich := Bool.or_right_comm _ _ _
  minLat := lesser_right_comm _ _ _
  maxLat := greater_right_comm _ _ _

theorem Alike.refl (s : Spread R) : s.Alike s where
  count := rfl
  minDist := .refl _
  maxDist := .refl _
  minLon := .refl _
  maxLon := .refl _
  minPositiveLon := optionRel_refl .refl _
  maxNegativeLon := optionRel_refl .refl _
  onGreenwich := rfl
  minLat := .refl _
  maxLat := .refl _

theorem Alike.trans {s t u : Spread R} (h : s.Alike t) (k : t.Alike u) : s.Alike u where
  count := h.count.trans k.count
  minDist := h.minDist.trans k.minDist
  maxDist := h.maxDist.trans k.maxDist
  minLon := h.minLon.trans k.minLon
  maxLon := h.maxLon.trans k.maxLon
  minPositiveLon := optionRel_trans (r := Scalar.Alike) (fun _ _ _ => Scalar.Alike.trans)
    h.minPositiveLon k.minPositiveLon
  maxNegativeLon := optionRel_trans (r := Scalar.Alike) (fun _ _ _ => Scalar.Alike.trans)
    h.maxNegativeLon k.maxNegativeLon
  onGreenwich := h.onGreenwich.trans k.onGreenwich
  minLat := h.minLat.trans k.minLat
  maxLat := h.maxLat.trans k.maxLat

end Spread

namespace SiteBounds

/-- Bounds of equally many ruptures with extremes that are alike. -/
def Alike (a b : SiteBounds R) : Prop := Option.Rel Spread.Alike a.spread? b.spread?

theorem insert_alike {bounds bounds' : SiteBounds R} (rupture : R × Point R)
    (h : bounds.Alike bounds') :
    (bounds.insert rupture.1 rupture.2).Alike (bounds'.insert rupture.1 rupture.2) := by
  obtain ⟨s?⟩ := bounds
  obtain ⟨t?⟩ := bounds'
  cases h with
  | none => exact .some (.refl _)
  | some h => exact .some (Spread.join_alike h (.refl _))

theorem insert_right_comm (bounds : SiteBounds R) (x y : R × Point R) :
    ((bounds.insert x.1 x.2).insert y.1 y.2).Alike ((bounds.insert y.1 y.2).insert x.1 x.2) := by
  obtain ⟨s?⟩ := bounds
  cases s? with
  | none => exact .some (Spread.join_comm _ _)
  | some s => exact .some (Spread.join_right_comm _ _ _)

theorem ofList_perm {xs ys : List (R × Point R)} (hperm : xs.Perm ys) :
    (ofList xs).Alike (ofList ys) :=
  rel_foldl_perm (r := Alike) (fun _ => optionRel_refl Spread.Alike.refl _)
    (fun _ _ _ => optionRel_trans (r := Spread.Alike) fun _ _ _ => Spread.Alike.trans)
    insert_alike insert_right_comm hperm empty

end SiteBounds

/-! ## Edges -/

theorem Spread.decisiveLons_alike {s t : Spread R} (h : s.Alike t) :
    List.Forall₂ Scalar.Alike s.decisiveLons t.decisiveLons := by
  have htoList : ∀ {a b : Option R}, Option.Rel Scalar.Alike a b →
      List.Forall₂ Scalar.Alike a.toList b.toList := by
    intro a b hab
    cases hab with
    | none => exact .nil
    | some hab => exact .cons hab .nil
  have hends : List.Forall₂ Scalar.Alike [s.minLon, s.maxLon] [t.minLon, t.maxLon] :=
    .cons h.minLon (.cons h.maxLon .nil)
  have hgreenwich : List.Forall₂ Scalar.Alike (if s.onGreenwich then [(0 : R)] else [])
      (if t.onGreenwich then [(0 : R)] else []) := by
    rw [h.onGreenwich]
    exact List.forall₂_same.2 fun _ _ => .refl _
  exact List.rel_append (List.rel_append (List.rel_append hends (htoList h.minPositiveLon))
    (htoList h.maxNegativeLon)) hgreenwich

variable [AlikeRules R]

theorem Spread.boundingBox_agree {s t : Spread R} (h : s.Alike t) :
    Agree BoundingBox.Alike s.boundingBox t.boundingBox := by
  have hlons := s.decisiveLons_alike h
  have hlats : List.Forall₂ Scalar.Alike (List.replicate s.decisiveLons.length s.minLat)
      (List.replicate t.decisiveLons.length t.minLat) := by
    rw [hlons.length_eq]
    exact forall₂_replicate h.minLat _
  exact (BoundingBox.ofPoints_agree hlons hlats).bind fun _ _ hbox =>
    .ok ⟨hbox.west, hbox.east, h.maxLat, hbox.south⟩

namespace Edges

omit [RankRules R] in
/-- Multiples of a width around extremes that are alike are equal. -/
theorem ofRange_eq_of_alike {low high low' high' : R} (hlow : Alike low low')
    (hhigh : Alike high high') (width : R) : ofRange low high width = ofRange low' high' width := by
  have hindices : indices low high width = indices low' high' width := by
    have hfirst : toLong (floor (low / width)) = toLong (floor (low' / width)) :=
      AlikeRules.wholePart (AlikeRules.floor (AlikeRules.div hlow))
    have hlast : toLong (ceil (high / width)) = toLong (ceil (high' / width)) :=
      AlikeRules.wholePart (AlikeRules.ceil (AlikeRules.div hhigh))
    simp only [indices, hfirst, hlast]
  rw [ofRange, ofRange, hindices]

theorem snapped_alike {box box' : BoundingBox R} (h : box.Alike box') (width : R) :
    Alike (snapped box width).1 (snapped box' width).1 ∧
      Alike (snapped box width).2.1 (snapped box' width).2.1 ∧
      Alike (snapped box width).2.2 (snapped box' width).2.2 := by
  have hwest : Alike (floor (box.west / width) * width) (floor (box'.west / width) * width) :=
    AlikeRules.mul (AlikeRules.floor (AlikeRules.div h.west)) (.refl _)
  have heast : Alike (ceil (box.east / width) * width) (ceil (box'.east / width) * width) :=
    AlikeRules.mul (AlikeRules.ceil (AlikeRules.div h.east)) (.refl _)
  have hway := Longitude.eastward_alike hwest heast
  simp only [snapped, hway.same_eq (.refl 0)]
  split
  next => exact ⟨hwest, Longitude.normalize_alike (AlikeRules.add hwest (.refl _)), .refl _⟩
  next => exact ⟨hwest, heast, hway⟩

theorem ofBox_agree {box box' : BoundingBox R} (h : box.Alike box') (width : R) :
    Agree (fun x y => List.Forall₂ Alike x.1 y.1 ∧ x.2 = y.2) (ofBox box width)
      (ofBox box' width) := by
  obtain ⟨hwest, heast, hway⟩ := snapped_alike h width
  have hbins : toCount (round ((snapped box width).2.2 / width)) =
      toCount (round ((snapped box' width).2.2 / width)) :=
    congrArg Int.toNat (AlikeRules.wholePart (AlikeRules.round (AlikeRules.div hway)))
  simp only [ofBox, hbins, ofRange_eq_of_alike h.south h.north]
  split
  next => exact .error _ _
  next =>
    refine (Equator.points_agree hwest heast _).bind fun lon lon' hlon => ?_
    exact .bind_same _ fun lat => .ok ⟨hlon, rfl⟩

end Edges

namespace BinEdges

/-- Edges that are equal, apart from those of longitude, which are alike. -/
structure Alike (a b : BinEdges R) : Prop where
  mag : a.mag = b.mag
  dist : a.dist = b.dist
  lon : List.Forall₂ Scalar.Alike a.lon b.lon
  lat : a.lat = b.lat
  eps : a.eps = b.eps

omit [RankRules R] [AlikeRules R] in
theorem Alike.eq [ExactRules R] {a b : BinEdges R} (h : a.Alike b) : a = b := by
  obtain ⟨hmag, hdist, hlon, hlat, heps⟩ := h
  have hlon : a.lon = b.lon := by
    rw [← List.forall₂_eq_eq_eq]
    exact hlon.imp fun _ _ h => h.eq
  cases a
  cases b
  simp_all

theorem ofBounds?_agree {bounds bounds' : SiteBounds R} (hbounds : bounds.Alike bounds')
    {mags mags' : Option (MagRange R)} (hmags : Option.Rel MagRange.Alike mags mags')
    (cfg : Config R) :
    Agree (Option.Rel Alike) (ofBounds? bounds mags cfg) (ofBounds? bounds' mags' cfg) := by
  obtain ⟨s?⟩ := bounds
  obtain ⟨t?⟩ := bounds'
  cases hbounds with
  | none => exact .ok .none
  | @some s t hspread =>
      unfold ofBounds? SiteBounds.boundingBox? SiteBounds.distanceRange?
      refine ((Spread.boundingBox_agree hspread).map (s := Option.Rel BoundingBox.Alike)
        fun _ _ => .some).bind fun box? box?' hbox => ?_
      cases hmags with
      | none => exact .ok .none
      | some hmags =>
          cases hbox with
          | none => exact .ok .none
          | some hbox =>
              refine (Edges.ofBox_agree hbox _).bind fun x y hxy => ?_
              simp only [Edges.ofRange_eq_of_alike hmags.low hmags.high,
                Edges.ofRange_eq_of_alike hspread.minDist hspread.maxDist]
              refine Agree.bind_same _ fun mag => Agree.bind_same _ fun dist =>
                Agree.bind_same _ fun eps => ?_
              exact .ok (.some ⟨rfl, rfl, hxy.1, hxy.2, rfl⟩)

end BinEdges

end SeismicHazard
