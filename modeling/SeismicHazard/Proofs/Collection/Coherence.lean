import SeismicHazard.Proofs.Collection.Sources
import SeismicHazard.Proofs.Contribution

/-!
# Where shares are kept

A share is kept under the site, a realization of the context, a probability and a measure. Its shape
follows from the edges of the context, and its level from the curve of its key. Shares of different
sources under a common key therefore fit into one matrix.
-/

noncomputable section

namespace SeismicHazard.Collection

open Share

variable {R : Type} [Scalar R] [NormalCdf R] {ctx : SiteContext R} {site : Site R}
  {targets : List (Target R)} {source : Source R}

/-- The contribution of a rupture with its cell, in the region of its source. -/
structure PlacedRupture (site : Site R) (ctx : SiteContext R) (targets : List (Target R))
    (source : Source R) (rupture : Rupture R) (placed : Placed R) : Prop where
  contribution : ∃ trt, ctx.regions.indexOf (R := R) source.region = .ok trt ∧
    Contribution.ofRupture ctx site targets source.region trt rupture = .ok placed.1
  cell : Arrangement.cell ctx.edges (Binning.offsets ctx.edges.lon) ctx.regions.size placed.1
    = .ok placed.2

/-- Where its region has a number, a rupture of a source is placed by its contribution and cell. -/
theorem place_eq_ok {trt : Nat} (htrt : ctx.regions.indexOf (R := R) source.region = .ok trt)
    {rupture : Rupture R} {placed : Placed R} :
    place site ctx targets source.region trt rupture = .ok placed ↔
      PlacedRupture site ctx targets source rupture placed := by
  simp only [place, bind_eq_ok, pure_eq_ok]
  constructor
  · rintro ⟨c, hc, k, hk, rfl⟩
    exact ⟨⟨trt, htrt, hc⟩, hk⟩
  · rintro ⟨⟨trt', htrt', hc⟩, hk⟩
    rw [htrt, Except.ok.injEq] at htrt'
    exact ⟨_, htrt' ▸ hc, _, hk, rfl⟩

theorem placedOf_eq_ok_iff_forall₂ {placed : List (Placed R)} :
    placedOf site ctx targets source = .ok placed ↔
      (source.isFar site.location ctx.cfg.maximumDistance = false →
          Succeeds source.ruptures) ∧
        List.Forall₂ (PlacedRupture site ctx targets source)
          (source.nearby site ctx.cfg.maximumDistance) placed := by
  rw [placedOf, bind_eq_ok]
  simp only [Source.near?_eq_ok]
  constructor
  · rintro ⟨_, ⟨hruptures, rfl⟩, hplaced⟩
    refine ⟨hruptures, ?_⟩
    split at hplaced
    next hnone =>
      split at hnone
      next hnil =>
        rw [hnil, ← pure_eq_ok.1 hplaced]
        exact .nil
      next => simp at hnone
    next group hsome =>
      split at hsome
      next => simp at hsome
      next =>
        rw [← Option.some.inj hsome] at hplaced
        obtain ⟨trt, htrt, hplaced⟩ := bind_eq_ok.1 hplaced
        exact (mapM_eq_ok.1 hplaced).imp fun _ _ h => (place_eq_ok htrt).1 h
  · rintro ⟨hruptures, hplaced⟩
    refine ⟨_, ⟨hruptures, rfl⟩, ?_⟩
    -- the region of the source is looked up only when a rupture is near
    by_cases hnil : source.nearby site ctx.cfg.maximumDistance = []
    · rw [hnil, List.forall₂_nil_left_iff] at hplaced
      rw [if_pos hnil, hplaced]
      rfl
    · rw [if_neg hnil]
      obtain ⟨trt, htrt⟩ : ∃ trt, ctx.regions.indexOf (R := R) source.region = .ok trt := by
        obtain ⟨rupture, rest, hcons⟩ := List.exists_cons_of_ne_nil hnil
        rw [hcons] at hplaced
        obtain ⟨p, _, hhead, _⟩ := List.forall₂_cons_left_iff.1 hplaced
        exact hhead.contribution.imp fun _ h => h.1
      exact bind_eq_ok.2 ⟨trt, htrt, mapM_eq_ok.2
        (hplaced.imp fun _ _ h => (place_eq_ok htrt).2 h)⟩

/-- A share of a context: it is kept under a realization of the context at the site, has the shape
that follows from the edges, and the level of the curve of its key. -/
structure Framed (site : Site R) (ctx : SiteContext R) (s : Share R) : Prop where
  site_eq : s.key.site = site.id
  regions_eq : s.key.regions = ctx.regions.names
  realization : ∃ realization ∈ ctx.realizations, s.key.realization = realization.id
  shape : ctx.edges.shape ctx.regions.size = .ok s.shape
  level : ∃ curve, ctx.curves.get? ⟨site.id, s.key.realization, s.key.imt⟩ = some curve ∧
    curve.levelFor s.key.poe.value ctx.cfg.extrapolation = .ok s.level

omit [NormalCdf R] in
/-- Two shares of a context under one key have one shape and one level. -/
theorem Framed.agree {site' : Site R} {s t : Share R} (hs : Framed site ctx s)
    (ht : Framed site' ctx t) (hkey : s.key = t.key) : s.shape = t.shape ∧ s.level = t.level := by
  have hsite : site.id = site'.id := by rw [← hs.site_eq, ← ht.site_eq, hkey]
  obtain ⟨curve, hcurve, hlevel⟩ := hs.level
  obtain ⟨curve', hcurve', hlevel'⟩ := ht.level
  refine ⟨Except.ok.inj (hs.shape.symm.trans ht.shape), ?_⟩
  rw [hkey, hsite] at hcurve
  rw [Option.some.inj (hcurve.symm.trans hcurve'), hkey] at hlevel
  exact Except.ok.inj (hlevel.symm.trans hlevel')

theorem mem_shares {s : Share R} (hs : s ∈ listed (shares site ctx source)) :
    ∃ targets placed, ctx.targets site = .ok targets ∧
      placedOf site ctx targets source = .ok placed ∧
      ∃ t ∈ targets, ∃ p ∈ placed, s ∈ listed (sharesFor site ctx t.key p) := by
  cases hshares : shares site ctx source with
  | error e => simp [hshares, listed] at hs
  | ok ss =>
      rw [hshares, listed_ok] at hs
      obtain ⟨targets, htargets, _⟩ := bind_eq_ok.1 hshares
      by_cases hnil : targets = []
      · rw [hnil] at htargets
        rw [shares_of_nil htargets, Except.ok.injEq] at hshares
        simp [← hshares] at hs
      · obtain ⟨placed, hplaced, hall, rfl⟩ := (shares_eq_ok hnil htargets).1 hshares
        obtain ⟨p, hp, hs⟩ := List.mem_flatMap.1 hs
        rw [sharesAt, listed_gather (hall p hp)] at hs
        obtain ⟨t, ht, hs⟩ := List.mem_flatMap.1 hs
        exact ⟨targets, placed, htargets, hplaced, t, ht, p, hp, hs⟩

variable [KeyRules R]

/-- A rupture near the site has a share for every target. -/
theorem exists_mem_shares {ss : List (Share R)} (hshares : shares site ctx source = .ok ss)
    (htargets : ctx.targets site = .ok targets) {t : Target R} (ht : t ∈ targets)
    {rupture : Rupture R} (hrupture : rupture ∈ source.nearby site ctx.cfg.maximumDistance) :
    ∃ s ∈ ss, s.key = resultKey site ctx t.key := by
  obtain ⟨placed, hplaced, hall, rfl⟩ :=
    (shares_eq_ok (List.ne_nil_of_mem ht) htargets).1 hshares
  obtain ⟨p, hp, hof⟩ :=
    exists_of_forall₂ (placedOf_eq_ok_iff_forall₂.1 hplaced).2.flip hrupture
  obtain ⟨_, _, hc⟩ := hof.contribution
  obtain ⟨value, hvalue⟩ := Contribution.exists_forTarget? htargets hc ht
  obtain ⟨part, hpart⟩ := hall p hp t ht
  obtain ⟨shape, cell, _, _, _, _, _, rfl⟩ := (sharesFor_of_some hvalue).1 hpart
  refine ⟨⟨resultKey site ctx t.key, shape, value.level, cell, value.pnes⟩,
    List.mem_flatMap.2 ⟨p, hp, ?_⟩, rfl⟩
  rw [sharesAt, listed_gather (hall p hp)]
  exact List.mem_flatMap.2 ⟨t, ht, by rw [hpart, listed_ok]; exact List.mem_cons_self⟩

theorem framed_of_mem_shares {s : Share R} (hs : s ∈ listed (shares site ctx source)) :
    Framed site ctx s ∧ s.Fits := by
  obtain ⟨targets, placed, htargets, hplaced, t, ht, p, hp, hs⟩ := mem_shares hs
  obtain ⟨hfits, hkey, hshape, _, _, hvalue⟩ := mem_sharesFor hs
  obtain ⟨_, _, _, _, realization, hrealization, hasks⟩ := (SiteContext.mem_targets htargets).1 ht
  obtain ⟨rupture, _, hrupture⟩ := exists_of_forall₂ (placedOf_eq_ok_iff_forall₂.1 hplaced).2 hp
  obtain ⟨_, _, hc⟩ := hrupture.contribution
  obtain ⟨other, hother, hsame, hgives⟩ := Contribution.gives_of_forTarget? hc hvalue
  refine ⟨⟨?_, ?_, ⟨realization, hrealization, ?_⟩, hshape, ?_⟩, hfits⟩
  · rw [hkey, resultKey]
  · rw [hkey, resultKey]
  · rw [hkey, resultKey, hasks.key]
  · obtain ⟨curve, hcurve, hlevel⟩ := SiteContext.level_of_mem htargets hother
    rw [hsame] at hcurve hlevel
    rw [← Contribution.level_of_gives hgives] at hlevel
    exact ⟨curve, by rwa [hkey], by rwa [hkey]⟩

end SeismicHazard.Collection

end
