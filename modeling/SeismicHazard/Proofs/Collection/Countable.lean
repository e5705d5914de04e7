import SeismicHazard.Proofs.Binning
import SeismicHazard.Proofs.Collection.Coherence

/-!
# When a source can be counted

A source can be counted for the targets of a site when each of its ruptures near the site can: it
has a cell, and every target has probabilities for it that go into the matrix. This is a matter of
which targets there are, and not of how often they are asked for.
-/

noncomputable section

namespace SeismicHazard.Collection

open Scalar Share

variable {R : Type} [Scalar R] [NormalCdf R] {ctx : SiteContext R} {site : Site R}
  {targets : List (Target R)} {source : Source R} {rupture : Rupture R}

/-- Probabilities by epsilon band that can be multiplied into a matrix of a context. -/
def Suits (ctx : SiteContext R) (pnes : List R) : Prop :=
  ∃ shape, ctx.edges.shape ctx.regions.size = .ok shape ∧ shape.reserve (R := R) = .ok () ∧
    (∀ p ∈ pnes, isProbability p = true) ∧ shape.eps = pnes.length

omit [NormalCdf R] in
theorem succeeds_sharesFor_iff {key : TargetKey R} {p : Placed R} {bands : BandNonExceedance R}
    (hbands : p.1.forTarget? key = some bands)
    (hcell : Arrangement.cell ctx.edges (Binning.offsets ctx.edges.lon) ctx.regions.size p.1 =
      .ok p.2) : Succeeds (sharesFor site ctx key p) ↔ Suits ctx bands.pnes := by
  constructor
  · rintro ⟨ss, hss⟩
    obtain ⟨shape, _, hshape, hreserve, hprobabilities, _, hlength, _⟩ :=
      (sharesFor_of_some hbands).1 hss
    exact ⟨shape, hshape, hreserve, hprobabilities, hlength⟩
  · rintro ⟨shape, hshape, hreserve, hprobabilities, hlength⟩
    have hholds := Arrangement.holds_cell hshape hcell
    exact ⟨_, (sharesFor_of_some hbands).2 ⟨shape, p.2, hshape, hreserve, hprobabilities,
      Shape.locate?_of_holds hholds, hlength, rfl⟩⟩

/-- A rupture of a source can be counted for the targets of a site. -/
structure Admits (site : Site R) (ctx : SiteContext R) (targets : List (Target R))
    (source : Source R) (rupture : Rupture R) : Prop where
  cell : ∃ trt k, ctx.regions.indexOf (R := R) source.region = .ok trt ∧
    Arrangement.cell ctx.edges (Binning.offsets ctx.edges.lon) ctx.regions.size
      (Contribution.bare site rupture trt) = .ok k
  models : ∀ realization ∈ ctx.realizations, ∃ model, realization.model source.region = .ok model ∧
    ∀ target ∈ targets, target.key.realization = realization.id → ∃ value,
      Contribution.bandNonExceedance ctx.cfg rupture (rupture.distanceTo site.location) model
        target = .ok value ∧ Suits ctx value.pnes

theorem Admits.mono {targets' : List (Target R)} (h : Admits site ctx targets source rupture)
    (hsub : ∀ target ∈ targets', target ∈ targets) : Admits site ctx targets' source rupture where
  cell := h.cell
  models realization hrealization := by
    obtain ⟨model, hmodel, hall⟩ := h.models realization hrealization
    exact ⟨model, hmodel, fun target htarget => hall target (hsub target htarget)⟩

theorem Admits.succeeds_given (h : Admits site ctx targets source rupture)
    {realization : Realization R} (hrealization : realization ∈ ctx.realizations) :
    Succeeds (Contribution.given ctx source.region targets rupture
      (rupture.distanceTo site.location) realization) := by
  obtain ⟨model, hmodel, hall⟩ := h.models realization hrealization
  refine succeeds_bind.2 ⟨model, hmodel, succeeds_mapM.2 fun target htarget => ?_⟩
  obtain ⟨htarget, hid⟩ := List.mem_filter.1 htarget
  obtain ⟨value, hvalue, _⟩ := hall target htarget (by simpa using hid)
  exact ⟨_, map_eq_ok.2 ⟨value, hvalue, rfl⟩⟩

variable [KeyRules R]

/-- A rupture that can be counted has a contribution in a cell, which counts for every target. -/
theorem Admits.exists_placed (h : Admits site ctx targets source rupture) :
    ∃ p, PlacedRupture site ctx targets source rupture p ∧
      ∀ target ∈ targets, Succeeds (sharesFor site ctx target.key p) := by
  obtain ⟨trt, k, htrt, hcell⟩ := h.cell
  obtain ⟨new, hnew⟩ : Succeeds (gather (Contribution.given ctx source.region targets rupture
      (rupture.distanceTo site.location)) ctx.realizations) :=
    succeeds_gather.2 fun _ hrealization => h.succeeds_given hrealization
  have hc : Contribution.ofRupture ctx site targets source.region trt rupture =
      .ok { Contribution.bare site rupture trt with byTarget := Contribution.putAll [] new } :=
    Contribution.ofRupture_eq_ok.2 ⟨new, hnew, rfl⟩
  refine ⟨⟨_, k⟩, ⟨⟨trt, htrt, hc⟩, hcell⟩, fun target htarget => ?_⟩
  cases hvalue : Contribution.forTarget?
      { Contribution.bare site rupture trt with byTarget := Contribution.putAll [] new }
      target.key with
  | none => exact ⟨[], by simp only [sharesFor, hvalue]⟩
  | some value =>
      -- whatever is there for the target was given by the model of its realization
      rw [succeeds_sharesFor_iff hvalue hcell]
      obtain ⟨other, hother, _, realization, hrealization, hid, model, hmodel, hgiven⟩ :=
        Contribution.gives_of_forTarget? hc hvalue
      obtain ⟨model', hmodel', hall⟩ := h.models realization hrealization
      rw [hmodel, Except.ok.injEq] at hmodel'
      obtain ⟨value', hvalue', hsuits⟩ := hall other hother hid
      rw [← hmodel', hgiven, Except.ok.injEq] at hvalue'
      exact hvalue' ▸ hsuits

theorem admits_of_placed (htargets : ctx.targets site = .ok targets)
    (hnumbered : ∀ a ∈ ctx.realizations, ∀ b ∈ ctx.realizations, a.id = b.id → a = b) {p : Placed R}
    (hplaced : PlacedRupture site ctx targets source rupture p)
    (hall : ∀ target ∈ targets, Succeeds (sharesFor site ctx target.key p)) :
    Admits site ctx targets source rupture where
  cell := by
    obtain ⟨trt, htrt, hc⟩ := hplaced.contribution
    obtain ⟨new, _, hfields⟩ := Contribution.ofRupture_eq_ok.1 hc
    have hcell := hplaced.cell
    rw [hfields] at hcell
    exact ⟨trt, p.2, htrt, hcell⟩
  models realization hrealization := by
    obtain ⟨trt, _, hc⟩ := hplaced.contribution
    obtain ⟨new, hnew, _⟩ := Contribution.ofRupture_eq_ok.1 hc
    obtain ⟨part, hpart⟩ := (gather_eq_ok.1 hnew).1 realization hrealization
    obtain ⟨model, hmodel, hmap⟩ := bind_eq_ok.1 hpart
    refine ⟨model, hmodel, fun target htarget hid => ?_⟩
    obtain ⟨entry, hentry⟩ := succeeds_mapM.1 ⟨part, hmap⟩ target
      (List.mem_filter.2 ⟨htarget, by simpa using hid⟩)
    obtain ⟨value, hvalue, _⟩ := map_eq_ok.1 hentry
    have hforTarget := (Contribution.forTarget?_eq_some htargets hnumbered hc htarget).2
      ⟨realization, hrealization, hid, model, hmodel, hvalue⟩
    exact ⟨value, hvalue, (succeeds_sharesFor_iff hforTarget hplaced.cell).1 (hall target htarget)⟩

omit [NormalCdf R] in
theorem exists_forall₂ {α β : Type} {r : α → β → Prop} {xs : List α}
    (hexists : ∀ x ∈ xs, ∃ y, r x y) : ∃ ys, List.Forall₂ r xs ys := by
  induction xs with
  | nil => exact ⟨[], .nil⟩
  | cons x rest ih =>
      obtain ⟨y, hy⟩ := hexists x List.mem_cons_self
      obtain ⟨ys, hys⟩ := ih fun z hz => hexists z (List.mem_cons_of_mem _ hz)
      exact ⟨y :: ys, .cons hy hys⟩

/-- A source can be counted when each of its ruptures near the site can. -/
theorem succeeds_shares_iff (hnonempty : targets ≠ []) (htargets : ctx.targets site = .ok targets)
    (hnumbered : ∀ a ∈ ctx.realizations, ∀ b ∈ ctx.realizations, a.id = b.id → a = b) :
    Succeeds (shares site ctx source) ↔
      (source.isFar site.location ctx.cfg.maximumDistance = false →
          Succeeds source.ruptures) ∧
        ∀ rupture ∈ source.nearby site ctx.cfg.maximumDistance,
          Admits site ctx targets source rupture := by
  constructor
  · rintro ⟨ss, hss⟩
    obtain ⟨placed, hplaced, hall, _⟩ := (shares_eq_ok hnonempty htargets).1 hss
    obtain ⟨hruptures, hpairs⟩ := placedOf_eq_ok_iff_forall₂.1 hplaced
    refine ⟨hruptures, fun rupture hrupture => ?_⟩
    obtain ⟨p, hp, hof⟩ := exists_of_forall₂ hpairs.flip hrupture
    exact admits_of_placed htargets hnumbered hof fun target htarget => hall p hp target htarget
  · rintro ⟨hruptures, hadmits⟩
    obtain ⟨placed, hpairs⟩ := exists_forall₂ fun rupture hrupture =>
      (hadmits rupture hrupture).exists_placed
    refine ⟨_, (shares_eq_ok hnonempty htargets).2 ⟨placed, placedOf_eq_ok_iff_forall₂.2
      ⟨hruptures, hpairs.imp fun _ _ h => h.1⟩, fun p hp => ?_, rfl⟩⟩
    obtain ⟨_, _, _, hall⟩ := exists_of_forall₂ hpairs hp
    exact hall

end SeismicHazard.Collection

end
