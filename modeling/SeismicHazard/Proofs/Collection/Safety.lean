import SeismicHazard.Proofs.Collection.Origins
import SeismicHazard.Proofs.Job.Existence
import SeismicHazard.Proofs.Results.Frames

/-!
# Collecting from parts that fit together

Where every region that a source names is declared, every realization has a model for it that knows
all measures, and ruptures occur at a rate, every step of a collection finds what it needs from the
step before it: numbers of regions, models, probabilities for each band, and cells of the matrix.
What is left to fail are the numbers themselves.
-/

noncomputable section

namespace SeismicHazard

/-! ## Levels and ruptures -/

theorem HazardCurve.safe_levelFor (curve : HazardCurve ℝ) (poe : ℝ) (policy : Extrapolation) :
    Safe (fun _ => True) (curve.levelFor poe policy) := by
  unfold levelFor
  split
  next =>
    split
    next =>
      cases policy with
      | clamp => trivial
      | reject => rfl
    next =>
      split
      next => trivial
      next =>
        cases bracket? poe curve.ascending with
        | none => rfl
        | some pair => trivial
  next => rfl

theorem SiteContext.safe_targets (ctx : SiteContext ℝ) (site : Site ℝ) :
    Safe (fun _ => True) (ctx.targets site) := by
  have htarget : ∀ combination ∈ ctx.combinations, Safe (fun _ => True)
      (ctx.target? site combination.1 combination.2.1 combination.2.2) := by
    intro combination _
    unfold target?
    cases ctx.curves.get? ⟨site.id, combination.2.2.id, combination.2.1⟩ with
    | none => trivial
    | some curve => exact (curve.safe_levelFor _ _).bind fun _ _ _ => trivial
  exact (Ends.mapM htarget).bind fun _ _ _ => trivial

/-- A rupture occurs at a rate of at least zero during some time. -/
def Rupture.Occurs (timeSpan : ℝ) (rupture : Rupture ℝ) : Prop :=
  ∃ rate, 0 ≤ rate ∧ rupture.occurrence = .poissonian rate timeSpan

/-- The sources of a list generate ruptures of some kind, or fail externally. -/
theorem safe_rupturesNear {P : Rupture ℝ → Prop} {sources : List (Source ℝ)}
    (hsources : ∀ source ∈ sources, Safe (fun ruptures => ∀ r ∈ ruptures, P r) source.ruptures)
    (site : Site ℝ) (maximumDistance : ℝ) :
    Safe (fun groups => ∀ group ∈ groups, group.source ∈ sources ∧ ∀ r ∈ group.ruptures, P r)
      (rupturesNear sources site maximumDistance) := by
  have hnear : ∀ source ∈ sources, Safe (fun group? : Option (NearbyRuptures ℝ) =>
      ∀ group ∈ group?, group.source ∈ sources ∧ ∀ r ∈ group.ruptures, P r)
      (source.near? site maximumDistance) := by
    intro source hsource
    unfold Source.near?
    split
    next =>
      intro group hgroup
      simp at hgroup
    next =>
      apply ((hsources source hsource).inSource source.id).bind
      intro ruptures _ hruptures group hgroup
      split at hgroup
      next => simp at hgroup
      next =>
        obtain rfl := Option.some.inj hgroup
        exact ⟨hsource, fun r hr => hruptures r (List.mem_of_mem_filter hr)⟩
  apply (Ends.mapM hnear).bind
  intro groups _ hgroups group hgroup
  obtain ⟨group?, hgroup?, hsome⟩ := List.mem_filterMap.1 hgroup
  exact hgroups group? hgroup? group hsome

section Collecting

variable [NormalCdf ℝ]

/-! ## Probabilities by band -/

/-- Probabilities, one for each of some bands. -/
def Banded (n : Nat) (pnes : List ℝ) : Prop :=
  pnes.length = n ∧ ∀ p ∈ pnes, 0 ≤ p ∧ p ≤ 1

theorem Bands.safe_exceedances (prediction : Prediction ℝ) (level truncation : ℝ) (n : Nat) :
    Safe (Banded n) (exceedances prediction level truncation n) := by
  unfold exceedances
  split
  next => rfl
  next =>
    split
    next => rfl
    next =>
      apply (safe_reserve _).bind
      intro _ _ _
      refine ⟨by simp, fun band hband => ?_⟩
      obtain ⟨j, _, rfl⟩ := List.mem_map.1 hband
      exact probability_mem _ _ _ _

/-- A model has a prediction for each of some measures, unless numbers stand against it. -/
def GroundMotionModel.Knows (imts : List String) (model : GroundMotionModel ℝ) : Prop :=
  ∀ imt ∈ imts, ∀ mag distance, Safe (fun _ => True) (model.predict mag distance imt)

namespace Contribution

variable {cfg : Config ℝ} {rupture : Rupture ℝ} {model : GroundMotionModel ℝ}

theorem safe_bandNonExceedance (htime : 0 ≤ cfg.investigationTime)
    (hoccurs : rupture.Occurs cfg.investigationTime) (hmodel : model.Knows cfg.imts)
    {target : Target ℝ} (himt : target.key.imt ∈ cfg.imts) (dist : ℝ) :
    Safe (fun value => Banded cfg.epsilonBins value.pnes)
      (bandNonExceedance cfg rupture dist model target) := by
  obtain ⟨rate, hrate, hoccurrence⟩ := hoccurs
  apply (hmodel _ himt _ _).bind
  intro prediction _ _
  apply (Bands.safe_exceedances _ _ _ _).bind
  intro bands _ hbands
  have hpne : ∀ band ∈ bands,
      Safe (fun p => 0 ≤ p ∧ p ≤ 1) (rupture.occurrence.noExceedance band) := by
    intro band hband
    rw [hoccurrence]
    exact Occurrence.exp_mem (mul_nonneg hrate htime) (hbands.2 band hband).1
  apply (Ends.mapM hpne).bind
  intro pnes hpnes hmem
  exact ⟨(mapM_eq_ok.1 hpnes).length_eq ▸ hbands.1, hmem⟩

end Contribution

/-! ## Parts that fit together -/

/-- Sources and realizations fit together: the regions of sources are declared, ruptures occur
during the time that is investigated, and for every region each realization has a model that knows
all measures. -/
structure FitTogether (cfg : Config ℝ) (regions : Regions) (realizations : List (Realization ℝ))
    (sources : List (Source ℝ)) : Prop where
  region : ∀ source ∈ sources, source.region ∈ regions.names
  ruptures : ∀ source ∈ sources,
    Safe (fun ruptures => ∀ r ∈ ruptures, r.Occurs cfg.investigationTime) source.ruptures
  model : ∀ realization ∈ realizations, ∀ region ∈ regions.names,
    Safe (GroundMotionModel.Knows cfg.imts) (realization.model region)

omit [NormalCdf ℝ] in
theorem FitTogether.mono {cfg : Config ℝ} {regions : Regions} {realizations : List (Realization ℝ)}
    {sources few : List (Source ℝ)} (h : FitTogether cfg regions realizations sources)
    (hsub : ∀ source ∈ few, source ∈ sources) : FitTogether cfg regions realizations few where
  region source hsource := h.region source (hsub source hsource)
  ruptures source hsource := h.ruptures source (hsub source hsource)
  model := h.model

variable {ctx : SiteContext ℝ} {site : Site ℝ} {sources : List (Source ℝ)}
  {targets : List (Target ℝ)}

namespace Contribution

/-- A contribution of a declared region, with probabilities for all bands. -/
def Sound (ctx : SiteContext ℝ) (c : Contribution ℝ) : Prop :=
  c.trt < ctx.regions.size ∧
    ∀ entry ∈ c.byTarget, Banded ctx.cfg.epsilonBins entry.2.pnes

omit [NormalCdf ℝ] in
theorem Sound.banded {c : Contribution ℝ} (hc : c.Sound ctx) {key : TargetKey ℝ}
    {bands : BandNonExceedance ℝ} (hbands : c.forTarget? key = some bands) :
    Banded ctx.cfg.epsilonBins bands.pnes := by
  obtain ⟨entry, hentry, rfl⟩ := Option.map_eq_some_iff.1 hbands
  exact hc.2 entry (List.mem_of_find?_eq_some hentry)

theorem safe_ofRupture (hcfg : ctx.cfg.Accepted)
    (hfits : FitTogether ctx.cfg ctx.regions ctx.realizations sources)
    (htargets : ctx.targets site = .ok targets) {region : String}
    (hregion : region ∈ ctx.regions.names) {rupture : Rupture ℝ}
    (hoccurs : rupture.Occurs ctx.cfg.investigationTime) {trt : Nat}
    (htrt : trt < ctx.regions.size) :
    Safe (Sound ctx) (ofRupture ctx site targets region trt rupture) := by
  have hrealizations : Safe
      (fun entries : List (Entry ℝ) => ∀ e ∈ entries, Banded ctx.cfg.epsilonBins e.2.pnes)
      (ctx.realizations.foldlM
        (addRealization ctx region targets rupture (rupture.distanceTo site.location)) []) := by
    apply Ends.foldlM (motive := fun _ (entries : List (Entry ℝ)) =>
      ∀ e ∈ entries, Banded ctx.cfg.epsilonBins e.2.pnes) (by simp)
    intro before realization after entries hsplit hentries
    have hrealization : realization ∈ ctx.realizations := by simp [hsplit]
    apply (hfits.model realization hrealization region hregion).bind
    intro model _ hmodel
    -- the targets of the realization are targets of the site, so the model knows their measures
    apply Ends.foldlM (motive := fun _ (entries : List (Entry ℝ)) =>
      ∀ e ∈ entries, Banded ctx.cfg.epsilonBins e.2.pnes) hentries
    intro _ target _ acc hown hacc
    have hmem : target ∈ targets := by
      apply List.mem_of_mem_filter (p := fun target => target.key.realization == realization.id)
      simp [hown]
    obtain ⟨_, _, imt, himt, _, _, hasks⟩ := (SiteContext.mem_targets htargets).1 hmem
    have hknown : target.key.imt ∈ ctx.cfg.imts := by rwa [hasks.key]
    apply (safe_bandNonExceedance hcfg.investigationTime.le hoccurs hmodel hknown _).bind
    intro value _ hvalue
    exact forall_put (P := fun value => Banded ctx.cfg.epsilonBins value.pnes) hvalue hacc
  apply hrealizations.bind
  intro byTarget _ hbyTarget
  exact ⟨htrt, hbyTarget⟩

theorem safe_ofGroups (hcfg : ctx.cfg.Accepted)
    (hfits : FitTogether ctx.cfg ctx.regions ctx.realizations sources)
    (htargets : ctx.targets site = .ok targets) {groups : List (NearbyRuptures ℝ)}
    (hgroups : ∀ group ∈ groups, group.source ∈ sources ∧
      ∀ r ∈ group.ruptures, r.Occurs ctx.cfg.investigationTime) :
    Safe (fun contributions => ∀ c ∈ contributions, Sound ctx c)
      (ofGroups ctx site targets groups) := by
  have hgroup : ∀ group ∈ groups, Safe (fun contributions => ∀ c ∈ contributions, Sound ctx c)
      (ofSource ctx site targets group) := by
    intro group hgroup
    obtain ⟨hsource, hoccurs⟩ := hgroups group hgroup
    have hregion := hfits.region group.source hsource
    apply Ends.inSource
    apply (Ends.of_succeeds (Job.exists_indexOf hregion)).bind
    intro trt _ htrt
    exact Ends.mapM fun rupture hrupture =>
      safe_ofRupture hcfg hfits htargets hregion (hoccurs rupture hrupture) htrt
  apply (Ends.mapM hgroup).bind
  intro found _ hfound c hc
  obtain ⟨part, hpart, hc⟩ := List.mem_flatten.1 hc
  exact hfound part hpart c hc

end Contribution

omit [NormalCdf ℝ] in
theorem Matrix.safe_create (shape : Shape) (level : ℝ) :
    Safe (fun m => m = empty shape level) (create shape level) :=
  (ends_create shape level).weaken fun _ => Error.external_of_capacity

namespace Arrangement

variable {s : Spread ℝ} {mags : MagRange ℝ} {shape : Shape}

omit [NormalCdf ℝ] in
theorem safe_cells (hcfg : ctx.cfg.Accepted) (hbuilt : BinEdges.Built s mags ctx.cfg ctx.edges)
    (hshape : ctx.edges.shape ctx.regions.size = .ok shape)
    {contributions : List (Contribution ℝ)} (hsound : ∀ c ∈ contributions, c.Sound ctx) :
    Safe (fun cells => ∀ k ∈ cells, shape.holds k = true)
      (cells contributions ctx.edges ctx.regions.size) := by
  apply Ends.mapM
  intro c hc
  obtain ⟨k, hk, _⟩ := hbuilt.exists_cell hcfg (hsound c hc).1
  exact .of_succeeds ⟨k, hk, holds_cell hshape hk⟩

omit [NormalCdf ℝ] in
/-- The matrix of a target has the shape that follows from the edges. -/
theorem safe_matrix? (hshape : ctx.edges.shape ctx.regions.size = .ok shape)
    (heps : shape.eps = ctx.cfg.epsilonBins) {contributions : List (Contribution ℝ)}
    (hsound : ∀ c ∈ contributions, c.Sound ctx) {cells : List Cell}
    (hcells : ∀ k ∈ cells, shape.holds k = true) (key : TargetKey ℝ) :
    Safe (fun matrix? => ∀ m, matrix? = some m → m.shape = shape ∧ m.Sound)
      (matrix? contributions cells key ctx.edges ctx.regions.size) := by
  apply Ends.foldlM (motive := fun _ (matrix? : Option (Matrix ℝ)) =>
    ∀ m, matrix? = some m → m.shape = shape ∧ m.Sound) (by simp)
  intro before placed after matrix? hsplit hmatrix
  obtain ⟨hc, hk⟩ : placed.1 ∈ contributions ∧ placed.2 ∈ cells :=
    List.of_mem_zip (by rw [hsplit]; simp)
  cases hbands : placed.1.forTarget? key with
  | none =>
      rw [add, hbands]
      exact hmatrix
  | some bands =>
      obtain ⟨hlength, hunit⟩ := (hsound _ hc).banded hbands
      have hmem : ∀ p ∈ bands.pnes, Scalar.isProbability p = true :=
        fun p hp => (Scalar.isProbability_exact p).2 (hunit p hp)
      have hopening : Safe (fun m : Matrix ℝ => m.shape = shape ∧ m.Sound)
          (Collection.opening ctx bands.level matrix?) := by
        cases matrix? with
        | some m => exact hmatrix m rfl
        | none =>
            rw [Collection.opening, hshape]
            apply (Matrix.safe_create shape bands.level).mono
            rintro _ rfl
            exact ⟨rfl, Matrix.sound_empty shape bands.level⟩
      rw [Collection.add_of_some hbands]
      apply hopening.bind
      rintro m _ ⟨rfl, hprobabilities⟩
      have hplace := Shape.locate?_of_holds (hcells _ hk)
      have haccumulate : m.accumulate placed.2 bands.pnes =
          .ok (m.multiplied placed.2 bands.pnes) :=
        Matrix.accumulate_eq_ok.2 ⟨hmem, heps.trans hlength.symm, placed.2, hplace, rfl⟩
      rw [haccumulate]
      intro m' hm'
      rw [← Option.some.inj hm']
      exact ⟨rfl, hprobabilities.multiplied (hcells _ hk) (heps.trans hlength.symm) hmem⟩

end Arrangement

namespace Collection

variable {s : Spread ℝ} {mags : MagRange ℝ} {frame : ResultKey ℝ → Shape → Prop}

/-- A collection from parts that fit together has no internal failure, and its matrices have the
shapes that go with their keys. -/
theorem safe_collect (hcfg : ctx.cfg.Accepted)
    (hbuilt : BinEdges.Built s mags ctx.cfg ctx.edges)
    (hfits : FitTogether ctx.cfg ctx.regions ctx.realizations sources) (hframes : OneFrame frame)
    (hframe : ∀ key : TargetKey ℝ, (∃ ρ ∈ ctx.realizations, key.realization = ρ.id) →
      ∀ shape, ctx.edges.shape ctx.regions.size = .ok shape →
        frame (resultKey site ctx key) shape) :
    Safe (Results.Shaped frame) (collect sources site ctx) := by
  obtain ⟨shape, hshape, heps⟩ := hbuilt.exists_shape ctx.regions.size
  apply (ctx.safe_targets site).bind
  intro targets htargets _
  split
  next => exact .empty
  next =>
    apply (safe_rupturesNear hfits.ruptures site ctx.cfg.maximumDistance).bind
    intro groups _ hgroups
    split
    next => exact .empty
    next =>
      apply (Contribution.safe_ofGroups hcfg hfits htargets hgroups).bind
      intro contributions _ hsound
      apply (Arrangement.safe_cells hcfg hbuilt hshape hsound).bind
      intro cells _ hcells
      apply Ends.foldlM (motive := fun _ results => Results.Shaped frame results) .empty
      intro before target after results hsplit hresults
      have htarget : target ∈ targets := by simp [hsplit]
      obtain ⟨_, _, _, _, ρ, hρ, hasks⟩ := (SiteContext.mem_targets htargets).1 htarget
      apply (Arrangement.safe_matrix? hshape heps hsound hcells target.key).bind
      intro matrix? _ hmatrix
      cases matrix? with
      | none => exact hresults
      | some m =>
          obtain ⟨rfl, hprobabilities⟩ := hmatrix m rfl
          apply Ends.of_succeeds
          exact hresults.add hframes hprobabilities
            (hframe target.key ⟨ρ, hρ, by rw [hasks.key]⟩ _ hshape)

end Collection

end Collecting

end SeismicHazard

end
