import SeismicHazard.Proofs.Collection.Attribution
import SeismicHazard.Proofs.Collection.Homomorphism

/-!
# Values that are no numbers

A magnitude, a closest point, a rate, a spread or a level that is no number stops a collection: each
of them meets a comparison that such a value fails. A predicted mean does not. The larger of two
values is the other one where one of them is no number, so the bands of epsilon are those of a mean
above which everything exceeds the level.
-/

namespace SeismicHazard

open Scalar

variable {R : Type} [Scalar R]

theorem isProbability_of_isNaN [NaNRules R] {p : R} (hp : isNaN p = true) :
    isProbability p = false := by
  have hle : ¬ (0 : R) ≤ p := NaNRules.not_le_right hp
  simp [isProbability, within, hle]

theorem isPositive_of_isNaN [NaNRules R] {x : R} (hx : isNaN x = true) : isPositive x = false := by
  have hlt : ¬ (0 : R) < x := NaNRules.not_lt_right hx
  simp [isPositive, hlt]

/-- Where one of two values is no number, the larger one is the other. -/
theorem greater_of_isNaN_right [NaNRules R] {x y : R} (hx : isNaN x = false) (hy : isNaN y = true) :
    greater x y = x := by
  have hle : ¬ x ≤ y := NaNRules.not_le_right hy
  simp [greater, hx, hle]

theorem greater_of_not_le {x y : R} (hx : isNaN x = false) (hle : ¬ x ≤ y) : greater x y = x := by
  simp [greater, hx, hle]

theorem SiteContext.exists_realization {ctx : SiteContext R} {site : Site R}
    {targets : List (Target R)} (htargets : ctx.targets site = .ok targets) {target : Target R}
    (htarget : target ∈ targets) :
    ∃ realization ∈ ctx.realizations, target.key.realization = realization.id := by
  obtain ⟨found, hfound, hfilter⟩ := bind_eq_ok.1 htargets
  rw [← pure_eq_ok.1 hfilter, List.mem_filterMap] at htarget
  obtain ⟨target?, hmem, rfl⟩ := htarget
  obtain ⟨⟨poe, imt, realization⟩, hcombination, htarget⟩ := (mem_of_mapM_eq_ok hfound).1 hmem
  refine ⟨realization, by simp_all [combinations], ?_⟩
  simp only [target?] at htarget
  split at htarget
  next => simp at htarget
  next =>
    obtain ⟨level, _, htarget⟩ := bind_eq_ok.1 htarget
    rw [← Option.some.inj (pure_eq_ok.1 htarget)]

/-! ## What a collection that succeeds has passed through -/

section Passed

variable [NormalCdf R] {ctx : SiteContext R} {site : Site R} {targets : List (Target R)}
  {sources : List (Source R)} {source : Source R} {rupture : Rupture R} {results : Results R}

omit [NormalCdf R] in
/-- A source that keeps a rupture is among the sources near the site, with the rupture. -/
theorem Source.Keeps.near? (hkept : source.Keeps site.location ctx.cfg.maximumDistance rupture)
    {group? : Option (NearbyRuptures R)}
    (hgroup : source.near? site ctx.cfg.maximumDistance = .ok group?) :
    ∃ group, group? = some group ∧ group.source = source ∧ rupture ∈ group.ruptures := by
  unfold Source.near? at hgroup
  rw [if_neg (Bool.not_eq_true _ ▸ hkept.source_near)] at hgroup
  obtain ⟨ruptures, hruptures, hgroup⟩ := bind_eq_ok.1 hgroup
  obtain ⟨generated, hgenerated, hmem⟩ := hkept.generated
  rw [Source.rupturesNamed, hgenerated] at hruptures
  obtain rfl : generated = ruptures := Except.ok.inj hruptures
  have hnear : rupture ∈ generated.filter fun rupture =>
      decide (rupture.distanceTo site.location ≤ ctx.cfg.maximumDistance) :=
    List.mem_filter.2 ⟨hmem, decide_eq_true hkept.near⟩
  replace hgroup := pure_eq_ok.1 hgroup
  rw [if_neg fun hempty => List.ne_nil_of_mem hnear (List.isEmpty_iff.1 hempty)] at hgroup
  exact ⟨_, hgroup.symm, rfl, hnear⟩

omit [NormalCdf R] in
theorem Source.Keeps.exists_group {groups : List (NearbyRuptures R)}
    (hkept : source.Keeps site.location ctx.cfg.maximumDistance rupture)
    (hsource : source ∈ sources)
    (hgroups : rupturesNear sources site ctx.cfg.maximumDistance = .ok groups) :
    ∃ group ∈ groups, group.source = source ∧ rupture ∈ group.ruptures := by
  obtain ⟨found, hfound, hgroups⟩ := bind_eq_ok.1 hgroups
  obtain ⟨group?, hgroup?, hnear⟩ := exists_mem_zip_of_mapM hfound hsource
  obtain ⟨group, rfl, hof, hrupture⟩ := hkept.near? hnear
  refine ⟨group, ?_, hof, hrupture⟩
  rw [← pure_eq_ok.1 hgroups]
  exact List.mem_filterMap.2 ⟨some group, (List.of_mem_zip hgroup?).2, rfl⟩

/-- Each rupture that is kept has a contribution. -/
theorem Contribution.exists_shows {groups : List (NearbyRuptures R)} {group : NearbyRuptures R}
    (hgroup : group ∈ groups) (hrupture : rupture ∈ group.ruptures)
    (hkept : group.source.Keeps site.location ctx.cfg.maximumDistance rupture)
    {contributions : List (Contribution R)}
    (hcontributions : ofGroups ctx site targets groups = .ok contributions) :
    ∃ c ∈ contributions, c.Shows ctx site targets group.source rupture := by
  obtain ⟨parts, hparts, hcontributions⟩ := bind_eq_ok.1 hcontributions
  obtain ⟨part, hpart, hofSource⟩ := exists_mem_zip_of_mapM hparts hgroup
  obtain ⟨trt, htrt, hofSource⟩ := bind_eq_ok.1 (inSource_eq_ok.1 hofSource)
  obtain ⟨c, hc, hofRupture⟩ := exists_mem_zip_of_mapM hofSource hrupture
  refine ⟨c, ?_, (ends_ofRupture hkept (Regions.lt_of_indexOf htrt)).value hofRupture⟩
  rw [← pure_eq_ok.1 hcontributions]
  exact List.mem_flatten.2 ⟨part, (List.of_mem_zip hpart).2, (List.of_mem_zip hc).2⟩

omit [NormalCdf R] in
/-- What is taken into the matrix of a target are probabilities. -/
theorem Arrangement.probability_of_matrix? {contributions : List (Contribution R)}
    {cells : List Cell} {key : TargetKey R} {matrix? : Option (Matrix R)}
    (hmatrix : Arrangement.matrix? contributions cells key ctx.edges ctx.regions.size =
      .ok matrix?) :
    ∀ placed ∈ contributions.zip cells, ∀ bands, placed.1.forTarget? key = some bands →
      ∀ p ∈ bands.pnes, isProbability p = true := by
  apply step_of_foldlM (motive := fun before _ => ∀ placed ∈ before, ∀ bands,
    placed.1.forTarget? key = some bands → ∀ p ∈ bands.pnes, isProbability p = true) hmatrix
  · exact fun placed hplaced => absurd hplaced List.not_mem_nil
  · intro before placed after acc next _ hbefore hnext other hother bands hbands
    rcases List.mem_append.1 hother with hold | hlast
    · exact hbefore other hold bands hbands
    · rw [List.mem_singleton.1 hlast] at hbands
      -- whether the matrix is there or made now, the bands are taken into it
      have htaken : ∃ m : Matrix R, Succeeds (m.accumulate placed.2 bands.pnes) := by
        simp only [add, hbands] at hnext
        cases acc with
        | some m =>
            obtain ⟨n, hn, _⟩ := map_eq_ok.1 hnext
            exact ⟨m, n, hn⟩
        | none =>
            obtain ⟨shape, _, hnext⟩ := bind_eq_ok.1 hnext
            obtain ⟨m, _, hnext⟩ := bind_eq_ok.1 hnext
            obtain ⟨n, hn, _⟩ := map_eq_ok.1 hnext
            exact ⟨m, n, hn⟩
      obtain ⟨m, n, hn⟩ := htaken
      exact (Matrix.of_accumulate hn).1

/-- A collection that succeeds has placed each rupture that is kept in a cell, and has for every
target the non-exceedances that it gives. -/
theorem Collection.passed (hresults : collect sources site ctx = .ok results)
    (htargets : ctx.targets site = .ok targets) (hsome : targets ≠ []) (hsource : source ∈ sources)
    (hkept : source.Keeps site.location ctx.cfg.maximumDistance rupture) :
    ∃ c : Contribution R, c.Shows ctx site targets source rupture ∧
      Succeeds (Arrangement.cell ctx.edges (Binning.offsets ctx.edges.lon) ctx.regions.size c) ∧
      ∀ target ∈ targets, ∀ bands, c.forTarget? target.key = some bands →
        ∀ p ∈ bands.pnes, isProbability p = true := by
  obtain ⟨targets', htargets', hresults⟩ := bind_eq_ok.1 hresults
  obtain rfl := Except.ok.inj (htargets.symm.trans htargets')
  rw [if_neg fun hempty => hsome (List.isEmpty_iff.1 hempty)] at hresults
  obtain ⟨groups, hgroups, hresults⟩ := bind_eq_ok.1 hresults
  obtain ⟨group, hgroup, rfl, hrupture⟩ := hkept.exists_group hsource hgroups
  rw [if_neg fun hempty => List.ne_nil_of_mem hgroup (List.isEmpty_iff.1 hempty)] at hresults
  obtain ⟨contributions, hcontributions, hresults⟩ := bind_eq_ok.1 hresults
  obtain ⟨c, hc, hshows⟩ := Contribution.exists_shows hgroup hrupture hkept hcontributions
  obtain ⟨cells, hcells, hresults⟩ := bind_eq_ok.1 hresults
  obtain ⟨k, hplaced, hk⟩ := exists_mem_zip_of_mapM hcells hc
  refine ⟨c, hshows, ⟨k, hk⟩, ?_⟩
  apply step_of_foldlM (motive := fun before _ => ∀ target ∈ before, ∀ bands,
    c.forTarget? target.key = some bands → ∀ p ∈ bands.pnes, isProbability p = true) hresults
  · exact fun target htarget => absurd htarget List.not_mem_nil
  · intro before target after acc next _ hbefore hnext other hother
    rcases List.mem_append.1 hother with hold | hlast
    · exact hbefore other hold
    · rw [List.mem_singleton.1 hlast]
      obtain ⟨matrix?, hmatrix, _⟩ := bind_eq_ok.1 hnext
      exact Arrangement.probability_of_matrix? hmatrix (c, k) hplaced

end Passed

/-! ## What is refused, and what is not -/

section Refused

variable [NormalCdf R] [NaNRules R] {ctx : SiteContext R} {site : Site R}
  {targets : List (Target R)} {sources : List (Source R)} {source : Source R} {rupture : Rupture R}

omit [NormalCdf R] in
/-- Of a rupture whose rate is no number, no non-exceedance is a probability. -/
theorem Occurrence.improbable_of_isNaN {rate span poe p : R} (hrate : isNaN rate = true)
    (hp : (Occurrence.poissonian rate span).noExceedance poe = .ok p) :
    isProbability p = false := by
  rw [← Except.ok.inj hp]
  apply isProbability_of_isNaN
  exact NaNRules.exp (NaNRules.mul_left (NaNRules.mul_left (NaNRules.neg hrate)))

variable (ctx site source rupture)

/-- Something that a target needs of a rupture is no number: its magnitude, its closest point, the
level of the target, the predicted spread, or the rate. A rate is needed for the bands of epsilon
alone. -/
inductive Spoiled (target : Target R) : Prop
  | mag (nan : isNaN rupture.mag = true)
  | lon (nan : isNaN (rupture.closestPoint site.location).lon = true)
  | lat (nan : isNaN (rupture.closestPoint site.location).lat = true)
  | level (nan : isNaN target.level = true)
  | stddev {realization : Realization R} {model : GroundMotionModel R} {prediction : Prediction R}
      (listed : realization ∈ ctx.realizations)
      (asked : target.key.realization = realization.id)
      (known : realization.model source.region = .ok model)
      (predicted : model.predict rupture.mag (rupture.distanceTo site.location) target.key.imt =
        .ok prediction)
      (nan : isNaN prediction.stddev = true)
  | rate {rate span : R} (occurrence : rupture.occurrence = .poissonian rate span)
      (bands : 0 < ctx.cfg.epsilonBins) (nan : isNaN rate = true)

variable {ctx site source rupture}

omit [NormalCdf R] [NaNRules R] in
theorem Arrangement.isNaN_of_cell {edges : BinEdges R} {offsets : List R} {regions : Nat}
    {c : Contribution R} {k : Cell} (hcell : cell edges offsets regions c = .ok k) :
    isNaN c.mag = false ∧ isNaN c.lon = false ∧ isNaN c.lat = false := by
  have hbin : ∀ {edges : List R} {value : R} {i : Nat}, Binning.bin edges value = .ok i →
      isNaN value = false := by
    intro edges value i hbin
    by_contra hnan
    simp [Binning.bin, Bool.not_eq_false _ ▸ hnan] at hbin
  have hlonBin : ∀ {edges offsets : List R} {lon : R} {i : Nat},
      Binning.lonBin edges offsets lon = .ok i → isNaN lon = false := by
    intro edges offsets lon i hbin
    by_contra hnan
    simp [Binning.lonBin, Bool.not_eq_false _ ▸ hnan] at hbin
  unfold cell at hcell
  split at hcell
  next => cases hcell
  next =>
    obtain ⟨_, hmag, hcell⟩ := bind_eq_ok.1 hcell
    obtain ⟨_, _, hcell⟩ := bind_eq_ok.1 hcell
    obtain ⟨_, hlon, hcell⟩ := bind_eq_ok.1 hcell
    obtain ⟨_, hlat, _⟩ := bind_eq_ok.1 hcell
    exact ⟨hbin hmag, hlonBin hlon, hbin hlat⟩

omit [NaNRules R] in
/-- What is given for a target rests on a prediction, with a spread and a level above zero. -/
theorem GivesBy.exists_prediction {realization : Realization R} {target : Target R}
    {value : BandNonExceedance R} (h : GivesBy ctx site source rupture realization target value) :
    ∃ model prediction, realization.model source.region = .ok model ∧
      model.predict rupture.mag (rupture.distanceTo site.location) target.key.imt =
        .ok prediction ∧
      isPositive prediction.stddev = true ∧ isPositive target.level = true := by
  obtain ⟨model, hknown, hcomputed⟩ := h
  obtain ⟨prediction, hpredicted, hcomputed⟩ := bind_eq_ok.1 hcomputed
  obtain ⟨bands, hbands, _⟩ := bind_eq_ok.1 hcomputed
  obtain ⟨hstddev, hlevel, _⟩ := Bands.exceedances_eq_ok_iff.1 hbands
  exact ⟨model, prediction, hknown, hpredicted, hstddev, hlevel⟩

omit [NormalCdf R] [NaNRules R] in
theorem Contribution.exists_bands {c : Contribution R} {key : TargetKey R}
    (hcovers : Covers c.byTarget key) :
    ∃ entry ∈ c.byTarget, c.forTarget? key = some entry.2 := by
  obtain ⟨entry, hentry, hsame⟩ := hcovers
  have hsome : (c.byTarget.find? fun entry => key.same entry.1).isSome = true :=
    List.find?_isSome.2 ⟨entry, hentry, hsame⟩
  obtain ⟨found, hfound⟩ := Option.isSome_iff_exists.1 hsome
  exact ⟨found, List.mem_of_find?_eq_some hfound, by rw [forTarget?, hfound]; rfl⟩

/-- A rupture whose rate is no number gives something improbable, if there are bands. -/
theorem Gives.improbable {target : Target R} {value : BandNonExceedance R}
    (h : Gives ctx site source rupture target value) {rate span : R}
    (hoccurrence : rupture.occurrence = .poissonian rate span) (hrate : isNaN rate = true)
    (hbands : 0 < ctx.cfg.epsilonBins) : ∃ p ∈ value.pnes, isProbability p = false := by
  have hlength : value.pnes.length = ctx.cfg.epsilonBins := h.length_pnes
  obtain ⟨p, hp⟩ := List.exists_mem_of_length_pos (hlength ▸ hbands)
  obtain ⟨_, _, model, _, hcomputed⟩ := h
  obtain ⟨prediction, _, hcomputed⟩ := bind_eq_ok.1 hcomputed
  obtain ⟨poes, _, hcomputed⟩ := bind_eq_ok.1 hcomputed
  obtain ⟨pnes, hpnes, hcomputed⟩ := bind_eq_ok.1 hcomputed
  obtain rfl := pure_eq_ok.1 hcomputed
  obtain ⟨poe, _, hpoe⟩ := (mem_of_mapM_eq_ok hpnes).1 hp
  rw [hoccurrence] at hpoe
  exact ⟨p, hp, Occurrence.improbable_of_isNaN hrate hpoe⟩

/-- A collection does not succeed with a rupture that is spoiled. -/
theorem Collection.not_spoiled {results : Results R}
    (hresults : collect sources site ctx = .ok results)
    (htargets : ctx.targets site = .ok targets) {target : Target R} (htarget : target ∈ targets)
    (hsource : source ∈ sources)
    (hkept : source.Keeps site.location ctx.cfg.maximumDistance rupture) :
    ¬ Spoiled ctx site source rupture target := by
  obtain ⟨c, hshows, ⟨k, hk⟩, hprobability⟩ :=
    passed hresults htargets (List.ne_nil_of_mem htarget) hsource hkept
  obtain ⟨hmag, hlon, hlat⟩ := Arrangement.isNaN_of_cell hk
  rw [hshows.mag] at hmag
  obtain ⟨realization, hlisted, hasked⟩ := SiteContext.exists_realization htargets htarget
  intro hspoiled
  cases hspoiled with
  | mag nan => simp [nan] at hmag
  | lon nan =>
      rw [← hshows.closest] at nan
      simp [nan] at hlon
  | lat nan =>
      rw [← hshows.closest] at nan
      simp [nan] at hlat
  | level nan =>
      obtain ⟨_, value, hgives⟩ := hshows.covers realization hlisted target htarget hasked
      obtain ⟨_, _, _, _, _, hlevel⟩ := hgives.exists_prediction
      simp [isPositive_of_isNaN nan] at hlevel
  | stddev listed asked known predicted nan =>
      obtain ⟨_, value, hgives⟩ := hshows.covers _ listed target htarget asked
      obtain ⟨model, prediction, hknown, hpredicted, hstddev, _⟩ := hgives.exists_prediction
      obtain rfl := Except.ok.inj (known.symm.trans hknown)
      obtain rfl := Except.ok.inj (predicted.symm.trans hpredicted)
      simp [isPositive_of_isNaN nan] at hstddev
  | rate occurrence bands nan =>
      obtain ⟨hcovers, _⟩ := hshows.covers realization hlisted target htarget hasked
      obtain ⟨entry, hentry, hfound⟩ := Contribution.exists_bands hcovers
      obtain ⟨other, _, hgives⟩ := hshows.given entry hentry
      obtain ⟨p, hp, hbad⟩ := hgives.improbable occurrence nan bands
      simp [hprobability target htarget entry.2 hfound p hp] at hbad

/-- The lower edge of a band of epsilon. -/
def Bands.lowerEdge (truncation : R) (n j : Nat) : R :=
  -truncation + 2 * truncation / (n : R) * (j : R)

/-- Whatever ground motion is within the truncation exceeds the level. -/
def Bands.SurelyExceeded (cfg : Config R) (prediction : Prediction R) (level : R) : Prop :=
  ∀ j < cfg.epsilonBins, ¬ lowerEdge cfg.truncationLevel cfg.epsilonBins j ≤
    threshold prediction level

/-- A mean that is no number leaves the bands as they are where the level is surely exceeded. -/
theorem Bands.exceedances_of_isNaN_mean {cfg : Config R} {prediction surely : Prediction R}
    {level : R} (hmean : isNaN prediction.mean = true)
    (hstddev : surely.stddev = prediction.stddev) (hsurely : SurelyExceeded cfg surely level)
    (hedges : ∀ j < cfg.epsilonBins,
      isNaN (lowerEdge cfg.truncationLevel cfg.epsilonBins j) = false) :
    exceedances prediction level cfg.truncationLevel cfg.epsilonBins =
      exceedances surely level cfg.truncationLevel cfg.epsilonBins := by
  have hthreshold : isNaN (threshold prediction level) = true :=
    NaNRules.div_left (NaNRules.sub_right hmean)
  have hbands : (List.range cfg.epsilonBins).map
        (probability cfg.truncationLevel cfg.epsilonBins (threshold prediction level)) =
      (List.range cfg.epsilonBins).map
        (probability cfg.truncationLevel cfg.epsilonBins (threshold surely level)) := by
    apply List.map_congr_left
    intro j hj
    have hlt : j < cfg.epsilonBins := List.mem_range.1 hj
    -- in both cases a band starts at its own lower edge
    have hstart := greater_of_isNaN_right (hedges j hlt) hthreshold
    have hstart' := greater_of_not_le (hedges j hlt) (hsurely j hlt)
    unfold lowerEdge at hstart hstart'
    simp only [probability, hstart, hstart']
  simp only [exceedances, hstddev, hbands]

theorem Contribution.bandNonExceedance_of_isNaN_mean {cfg : Config R} {dist : R}
    {model other : GroundMotionModel R} {target : Target R} {prediction surely : Prediction R}
    (hpredicted : model.predict rupture.mag dist target.key.imt = .ok prediction)
    (hmean : isNaN prediction.mean = true)
    (hother : other.predict rupture.mag dist target.key.imt = .ok surely)
    (hstddev : surely.stddev = prediction.stddev)
    (hsurely : Bands.SurelyExceeded cfg surely target.level)
    (hedges : ∀ j < cfg.epsilonBins,
      isNaN (Bands.lowerEdge cfg.truncationLevel cfg.epsilonBins j) = false) :
    bandNonExceedance cfg rupture dist model target =
      bandNonExceedance cfg rupture dist other target := by
  simp only [bandNonExceedance, hpredicted, hother]
  change (Bands.exceedances prediction target.level _ _ >>= _) =
    (Bands.exceedances surely target.level _ _ >>= _)
  rw [Bands.exceedances_of_isNaN_mean hmean hstddev hsurely hedges]

/-- Wherever one model predicts a mean that is no number, another one predicts a mean at which the
level of a target is surely exceeded, with the same spread. Elsewhere they predict the same. -/
def GroundMotionModel.AsIfExceeded (cfg : Config R) (target : Target R)
    (model other : GroundMotionModel R) : Prop :=
  ∀ mag dist, other.predict mag dist target.key.imt = model.predict mag dist target.key.imt ∨
    ∃ prediction surely, model.predict mag dist target.key.imt = .ok prediction ∧
      isNaN prediction.mean = true ∧ other.predict mag dist target.key.imt = .ok surely ∧
      surely.stddev = prediction.stddev ∧ Bands.SurelyExceeded cfg surely target.level

theorem GroundMotionModel.AsIfExceeded.bandNonExceedance_eq {cfg : Config R} {target : Target R}
    {model other : GroundMotionModel R} (h : AsIfExceeded cfg target model other)
    (hedges : ∀ j < cfg.epsilonBins,
      isNaN (Bands.lowerEdge cfg.truncationLevel cfg.epsilonBins j) = false)
    (rupture : Rupture R) (dist : R) :
    Contribution.bandNonExceedance cfg rupture dist other target =
      Contribution.bandNonExceedance cfg rupture dist model target := by
  rcases h rupture.mag dist with hsame | ⟨_, _, hpredicted, hmean, hother, hstddev, hsurely⟩
  · simp only [Contribution.bandNonExceedance, hsame]
  · exact (Contribution.bandNonExceedance_of_isNaN_mean hpredicted hmean hother hstddev hsurely
      hedges).symm

/-- A realization with other models in place of its own. -/
def Realization.withModels (change : GroundMotionModel R → GroundMotionModel R)
    (realization : Realization R) : Realization R :=
  { realization with models := realization.models.map fun entry => (entry.1, change entry.2) }

/-- A context whose realizations have other models in place of their own. -/
def SiteContext.withModels (change : GroundMotionModel R → GroundMotionModel R)
    (ctx : SiteContext R) : SiteContext R :=
  { ctx with realizations := ctx.realizations.map (·.withModels change) }

section Changed

variable {change : GroundMotionModel R → GroundMotionModel R}

omit [Scalar R] [NormalCdf R] [NaNRules R] in
theorem Realization.model_withModels (realization : Realization R) (region : String) :
    (realization.withModels change).model region = change <$> realization.model region := by
  have hlookup : ∀ models : List (String × GroundMotionModel R),
      (models.map fun entry => (entry.1, change entry.2)).lookup region =
        (models.lookup region).map change := by
    intro models
    induction models with
    | nil => rfl
    | cons entry rest ih =>
        rw [List.map_cons, List.lookup_cons, List.lookup_cons, ih]
        split <;> rfl
  rw [model, withModels, hlookup, model]
  cases realization.models.lookup region <;> rfl

omit [NormalCdf R] [NaNRules R] in
/-- The targets of a site do not depend on the models. -/
theorem SiteContext.targets_withModels (ctx : SiteContext R) (site : Site R) :
    (ctx.withModels change).targets site = ctx.targets site := by
  have hcombinations : (ctx.withModels change).combinations =
      ctx.combinations.map fun c => (c.1, c.2.1, c.2.2.withModels change) := by
    simp only [combinations, withModels, List.map_flatMap, List.map_map]
    rfl
  rw [targets, hcombinations, List.mapM_map]
  rfl

/-- The models of a context are changed as if the levels of targets were surely exceeded wherever
the mean that is predicted is no number. -/
def SiteContext.ChangedAsIfExceeded (ctx : SiteContext R) (targets : List (Target R))
    (change : GroundMotionModel R → GroundMotionModel R) : Prop :=
  ∀ realization ∈ ctx.realizations, ∀ region model, realization.model region = .ok model →
    ∀ target ∈ targets, model.AsIfExceeded ctx.cfg target (change model)

variable (hchange : ctx.ChangedAsIfExceeded targets change)
  (hedges : ∀ j < ctx.cfg.epsilonBins,
    isNaN (Bands.lowerEdge ctx.cfg.truncationLevel ctx.cfg.epsilonBins j) = false)

include hchange hedges

theorem Contribution.addRealization_withModels {realization : Realization R}
    (hlisted : realization ∈ ctx.realizations) (region : String) (rupture : Rupture R) (dist : R)
    (entries : List (TargetKey R × BandNonExceedance R)) :
    addRealization (ctx.withModels change) region targets rupture dist entries
        (realization.withModels change) =
      addRealization ctx region targets rupture dist entries realization := by
  rw [addRealization, addRealization, Realization.model_withModels]
  cases hmodel : realization.model region with
  | error e => rfl
  | ok model =>
      apply foldlM_ext
      intro target htarget entries
      have hexceeded := hchange realization hlisted region model hmodel target
        (List.mem_of_mem_filter htarget)
      exact congrArg (fun value => value >>= fun value => pure (put target.key value entries))
        (hexceeded.bandNonExceedance_eq hedges rupture dist)

theorem Contribution.ofRupture_withModels :
    ofRupture (ctx.withModels change) site targets = ofRupture ctx site targets := by
  funext region trt rupture
  have hentries : (ctx.withModels change).realizations.foldlM
        (addRealization (ctx.withModels change) region targets rupture
          (rupture.distanceTo site.location)) [] =
      ctx.realizations.foldlM (addRealization ctx region targets rupture
        (rupture.distanceTo site.location)) [] := by
    rw [SiteContext.withModels, List.foldlM_map]
    apply foldlM_ext
    intro realization hlisted entries
    exact addRealization_withModels hchange hedges hlisted region rupture _ entries
  simp only [ofRupture, hentries]

/-- What is collected is the same before and after such a change. -/
theorem Collection.collect_withModels (htargets : ctx.targets site = .ok targets) :
    collect sources site (ctx.withModels change) = collect sources site ctx := by
  have hsources : Contribution.ofSource (ctx.withModels change) site targets =
      Contribution.ofSource ctx site targets := by
    funext group
    simp only [Contribution.ofSource, Contribution.ofRupture_withModels hchange hedges]
    rfl
  have hgroups : Contribution.ofGroups (ctx.withModels change) site targets =
      Contribution.ofGroups ctx site targets := by
    funext groups
    simp only [Contribution.ofGroups, hsources]
  rw [collect, collect, SiteContext.targets_withModels, htargets]
  change (if targets.isEmpty then _ else _) = (if targets.isEmpty then _ else _)
  simp only [hgroups]
  rfl

end Changed

/-- A collection with a target and a rupture that is kept fails if the magnitude, the closest point,
the rate, the predicted spread or the level is no number. A predicted mean that is none is let
through: the rupture contributes as if the level were surely exceeded, and what is collected is the
same as with a model by which it is. -/
theorem Collection.not_number {target : Target R} (htargets : ctx.targets site = .ok targets)
    (htarget : target ∈ targets) (hsource : source ∈ sources)
    (hkept : source.Keeps site.location ctx.cfg.maximumDistance rupture) :
    (Spoiled ctx site source rupture target → ∃ e, collect sources site ctx = .error e) ∧
      (∀ (model other : GroundMotionModel R) (prediction surely : Prediction R) (dist : R),
        model.predict rupture.mag dist target.key.imt = .ok prediction →
        isNaN prediction.mean = true →
        other.predict rupture.mag dist target.key.imt = .ok surely →
        surely.stddev = prediction.stddev →
        Bands.SurelyExceeded ctx.cfg surely target.level →
        (∀ j < ctx.cfg.epsilonBins,
          isNaN (Bands.lowerEdge ctx.cfg.truncationLevel ctx.cfg.epsilonBins j) = false) →
        Contribution.bandNonExceedance ctx.cfg rupture dist model target =
          Contribution.bandNonExceedance ctx.cfg rupture dist other target) ∧
      ∀ change : GroundMotionModel R → GroundMotionModel R,
        ctx.ChangedAsIfExceeded targets change →
        (∀ j < ctx.cfg.epsilonBins,
          isNaN (Bands.lowerEdge ctx.cfg.truncationLevel ctx.cfg.epsilonBins j) = false) →
        collect sources site ctx = collect sources site (ctx.withModels change) := by
  refine ⟨fun hspoiled => ?_, ?_, fun change hchange hedges => ?_⟩
  · cases hresults : collect sources site ctx with
    | error e => exact ⟨e, rfl⟩
    | ok results => exact absurd hspoiled (not_spoiled hresults htargets htarget hsource hkept)
  · intro model other prediction surely dist hpredicted hmean hother hstddev hsurely hedges
    exact Contribution.bandNonExceedance_of_isNaN_mean hpredicted hmean hother hstddev hsurely
      hedges
  · exact (collect_withModels hchange hedges htargets).symm

end Refused

namespace Sample

open PartialReal

theorem keeps_partialRupture (id : String) (mag mean : PartialReal) :
    (partialSource id mag).Keeps partialSite.location (partialContext mean).cfg.maximumDistance
      (partialRupture mag) where
  source_near := by
    change decide (real 200 < real 15) = false
    simp only [real_lt_real, decide_eq_false_iff_not]
    norm_num
  generated := ⟨_, rfl, List.mem_singleton_self _⟩
  near := by
    change real 15 ≤ real 200
    simp only [real_le_real]
    norm_num

/-- Every model of the context is the constant one. -/
theorem model_partialContext {mean : PartialReal} {realization : Realization PartialReal}
    (hrealization : realization ∈ (partialContext mean).realizations) {region : String}
    {model : GroundMotionModel PartialReal} (hmodel : realization.model region = .ok model) :
    model = constantModel mean := by
  rw [List.mem_singleton.1 hrealization, Realization.model, List.lookup_cons,
    List.lookup_nil] at hmodel
  by_cases hregion : region == "Crust" <;> simp [hregion] at hmodel
  exact hmodel.symm

theorem lowerEdge_partialContext (j : Nat) :
    Bands.lowerEdge (real 3) 1 j = real (-3 + 2 * 3 / ((1 : Nat) : ℝ) * j) := by
  rw [Bands.lowerEdge, ofNat_eq, natCast_eq, natCast_eq, real_mul, real_div _ (by norm_num),
    real_mul, real_neg, real_add]
  rfl

/-- A mean of 100 is far above the level. -/
theorem surelyExceeded_partialTarget :
    Bands.SurelyExceeded (partialContext nan).cfg ⟨real 100, real (1 / 2)⟩ partialTarget.level := by
  intro j hj hle
  have hthreshold : Bands.threshold ⟨real 100, real (1 / 2)⟩ (real 1) =
      real ((Real.log 1 - 100) / (1 / 2)) := by
    rw [Bands.threshold, log_real one_pos, real_sub, real_div _ (by norm_num)]
  change Bands.lowerEdge (real 3) 1 j ≤ Bands.threshold ⟨real 100, real (1 / 2)⟩ (real 1) at hle
  obtain rfl : j = 0 := Nat.lt_one_iff.1 hj
  rw [lowerEdge_partialContext, hthreshold, real_le_real] at hle
  norm_num at hle

/-- A magnitude that is no number is refused. A mean that is none counts like a mean at which
everything exceeds the level, and there are results. -/
theorem unmeasured_refused : NaNRules PartialReal ∧
    (partialContext (real 0)).targets partialSite = .ok [partialTarget] ∧
    (partialSource "A" nan).Keeps partialSite.location
      (partialContext (real 0)).cfg.maximumDistance (partialRupture nan) ∧
    (∃ e, Collection.collect [partialSource "A" nan] partialSite (partialContext (real 0)) =
      .error e) ∧
    Contribution.bandNonExceedance (partialContext (real 0)).cfg (partialRupture nan) (real 15)
        (constantModel nan) partialTarget =
      Contribution.bandNonExceedance (partialContext (real 0)).cfg (partialRupture nan) (real 15)
        (constantModel (real 100)) partialTarget ∧
    ∃ r m, Collection.collect [partialSource "A" (real 5)] partialSite (partialContext nan) =
        .ok r ∧
      Collection.collect [partialSource "A" (real 5)] partialSite (partialContext (real 100)) =
        .ok r ∧
      r.get? partialKey = some m := by
  have hedges : ∀ j < 1, isNaN (Bands.lowerEdge (real 3) 1 j) = false := by
    intro j _
    rw [lowerEdge_partialContext, isNaN_real]
  obtain ⟨hrefused, hmean, _⟩ := Collection.not_number partialContext_targets
    (List.mem_singleton_self _) (List.mem_singleton_self _) (keeps_partialRupture "A" nan (real 0))
  obtain ⟨_, _, hcollect⟩ := Collection.not_number partialContext_targets
    (List.mem_singleton_self _) (List.mem_singleton_self _) (keeps_partialRupture "A" (real 5) nan)
  have hbands := hmean (constantModel nan) (constantModel (real 100)) _ _ (real 15) rfl rfl rfl rfl
    surelyExceeded_partialTarget hedges
  have hchange : (partialContext nan).ChangedAsIfExceeded [partialTarget]
      fun _ => constantModel (real 100) := by
    intro realization hrealization region model hmodel target htarget mag dist
    obtain rfl := List.mem_singleton.1 htarget
    rw [model_partialContext hrealization hmodel]
    exact .inr ⟨_, _, rfl, rfl, rfl, rfl, surelyExceeded_partialTarget⟩
  obtain ⟨r, m, hr, hm⟩ := exists_collect_partialSources 100
    (List.cons_ne_nil (partialSource "A" (real 5)) [])
    (List.forall_mem_singleton.2 ⟨_, _, rfl⟩)
  exact ⟨inferInstance, partialContext_targets, keeps_partialRupture "A" nan (real 0),
    hrefused (.mag rfl), hbands, r, m, (hcollect _ hchange hedges).trans hr, hr, hm⟩

end Sample

end SeismicHazard
