import SeismicHazard.Proofs.Collection.Countable
import SeismicHazard.Proofs.Collection.Multiplicity
import SeismicHazard.Proofs.GroundMotion.Normal
import SeismicHazard.Proofs.HazardCurve.Levels
import SeismicHazard.Proofs.Job.Runs
import SeismicHazard.Proofs.Sample

/-!
# Jobs that run

A run exists as soon as a job is accepted, has edges, and there is room for its matrices, provided
that curves are clamped and that every rupture is Poissonian and has a prediction from each
realization. None of the other failures of a run can happen then.
-/

noncomputable section

namespace SeismicHazard

theorem SiteContext.succeeds_targets {ctx : SiteContext ℝ}
    (hclamp : ctx.cfg.extrapolation = .clamp) (site : Site ℝ) : Succeeds (ctx.targets site) := by
  apply succeeds_bind.2
  obtain ⟨found, hfound⟩ := succeeds_mapM.2 fun (combination : ℝ × String × Realization ℝ)
      (_ : combination ∈ ctx.combinations) => show Succeeds
        (ctx.target? site combination.1 combination.2.1 combination.2.2) by
    cases hcurve : ctx.curves.get? ⟨site.id, combination.2.2.id, combination.2.1⟩ with
    | none => exact ⟨_, target?_eq_none.2 hcurve⟩
    | some curve =>
        obtain ⟨level, hlevel⟩ := curve.exists_levelFor combination.1
        rw [← hclamp] at hlevel
        exact ⟨some ⟨_, level⟩, target?_eq_some.2 ⟨rfl, curve, hcurve, hlevel⟩⟩
  exact ⟨found, hfound, succeeds_pure _⟩

section Computing

variable [NormalCdf ℝ]

namespace Bands

theorem exists_exceedances {prediction : Prediction ℝ} {level : ℝ} {n : Nat}
    (hstddev : 0 < prediction.stddev) (hlevel : 0 < level)
    (hroom : n.nextPowerOfTwo ≤ maxNumbers) (truncation : ℝ) :
    ∃ bands, exceedances prediction level truncation n = .ok bands ∧ bands.length = n ∧
      ∀ band ∈ bands, 0 ≤ band ∧ band ≤ 1 := by
  have hbands : exceedances prediction level truncation n = _ :=
    exceedances_eq_ok.2 ⟨hstddev, hlevel, hroom, rfl⟩
  refine ⟨_, hbands, length_exceedances hbands, fun band hband => ?_⟩
  obtain ⟨j, _, rfl⟩ := List.mem_map.1 hband
  exact probability_mem _ _ _ _

end Bands

namespace Contribution

/-- A Poissonian rupture has probabilities for a target when there is a prediction and the level is
positive. -/
theorem exists_bandNonExceedance {cfg : Config ℝ} {rupture : Rupture ℝ} {dist rate span : ℝ}
    {model : GroundMotionModel ℝ} {target : Target ℝ} {prediction : Prediction ℝ}
    (hprediction : model.predict rupture.mag dist target.key.imt = .ok prediction)
    (hstddev : 0 < prediction.stddev) (hlevel : 0 < target.level)
    (hroom : cfg.epsilonBins.nextPowerOfTwo ≤ maxNumbers)
    (hoccurrence : rupture.occurrence = .poissonian rate span) (hrate : 0 ≤ rate * span) :
    ∃ value, bandNonExceedance cfg rupture dist model target = .ok value ∧
      value.pnes.length = cfg.epsilonBins ∧ ∀ p ∈ value.pnes, 0 ≤ p ∧ p ≤ 1 := by
  obtain ⟨bands, hbands, hlength, hmem⟩ :=
    Bands.exists_exceedances hstddev hlevel hroom cfg.truncationLevel
  have hpnes : bands.mapM rupture.occurrence.noExceedance =
      .ok (bands.map fun band => Real.exp (-rate * span * band)) :=
    hoccurrence ▸ Occurrence.mapM_poissonian rate span bands
  refine ⟨⟨target.level, _⟩, bind_eq_ok.2 ⟨prediction, hprediction, bind_eq_ok.2 ⟨bands, hbands,
    bind_eq_ok.2 ⟨_, hpnes, rfl⟩⟩⟩, by simp [hlength], fun p hp => ?_⟩
  obtain ⟨band, hband, rfl⟩ := List.mem_map.1 hp
  exact Occurrence.exp_mem hrate (hmem band hband).1

end Contribution

namespace Job

variable {job : Job ℝ} {edges : EdgeTable ℝ}

omit [NormalCdf ℝ] in
theorem exists_indexOf {regions : Regions} {name : String} (hname : name ∈ regions.names) :
    ∃ trt, regions.indexOf (R := ℝ) name = .ok trt ∧ trt < regions.size := by
  unfold Regions.indexOf
  cases hindex : regions.names.idxOf? name with
  | none => exact absurd hname (List.idxOf?_eq_none_iff.1 hindex)
  | some trt => exact ⟨trt, rfl, (List.idxOf?_eq_some_iff.1 hindex).1⟩

/-- A job in which everything can be computed, as long as there is room for it. -/
structure WellPosed (job : Job ℝ) : Prop where
  extrapolation : job.cfg.extrapolation = .clamp
  bands : job.cfg.epsilonBins.nextPowerOfTwo ≤ maxNumbers
  level : ∀ key curve, job.curves.get? key = some curve → ∀ poe ∈ job.cfg.targets, ∀ level,
    curve.levelFor poe .clamp = .ok level → 0 < level
  ruptures : ∀ branch ∈ job.branches, ∀ source ∈ branch.sources, ∃ ruptures,
    source.ruptures = .ok ruptures ∧ ∀ rupture ∈ ruptures, ∃ rate span,
      rupture.occurrence = .poissonian rate span ∧ 0 ≤ rate * span
  region : ∀ branch ∈ job.branches, ∀ source ∈ branch.sources,
    source.region ∈ branch.regions.names
  model : ∀ branch ∈ job.branches, ∀ realization ∈ branch.realizations,
    ∀ source ∈ branch.sources, ∃ model, realization.model source.region = .ok model ∧
      ∀ mag dist, ∀ imt ∈ job.cfg.imts, ∃ prediction,
        model.predict mag dist imt = .ok prediction ∧ 0 < prediction.stddev

/-- There is room for the matrices with the stored edges. -/
def HasRoom (job : Job ℝ) (edges : EdgeTable ℝ) : Prop :=
  ∀ branch ∈ job.branches, ∀ key e shape, edges.get? key = some e →
    e.shape branch.regions.size = .ok shape → shape.reserve (R := ℝ) = .ok ()

theorem WellPosed.admits (h : job.WellPosed) (hcfg : job.cfg.Accepted)
    (hedges : job.edges = .ok edges) (hroom : job.HasRoom edges) {branch : Branch ℝ}
    (hbranch : branch ∈ job.branches) {site : Site ℝ} {key : EdgeKey} {e : BinEdges ℝ}
    (he : edges.get? key = some e) {targets : List (Target ℝ)}
    (htargets : (job.context branch e).targets site = .ok targets) {source : Source ℝ}
    (hsource : source ∈ branch.sources) {rupture : Rupture ℝ}
    (hrupture : rupture ∈ source.nearby site job.cfg.maximumDistance) :
    Collection.Admits site (job.context branch e) targets source rupture := by
  obtain ⟨_, _, _, _, _, hof⟩ := edgesOf?_of_get? hedges he
  obtain ⟨_, _, _, _, hbuilt⟩ := built_of_edgesOf? hof
  obtain ⟨shape, hshape, heps⟩ := hbuilt.exists_shape branch.regions.size
  refine ⟨?_, fun realization hrealization => ?_⟩
  · obtain ⟨trt, htrt, hlt⟩ := exists_indexOf (h.region branch hbranch source hsource)
    obtain ⟨k, hk, _⟩ := hbuilt.exists_cell hcfg (c := Contribution.bare site rupture trt) hlt
    exact ⟨trt, k, htrt, hk⟩
  · obtain ⟨model, hmodel, hpredict⟩ :=
      h.model branch hbranch realization hrealization source hsource
    refine ⟨model, hmodel, fun target htarget _ => ?_⟩
    obtain ⟨poe, hpoe, imt, himt, _, _, hkey, curve, hcurve, hlevel⟩ :=
      (SiteContext.mem_targets htargets).1 htarget
    have hpositive : 0 < target.level :=
      h.level _ curve hcurve poe hpoe _ (h.extrapolation ▸ hlevel)
    obtain ⟨prediction, hprediction, hstddev⟩ :=
      hpredict rupture.mag (rupture.distanceTo site.location) imt himt
    obtain ⟨ruptures, hruptures, hall⟩ := h.ruptures branch hbranch source hsource
    have hmem : rupture ∈ ruptures := by
      rw [← listed_ok (ε := Error ℝ) ruptures, ← hruptures]
      exact Source.mem_ruptures_of_mem_nearby hrupture
    obtain ⟨rate, span, hoccurrence, hrate⟩ := hall rupture hmem
    rw [show imt = target.key.imt by rw [hkey]] at hprediction
    obtain ⟨value, hvalue, hlength, hprobabilities⟩ := Contribution.exists_bandNonExceedance
      hprediction hstddev hpositive h.bands hoccurrence hrate
    exact ⟨value, hvalue, shape, hshape, hroom branch hbranch key e shape he hshape,
      fun p hp => (Scalar.isProbability_exact p).2 (hprobabilities p hp), by rw [heps, hlength]⟩

/-- A job in which everything can be computed has a run. -/
theorem WellPosed.exists_run (h : job.WellPosed) {schedule : List (Task ℝ) → Schedule (Task ℝ)}
    (hcomplete : Schedule.Complete schedule) (hvalid : job.validate = .ok ())
    (hedges : job.edges = .ok edges) (hroom : job.HasRoom edges) :
    ∃ run, job.runWith schedule = .ok run := by
  apply Job.exists_run hcomplete hvalid hedges
  intro branch hbranch source hsource site hsite
  cases he : edges.get? ⟨branch.id, site.id⟩ with
  | none => exact ⟨[], shares_of_none he source⟩
  | some e =>
      rw [shares_of_some he]
      obtain ⟨targets, htargets⟩ : Succeeds ((job.context branch e).targets site) :=
        SiteContext.succeeds_targets h.extrapolation site
      by_cases hnil : targets = []
      · exact ⟨[], Collection.shares_of_nil (hnil ▸ htargets) source⟩
      · rw [Collection.succeeds_shares_iff hnil htargets]
        · have hcfg := accepted_of_validate hvalid
          exact ⟨fun _ => (h.ruptures branch hbranch source hsource).imp fun _ h => h.1,
            fun _ hrupture => h.admits hcfg hedges hroom hbranch he htargets hsource hrupture⟩
        · exact fun a ha b hb hid => (eq_of_realization hvalid hbranch hbranch ha hb hid).2

end Job

end Computing

/-! ## A small job -/

namespace Sample

variable {targets : List ℝ} {n : Nat} {a b : String} {r s : ℝ}

theorem magRange_branch :
    Job.magRange (branch [source a r, source b s]) = .ok (some ⟨11 / 2, 11 / 2⟩) := by
  rw [Job.magRange_eq_ok]
  refine ⟨by simp [branch, source], ?_⟩
  simp [branch, source, rupture, MagRange.ofList, MagRange.extend, Scalar.lesser_exact,
    Scalar.greater_exact]

theorem edgesOf?_job {site : Site ℝ} (hsite : site.id = 0) :
    (job targets n [source a r, source b s]).edgesOf? (branch [source a r, source b s]) site =
      .ok (some edges) := by
  have hbounds : Job.siteBounds [source a r, source b s] site (cfg targets n) =
      .ok ⟨some spread⟩ := by
    rw [Job.siteBounds_eq_ok]
    refine ⟨by simp [source], ?_⟩
    have hnear : [source a r, source b s].flatMap (·.nearby site (cfg targets n).maximumDistance) =
        [rupture r, rupture s] := by
      simp only [List.flatMap_cons, List.flatMap_nil, cfg, nearby_source]
      rfl
    rw [hnear]
    rfl
  have hhas : (job targets n [source a r, source b s]).curves.hasSite site.id = true := by
    rw [hsite]
    rfl
  refine bind_eq_ok.2 ⟨_, magRange_branch, ?_⟩
  rw [Job.edgesAt?, hhas]
  exact bind_eq_ok.2 ⟨_, hbounds, BinEdges.ofBounds?_eq_ok.2 ⟨edges, rfl, edges_built⟩⟩

theorem job_edges : (job targets n [source a r, source b s]).edges =
    .ok (SortedMap.empty.insert ⟨0, 0⟩ edges) := by
  have hadd : (job targets n [source a r, source b s]).addEdges SortedMap.empty
      (branch [source a r, source b s]) = .ok (SortedMap.empty.insert ⟨0, 0⟩ edges) := by
    refine Job.addEdges_eq_ok.2 ⟨?_, [(0, some edges)], ?_, rfl⟩
    · exact ⟨_, magRange_branch⟩
    · exact mapM_eq_ok.2 (.cons (map_eq_ok.2 ⟨_, edgesOf?_job rfl, rfl⟩) .nil)
  exact bind_eq_ok.2 ⟨_, hadd, rfl⟩

theorem job_validate (htargets : targets ≠ []) (hisTarget : ∀ poe ∈ targets, 0 < poe ∧ poe ≤ 1)
    (hn : 0 < n) : (job targets n [source a r, source b s]).validate = .ok () :=
  bind_eq_ok.2 ⟨(), Config.validate_eq_ok.2 (cfg_accepted htargets hisTarget hn), rfl⟩

theorem of_mem_branches {β : Branch ℝ}
    (hβ : β ∈ (job targets n [source a r, source b s]).branches) :
    β = branch [source a r, source b s] :=
  List.mem_singleton.1 hβ

theorem of_mem_sources (hr : 0 ≤ r) (hs : 0 ≤ s) {β : Branch ℝ}
    (hβ : β ∈ (job targets n [source a r, source b s]).branches) {σ : Source ℝ}
    (hσ : σ ∈ β.sources) : ∃ id rate, 0 ≤ rate ∧ σ = source id rate := by
  rw [of_mem_branches hβ] at hσ
  rcases List.mem_cons.1 hσ with rfl | hσ
  · exact ⟨a, r, hr, rfl⟩
  · exact ⟨b, s, hs, List.mem_singleton.1 hσ⟩

theorem job_wellPosed (hr : 0 ≤ r) (hs : 0 ≤ s) :
    (job targets n [source a r, source b s]).WellPosed where
  extrapolation := rfl
  bands := by
    change Nat.nextPowerOfTwo 1 ≤ maxNumbers
    decide +kernel
  level key c hc poe _ level hlevel := by
    change (SortedMap.empty.insert _ curve).get? key = some c at hc
    rw [SortedMap.get?_insert] at hc
    split at hc
    next =>
      rw [← Option.some.inj hc, curve_levelFor, Except.ok.injEq] at hlevel
      rw [← hlevel]
      exact one_pos
    next => simp at hc
  ruptures β hβ σ hσ := by
    obtain ⟨id, rate, hrate, rfl⟩ := of_mem_sources hr hs hβ hσ
    refine ⟨_, rfl, fun q hq => ⟨rate, 50, ?_, by positivity⟩⟩
    rw [List.mem_singleton.1 hq]
    rfl
  region β hβ σ hσ := by
    obtain ⟨id, rate, hrate, rfl⟩ := of_mem_sources hr hs hβ hσ
    rw [of_mem_branches hβ]
    exact List.mem_cons_self
  model β hβ ρ hρ σ hσ := by
    obtain ⟨id, rate, hrate, rfl⟩ := of_mem_sources hr hs hβ hσ
    rw [of_mem_branches hβ] at hρ
    rw [List.mem_singleton.1 hρ]
    exact ⟨model, rfl, fun _ _ _ _ => ⟨_, rfl, by norm_num⟩⟩

theorem job_hasRoom :
    (job targets n [source a r, source b s]).HasRoom (SortedMap.empty.insert ⟨0, 0⟩ edges) := by
  intro β hβ key e shape he hshape
  rw [SortedMap.get?_insert] at he
  split at he
  next =>
    rw [of_mem_branches hβ, ← Option.some.inj he] at hshape
    rw [← Except.ok.inj hshape]
    rfl
  next => simp at he

/-- Two sources at the same place have a run. -/
theorem exists_run (htargets : targets ≠ []) (hisTarget : ∀ poe ∈ targets, 0 < poe ∧ poe ≤ 1)
    (hn : 0 < n) (hr : 0 ≤ r) (hs : 0 ≤ s) {schedule : List (Task ℝ) → Schedule (Task ℝ)}
    (hcomplete : Schedule.Complete schedule) :
    ∃ run, (job targets n [source a r, source b s]).runWith schedule = .ok run :=
  (job_wellPosed hr hs).exists_run hcomplete (job_validate htargets hisTarget hn) job_edges
    job_hasRoom

/-- Such a run has a matrix for every probability that is asked for. -/
theorem exists_matrix {run : Run ℝ} (hran : Job.Ran (job targets n [source a r, source b s]) run)
    {poe : ℝ} (hpoe : poe ∈ targets) :
    ∃ m, run.results.get? ⟨0, 0, ⟨poe⟩, "PGA", ["Crust"]⟩ = some m := by
  refine (hran.exists_matrix_iff _).2 ⟨_, List.mem_cons_self, _, List.mem_cons_self, _,
    List.mem_cons_self, poe, hpoe, "PGA", List.mem_cons_self, rfl, ⟨curve, ?_⟩, ?_⟩
  · change (SortedMap.empty.insert _ curve).get? _ = some curve
    rw [SortedMap.get?_insert, if_pos rfl]
  · simp [Job.nearbyOf, branch, job, cfg, nearby_source]

end Sample

end SeismicHazard

end
