import SeismicHazard.Config.Overrides
import SeismicHazard.Proofs.Bundle.Loaded
import SeismicHazard.Proofs.Job.Safety

/-!
# Loaded jobs run without internal failures

Loading looks up every name and numbers everything, so the parts of a loaded job fit together. The
environment can change widths, counts, targets and policies, on which none of this depends.
-/

noncomputable section

namespace SeismicHazard

theorem exists_lookup {α : Type} {key : String} {entries : List (String × α)}
    (hkey : key ∈ entries.map Prod.fst) :
    ∃ value, entries.lookup key = some value ∧ (key, value) ∈ entries := by
  obtain ⟨entry, hentry, rfl⟩ := List.mem_map.1 hkey
  have hsome : (entries.lookup entry.1).isSome = true :=
    List.lookup_isSome_iff.2 ⟨entry, hentry, beq_self_eq_true _⟩
  obtain ⟨value, hvalue⟩ := Option.isSome_iff_exists.1 hsome
  obtain ⟨before, after, hsplit, _⟩ := List.lookup_eq_some_iff.1 hvalue
  exact ⟨value, hvalue, by rw [hsplit]; simp⟩

/-- The model with some rows has a prediction for each of their measures. -/
theorem LogLinear.knows_model {rows : List (String × LogLinear ℝ)} {imts : List String}
    (hrows : rows.map Prod.fst = imts) : (model rows).Knows imts := by
  intro imt himt mag distance
  have hmem : imt ∈ rows.reverse.map Prod.fst := by simpa [← hrows] using himt
  obtain ⟨row, hrow, _⟩ := exists_lookup hmem
  have hpredict : (model rows).predict mag distance imt = row.predict mag distance := by
    simp only [model, hrow]
  rw [hpredict, predict]
  split
  next => rfl
  next => trivial

theorem PointSource.safe_ruptures (source : PointSource ℝ) :
    Safe (fun ruptures => ∀ r ∈ ruptures, r.Occurs source.timeSpan) source.toSource.ruptures := by
  apply Ends.mapM
  rintro ⟨mag, rate⟩ _
  change Safe (fun r => r.Occurs source.timeSpan) (source.rupture mag rate)
  unfold rupture
  split
  next hrate =>
    rw [Bool.and_eq_true, decide_eq_true_eq] at hrate
    exact ⟨rate, by simpa using hrate.2, rfl⟩
  next => rfl

/-- The settings that the environment leaves as they are. -/
theorem Config.kept_withEnvironment [ReadScalar ℝ] {cfg changed : Config ℝ} {env : Environment}
    (henv : cfg.withEnvironment env = .ok changed) :
    changed.measures = cfg.measures ∧ changed.investigationTime = cfg.investigationTime := by
  simp only [withEnvironment, bind_eq_ok, pure_eq_ok] at henv
  obtain ⟨_, _, _, _, _, _, _, _, _, _, _, _, _, _, _, _, _, _, rfl⟩ := henv
  exact ⟨rfl, rfl⟩

namespace Bundle

variable {bundle : Bundle ℝ} {base cfg : Config ℝ} {stored : StoredJob ℝ}

/-- The sources and realizations of a loaded job fit together, also with other settings for the same
measures and the same time. -/
theorem fits_of_load (hload : bundle.load base = .ok stored)
    (hmeasures : cfg.measures = stored.cfg.measures)
    (htime : cfg.investigationTime = stored.cfg.investigationTime) :
    FitTogether cfg stored.regions stored.branch.realizations stored.branch.sources := by
  obtain ⟨_, _, _, hsources, hrealizations, _⟩ := load_eq_ok.1 hload
  constructor
  case region =>
    intro source hsource
    obtain ⟨point, hpoint, rfl⟩ := List.mem_map.1 hsource
    exact (mem_sources hsources hpoint).1
  case ruptures =>
    intro source hsource
    obtain ⟨point, hpoint, rfl⟩ := List.mem_map.1 hsource
    rw [htime, ← (mem_sources hsources hpoint).2]
    exact point.safe_ruptures
  case model =>
    intro realization hrealization region hregion
    obtain ⟨loaded, hloaded, rfl⟩ := List.mem_map.1 hrealization
    obtain ⟨hregions, hmeasured⟩ := (mem_realizations hrealizations).2 loaded hloaded
    have hkey : region ∈ loaded.toRealization.models.map Prod.fst := by
      rw [StoredRealization.toRealization, List.map_map]
      rwa [← hregions] at hregion
    obtain ⟨model, hmodel, hfound⟩ := exists_lookup hkey
    obtain ⟨rows, hmem, hpair⟩ := List.mem_map.1 hfound
    obtain ⟨rfl, rfl⟩ := Prod.mk.inj hpair
    rw [Realization.model, hmodel]
    apply LogLinear.knows_model
    rw [hmeasured rows hmem, Config.imts, Config.imts, hmeasures]

theorem sound_of_load (hload : bundle.load base = .ok stored)
    (hmeasures : cfg.measures = stored.cfg.measures)
    (htime : cfg.investigationTime = stored.cfg.investigationTime) : (stored.job cfg).Sound := by
  constructor
  case parametric =>
    intro branch hbranch source hsource
    rw [List.mem_singleton.1 hbranch] at hsource
    obtain ⟨point, _, rfl⟩ := List.mem_map.1 hsource
    rfl
  case numbered =>
    obtain ⟨_, _, _, _, hrealizations, _⟩ := load_eq_ok.1 hload
    change ([stored.branch].flatMap fun branch => branch.realizations.map Realization.id).Nodup
    rw [List.flatMap_singleton, StoredJob.branch, List.map_map]
    exact (mem_realizations hrealizations).1
  case fits =>
    intro branch hbranch
    rw [List.mem_singleton.1 hbranch]
    exact fits_of_load hload hmeasures htime

/-- Whatever a loaded job and the settings of the environment are, and however its tasks are
scheduled, a run that fails does so for an external reason. -/
theorem runWith_external [NormalCdf ℝ] [ReadScalar ℝ] {env : Environment}
    (hload : bundle.load base = .ok stored) (henv : stored.cfg.withEnvironment env = .ok cfg)
    {schedule : List (Task ℝ) → Schedule (Task ℝ)} (hcomplete : Schedule.Complete schedule)
    {e : Error ℝ} (hfail : (stored.job cfg).runWith schedule = .error e) :
    e.fault.isInternal = false := by
  obtain ⟨hmeasures, htime⟩ := Config.kept_withEnvironment henv
  have hsound : (stored.job cfg).Sound := sound_of_load hload hmeasures htime
  exact (hsound.safe_runWith hcomplete).failure hfail

end Bundle

namespace Sample

/-- Whole numbers are all that the settings of the sample need to be read from. -/
scoped instance readScalar : ReadScalar ℝ where
  read? text := (Decimal.count? text).map Nat.cast

/-- A bundle with one source, whose annual rate is below zero. -/
def negativeBundle : Bundle ℝ where
  path := "job.npz"
  arrays :=
    [("meta_investigation_time", .ofNumbers [50]), ("meta_poes_disagg", .ofNumbers [1 / 10]),
     ("meta_imt_data", .ofBytes [80, 71, 65]), ("meta_imt_indptr", .ofLongs [0, 3]),
     ("imt0_imls", .ofNumbers [1]),
     ("meta_trt_data", .ofBytes [67]), ("meta_trt_indptr", .ofLongs [0, 1]),
     ("site_lons", .ofNumbers [0]), ("site_lats", .ofNumbers [0]),
     ("src_lons", .ofNumbers [0]), ("src_lats", .ofNumbers [0]), ("src_depths", .ofNumbers [10]),
     ("src_trt", ⟨[1], .ints [0]⟩), ("src_mfd_indptr", .ofLongs [0, 1]),
     ("src_mags", .ofNumbers [5]), ("src_rates", .ofNumbers [-1]),
     ("rlz_gmpe", ⟨[1, 1, 1, 5], .doubles [0, 0, 0, 1, 1]⟩), ("rlz_weights", .ofNumbers [1])]

def negativeSource : PointSource ℝ := ⟨"src-0", "C", ⟨0, 0⟩, 10, [(5, -1)], 50⟩

def negativeStored : StoredJob ℝ where
  cfg := cfg [1 / 10] 16
  sites := [⟨0, ⟨0, 0⟩⟩]
  regions := ⟨["C"], List.nodup_singleton _⟩
  sources := [negativeSource]
  realizations := [⟨0, 1, [("C", [("PGA", ⟨0, 0, 0, 1, 1⟩)])]⟩]
  curves := SortedMap.empty

/-- The settings of the sample with three bins for epsilon. -/
def negativeCfg : Config ℝ := { cfg [1 / 10] 16 with epsilonBins := 3 }

theorem negativeBundle_load : negativeBundle.load (cfg [1 / 10] 16) = .ok negativeStored := rfl

theorem negativeJob_validate : (negativeStored.job negativeCfg).validate = .ok () := by
  have haccepted : negativeCfg.Accepted := by
    constructor <;> norm_num [negativeCfg, cfg]
  exact bind_eq_ok.2 ⟨(), Config.validate_eq_ok.2 haccepted, rfl⟩

theorem negativeJob_edges : (negativeStored.job negativeCfg).edges =
    .error ⟨some "src-0", .config (.occurrenceRate (-1) 5)⟩ := by
  have hrupture : negativeSource.rupture 5 (-1) = .error (.config (.occurrenceRate (-1) 5)) := by
    apply if_neg
    rw [Bool.and_eq_true, decide_eq_true_eq, Scalar.zero_exact]
    norm_num
  have hruptures : negativeSource.toSource.rupturesNamed =
      .error ⟨some "src-0", .config (.occurrenceRate (-1) 5)⟩ := by
    have hrates : negativeSource.toSource.ruptures = (do
        let r ← negativeSource.rupture 5 (-1)
        return [r]) := rfl
    rw [Source.rupturesNamed, hrates, hrupture]
    rfl
  have hmags : Job.magRange negativeStored.branch =
      .error ⟨some "src-0", .config (.occurrenceRate (-1) 5)⟩ := by
    have hsources : negativeStored.branch.sources = [negativeSource.toSource] := rfl
    rw [Job.magRange, hsources, List.mapM_cons, hruptures]
    rfl
  have hbranches : (negativeStored.job negativeCfg).branches = [negativeStored.branch] := rfl
  rw [Job.edges, hbranches, List.foldlM_cons, Job.addEdges, hmags]
  rfl

/-- The rate is what the run of the sample fails for. -/
theorem negative_rate_fails :
    (negativeStored.job negativeCfg).runWith Executor.sequential.schedule =
      .error ⟨some "src-0", .config (.occurrenceRate (-1) 5)⟩ := by
  rw [Job.runWith, negativeJob_validate, negativeJob_edges]
  rfl

/-- The sample fails for an external reason. -/
theorem negative_rate_external :
    negativeBundle.load (cfg [1 / 10] 16) = .ok negativeStored ∧
      negativeStored.cfg.withEnvironment [("DISAGG_NUM_EPSILON_BINS", "3")] = .ok negativeCfg ∧
      ∃ e, (negativeStored.job negativeCfg).runWith Executor.sequential.schedule = .error e ∧
        e.fault.isInternal = false := by
  have henv : negativeStored.cfg.withEnvironment [("DISAGG_NUM_EPSILON_BINS", "3")] =
      .ok negativeCfg := rfl
  exact ⟨negativeBundle_load, henv, _, negative_rate_fails, Bundle.runWith_external
    negativeBundle_load henv (Schedule.complete_executor _) negative_rate_fails⟩

end Sample

end SeismicHazard

end
