import SeismicHazard.Proofs.GroundMotion.Bands
import SeismicHazard.Proofs.HazardCurve.Levels
import SeismicHazard.Proofs.Job.Reference

/-!
# Rarer targets

A lower probability of exceedance has a higher level, and a rupture exceeds a higher level less
often, whatever the band and the cell. A run therefore has a matrix for both of two probabilities or
for none, and for the lower one every cell has the smaller exceedance.
-/

noncomputable section

namespace SeismicHazard

/-- As long as the non-exceedance of the larger band is a probability, it is the smaller one. -/
theorem Occurrence.exp_anti {rate span band band' : ℝ} (hless : band' ≤ band)
    (hnonneg : 0 ≤ band') (hle : Real.exp (-rate * span * band) ≤ 1) :
    0 ≤ Real.exp (-rate * span * band) ∧
      Real.exp (-rate * span * band) ≤ Real.exp (-rate * span * band') := by
  refine ⟨(Real.exp_pos _).le, Real.exp_le_exp.2 ?_⟩
  have hneg : ∀ x, -rate * span * x = -(rate * span * x) := fun x => by ring
  rw [Real.exp_le_one_iff, hneg, neg_nonpos] at hle
  rw [hneg, hneg, neg_le_neg_iff]
  rcases le_total 0 (rate * span) with hrate | hrate
  · exact mul_le_mul_of_nonneg_left hless hrate
  · -- with a negative rate there is no exceedance at all, or it would not be a probability
    exact (mul_nonpos_of_nonpos_of_nonneg hrate hnonneg).trans hle

namespace Collection

/-- A product of smaller factors is smaller. -/
theorem cellProduct_mono {xs ys : List (Cell × List ℝ)}
    (h : List.Forall₂ (fun x y => x.1 = y.1 ∧ List.Forall₂ (fun p q => 0 ≤ p ∧ p ≤ q) x.2 y.2)
      xs ys) (c : Cell) (eps : Nat) :
    0 ≤ cellProduct xs c eps ∧ cellProduct xs c eps ≤ cellProduct ys c eps := by
  have hfactor : ∀ {ps qs : List ℝ}, List.Forall₂ (fun p q => 0 ≤ p ∧ p ≤ q) ps qs →
      0 ≤ ps.getD eps 1 ∧ ps.getD eps 1 ≤ qs.getD eps 1 := by
    intro ps qs hle
    rcases Nat.lt_or_ge eps ps.length with hlt | hge
    · have hlt' : eps < qs.length := hle.length_eq ▸ hlt
      rw [List.getD_eq_getElem _ _ hlt, List.getD_eq_getElem _ _ hlt']
      exact hle.get hlt hlt'
    · rw [List.getD_eq_default _ _ hge, List.getD_eq_default _ _ (hle.length_eq ▸ hge)]
      exact ⟨zero_le_one, le_rfl⟩
  induction h with
  | nil => exact ⟨zero_le_one, le_rfl⟩
  | @cons x y xs ys hhead _ ih =>
      obtain ⟨hnonneg, hle⟩ := hfactor hhead.2
      rw [cellProduct_cons, cellProduct_cons, ← hhead.1]
      split
      next => exact ⟨mul_nonneg hnonneg ih.1, mul_le_mul hle ih.2 ih.1 (hnonneg.trans hle)⟩
      next => simpa using ih

variable [NormalCdf ℝ] {ctx : SiteContext ℝ} {site : Site ℝ} {realization : Realization ℝ}
  {imt : String} {level level' : ℝ} {source : Source ℝ} {rupture : Rupture ℝ} {cell cell' : Cell}
  {pnes pnes' : List ℝ}

/-- A rupture falls into the same cell for a lower level, and exceeds that more often. -/
theorem Contributes.anti (hcdf : Monotone (NormalCdf.cdf (R := ℝ))) (hcfg : ctx.cfg.Accepted)
    (hlevel : level ≤ level')
    (h : Contributes ctx site realization imt level source rupture cell pnes)
    (h' : Contributes ctx site realization imt level' source rupture cell' pnes') :
    cell = cell' ∧ List.Forall₂ (fun p q => 0 ≤ p ∧ p ≤ q) pnes pnes' := by
  refine ⟨h.cell_eq h', ?_⟩
  have hprobabilities := h.probabilities
  obtain ⟨prediction, bands, bands', rate, span, hbands, hbands', rfl, rfl⟩ := h.exists_bands h'
  obtain ⟨hstddev, hpositive, _, rfl⟩ := Bands.exceedances_eq_ok.1 hbands
  obtain ⟨_, _, _, rfl⟩ := Bands.exceedances_eq_ok.1 hbands'
  have hthreshold : Bands.threshold prediction level ≤ Bands.threshold prediction level' := by
    have hlog : Real.log level ≤ Real.log level' := Real.log_le_log hpositive hlevel
    exact div_le_div_of_nonneg_right (sub_le_sub_right hlog _) hstddev.le
  simp only [List.forall₂_map_left_iff, List.forall₂_map_right_iff, List.forall₂_same]
  intro j hj
  have hless := Bands.probability_anti hcdf hcfg.truncationLevel.le ctx.cfg.epsilonBins j hthreshold
  have hnonneg := (Bands.probability_mem ctx.cfg.truncationLevel
    (Bands.threshold prediction level') ctx.cfg.epsilonBins j).1
  have hle := (hprobabilities _ (List.mem_map_of_mem (List.mem_map_of_mem hj))).2
  exact Occurrence.exp_anti hless hnonneg hle

/-- Along the ruptures near a site. -/
theorem cellProduct_anti (hcdf : Monotone (NormalCdf.cdf (R := ℝ))) (hcfg : ctx.cfg.Accepted)
    (hlevel : level ≤ level') {near : List (Source ℝ × Rupture ℝ)}
    {located located' : List (Cell × List ℝ)}
    (h : List.Forall₂ (fun near x =>
      Contributes ctx site realization imt level near.1 near.2 x.1 x.2) near located)
    (h' : List.Forall₂ (fun near x =>
      Contributes ctx site realization imt level' near.1 near.2 x.1 x.2) near located')
    (c : Cell) (eps : Nat) : cellProduct located c eps ≤ cellProduct located' c eps := by
  refine (cellProduct_mono ?_ c eps).2
  induction h generalizing located' with
  | nil =>
      rw [List.forall₂_nil_left_iff.1 h']
      exact .nil
  | cons hhead _ ih =>
      obtain ⟨x', rest', hhead', hrest', rfl⟩ := List.forall₂_cons_left_iff.1 h'
      exact .cons (hhead.anti hcdf hcfg hlevel hhead') (ih hrest')

end Collection

namespace Job

open Collection

variable [NormalCdf ℝ] {job : Job ℝ} {run : Run ℝ}

/-- Where there is a matrix for one target there is one for every other. -/
theorem Ran.exists_matrix_of_target (h : Ran job run) {p q : ℝ} (hq : q ∈ job.cfg.targets)
    {number realization : Nat} {imt : String} {names : List String} {m : Matrix ℝ}
    (hm : run.results.get? ⟨number, realization, ⟨p⟩, imt, names⟩ = some m) :
    ∃ n, run.results.get? ⟨number, realization, ⟨q⟩, imt, names⟩ = some n := by
  obtain ⟨branch, hbranch, site, hsite, ρ, hρ, _, _, i, hi, hkey, hknown, hnear⟩ :=
    (h.exists_matrix_iff _).1 ⟨m, hm⟩
  obtain ⟨rfl, rfl, -, rfl, rfl⟩ := ResultKey.mk.inj hkey
  exact (h.exists_matrix_iff _).2
    ⟨branch, hbranch, site, hsite, ρ, hρ, q, hq, _, hi, rfl, hknown, hnear⟩

/-- Of two targets the rarer one has results for the same sites, realizations and measures, at a
level that is not lower, and with no greater exceedance in any cell. -/
theorem runWith_rarer {schedule : List (Task ℝ) → Schedule (Task ℝ)}
    (hcomplete : Schedule.Complete schedule) (hrun : job.runWith schedule = .ok run)
    (hcdf : Monotone (NormalCdf.cdf (R := ℝ)))
    (hpoes : job.cfg.targets.Nodup) (himts : job.cfg.imts.Nodup)
    (hsites : (job.sites.map Site.id).Nodup) {p q : ℝ} (hp : p ∈ job.cfg.targets)
    (hq : q ∈ job.cfg.targets) (hle : p ≤ q) (number realization : Nat) (imt : String)
    (names : List String) :
    ((∃ m, run.results.get? ⟨number, realization, ⟨p⟩, imt, names⟩ = some m) ↔
      ∃ n, run.results.get? ⟨number, realization, ⟨q⟩, imt, names⟩ = some n) ∧
    ∀ m n, run.results.get? ⟨number, realization, ⟨p⟩, imt, names⟩ = some m →
      run.results.get? ⟨number, realization, ⟨q⟩, imt, names⟩ = some n →
      n.level ≤ m.level ∧ m.shape = n.shape ∧
        ∀ cell eps, m.shape.holds cell = true → eps < m.shape.eps →
          ∃ x y, m.exceedanceAt cell eps = .ok x ∧ n.exceedanceAt cell eps = .ok y ∧ x ≤ y := by
  have h := ran_of_runWith hcomplete hrun
  constructor
  · exact ⟨fun ⟨_, hm⟩ => h.exists_matrix_of_target hq hm,
      fun ⟨_, hn⟩ => h.exists_matrix_of_target hp hn⟩
  · intro m n hm hn
    obtain ⟨branch, hbranch, site, hsite, ρ, hρ, poe, hpoe, i, hi, hkey, _⟩ :=
      (h.exists_matrix_iff _).1 ⟨m, hm⟩
    obtain ⟨rfl, rfl, -, rfl, rfl⟩ := ResultKey.mk.inj hkey
    obtain ⟨edges, curve, hedges, hshape, hcurve, hlevel⟩ := h.matrix_frame hbranch hρ hm
    obtain ⟨edges', curve', hedges', hshape', hcurve', hlevel'⟩ := h.matrix_frame hbranch hρ hn
    obtain rfl : edges = edges' := Option.some.inj (hedges.symm.trans hedges')
    obtain rfl : curve = curve' := Option.some.inj (hcurve.symm.trans hcurve')
    have hlower : n.level ≤ m.level := HazardCurve.levelFor_anti hle hlevel hlevel'
    have hsame : m.shape = n.shape := Except.ok.inj (hshape.symm.trans hshape')
    obtain ⟨located, hlocated, hcells⟩ :=
      h.pne_eq_cellProduct hpoes himts hsites hbranch hsite hρ hedges hm
    obtain ⟨located', hlocated', hcells'⟩ :=
      h.pne_eq_cellProduct hpoes himts hsites hbranch hsite hρ hedges hn
    refine ⟨hlower, hsame, fun cell eps hcell heps => ?_⟩
    refine ⟨_, _, Matrix.exceedanceAt_exact hcell heps,
      Matrix.exceedanceAt_exact (hsame ▸ hcell) (hsame ▸ heps), ?_⟩
    rw [hcells cell eps hcell heps, hcells' cell eps (hsame ▸ hcell) (hsame ▸ heps)]
    have hcfg := accepted_of_validate h.valid
    exact sub_le_sub_left (cellProduct_anti hcdf hcfg hlower hlocated' hlocated cell eps) 1

end Job

namespace Sample

/-- A curve with two points. -/
def fallingCurve : HazardCurve ℝ where
  levels := [1, 2]
  poes := [1 / 5, 1 / 20]
  scale := .linear
  accepted := by
    have hfirst : Scalar.isProbability (5⁻¹ : ℝ) = true :=
      (Scalar.isProbability_exact _).2 (by norm_num)
    have hsecond : Scalar.isProbability (20⁻¹ : ℝ) = true :=
      (Scalar.isProbability_exact _).2 (by norm_num)
    simp [HazardCurve.fault?, HazardCurve.allNeighbours, hfirst, hsecond]
    norm_num

/-- Two sources at the same place and two targets, on the curve of a single point. -/
def flatJob : Job ℝ := job [1 / 20, 1 / 10] 1 [source "A" 1, source "B" 2]

/-- The same with a falling curve. -/
def fallingJob : Job ℝ :=
  { flatJob with curves := SortedMap.empty.insert ⟨0, 0, "PGA"⟩ fallingCurve }

/-- Edges are a matter of where curves are known, not of the curves. -/
theorem fallingJob_edges : fallingJob.edges = .ok (SortedMap.empty.insert ⟨0, 0⟩ edges) :=
  (job_edges : flatJob.edges = _)

theorem fallingJob_wellPosed : fallingJob.WellPosed := by
  have h : flatJob.WellPosed := job_wellPosed zero_le_one zero_le_two
  refine ⟨h.extrapolation, h.bands, ?_, h.ruptures, h.region, h.model⟩
  intro key c hc poe _ level hlevel
  change (SortedMap.empty.insert _ fallingCurve).get? key = some c at hc
  rw [SortedMap.get?_insert] at hc
  split at hc
  next =>
    obtain rfl := Option.some.inj hc
    have hfirst : fallingCurve.ascending.head? = some (1 / 20, 2) := rfl
    have hlast : fallingCurve.ascending.getLast? = some (1 / 5, 1) := rfl
    exact one_pos.trans_le (HazardCurve.levelFor_mem hlevel hfirst hlast).1
  next => simp at hc

/-- The level that is exceeded half as often is higher, and no cell has more exceedance for it. -/
theorem falling_targets :
    ∃ run m n, fallingJob.runWith Executor.sequential.schedule = .ok run ∧
      run.results.get? ⟨0, 0, ⟨1 / 20⟩, "PGA", ["Crust"]⟩ = some m ∧
      run.results.get? ⟨0, 0, ⟨1 / 10⟩, "PGA", ["Crust"]⟩ = some n ∧
      n.level ≤ m.level ∧ m.shape = n.shape ∧
      ∀ cell eps, m.shape.holds cell = true → eps < m.shape.eps →
        ∃ x y, m.exceedanceAt cell eps = .ok x ∧ n.exceedanceAt cell eps = .ok y ∧ x ≤ y := by
  have hcomplete := Schedule.complete_executor (τ := Task ℝ) .sequential
  obtain ⟨run, hrun⟩ : ∃ run, fallingJob.runWith Executor.sequential.schedule = .ok run :=
    fallingJob_wellPosed.exists_run hcomplete
      (job_validate (by simp) (by norm_num) Nat.one_pos : flatJob.validate = .ok ())
      fallingJob_edges (job_hasRoom : flatJob.HasRoom _)
  have hcdf : Monotone (NormalCdf.cdf (R := ℝ)) :=
    ProbabilityTheory.monotone_cdf (ProbabilityTheory.gaussianReal 0 1)
  obtain ⟨hkeys, hcells⟩ := Job.runWith_rarer hcomplete hrun hcdf (p := 1 / 20) (q := 1 / 10)
    (by norm_num [fallingJob, flatJob, job, cfg]) (List.nodup_singleton _) (List.nodup_singleton _)
    List.mem_cons_self (List.mem_cons_of_mem _ List.mem_cons_self) (by norm_num) 0 0 "PGA" ["Crust"]
  obtain ⟨m, hm⟩ : ∃ m, run.results.get? ⟨0, 0, ⟨1 / 20⟩, "PGA", ["Crust"]⟩ = some m := by
    refine ((Job.ran_of_runWith hcomplete hrun).exists_matrix_iff _).2 ⟨_, List.mem_cons_self, _,
      List.mem_cons_self, _, List.mem_cons_self, 1 / 20, List.mem_cons_self, "PGA",
      List.mem_cons_self, rfl, ⟨fallingCurve, ?_⟩, ?_⟩
    · change (SortedMap.empty.insert _ fallingCurve).get? _ = some fallingCurve
      rw [SortedMap.get?_insert, if_pos rfl]
    · simp [Job.nearbyOf, fallingJob, flatJob, branch, job, cfg, nearby_source]
  obtain ⟨n, hn⟩ := hkeys.1 ⟨m, hm⟩
  exact ⟨run, m, n, hrun, hm, hn, hcells m n hm hn⟩

end Sample

end SeismicHazard

end
