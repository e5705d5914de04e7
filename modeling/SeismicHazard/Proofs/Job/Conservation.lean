import SeismicHazard.Proofs.GroundMotion.Bands
import SeismicHazard.Proofs.Job.Reference
import SeismicHazard.Proofs.Matrix.Total

/-!
# Conservation of hazard

Dividing the truncated distribution into bands and the ruptures into cells, tasks and partial
results neither loses nor repeats any probability: the product over a whole matrix is the
probability of no exceedance by any rupture near the site, which a Poisson process gives directly.
-/

noncomputable section

namespace SeismicHazard

namespace Collection

/-- A matrix whose cells are the products of what is located in them has the product of all of it
in total. -/
theorem total_of_cellProduct {m : Matrix ℝ} {located : List (Cell × List ℝ)}
    (hfits : ∀ x ∈ located, m.shape.holds x.1 = true ∧ x.2.length = m.shape.eps)
    (hcells : ∀ c eps, m.shape.holds c = true → eps < m.shape.eps →
      m.pne c eps = cellProduct located c eps) :
    m.total = (located.map fun x => x.2.prod).prod := by
  -- the matrix is the one that is got by taking in what is located, piece by piece
  have hbuilt : ∃ built : Matrix ℝ, built.shape = m.shape ∧ built.level = m.level ∧
      (∀ c eps, m.shape.holds c = true → eps < m.shape.eps →
        built.pne c eps = cellProduct located c eps) ∧
      built.total = (located.map fun x => x.2.prod).prod := by
    clear hcells
    induction located with
    | nil => exact ⟨Matrix.empty m.shape m.level, rfl, rfl, by simp [cellProduct], by simp⟩
    | cons x rest ih =>
        obtain ⟨built, hshape, hlevel, hpne, htotal⟩ :=
          ih fun y hy => hfits y (List.mem_cons_of_mem _ hy)
        obtain ⟨hplace, hlength⟩ := hfits x List.mem_cons_self
        rw [← hshape] at hplace hlength
        refine ⟨built.multiplied x.1 x.2, hshape, hlevel, fun c eps hc heps => ?_, ?_⟩
        · rw [Matrix.pne_multiplied hplace hlength.symm (hshape ▸ hc) (hshape ▸ heps),
            hpne c eps hc heps, cellProduct_cons, mul_comm]
          simp only [eq_comm (a := c)]
        · rw [Matrix.total_multiplied hplace hlength.symm, htotal, List.map_cons, List.prod_cons,
            mul_comm]
  obtain ⟨built, hshape, hlevel, hpne, htotal⟩ := hbuilt
  rw [← htotal, Matrix.ext_pne hshape.symm hlevel.symm fun c eps hc heps => ?_]
  rw [hcells c eps hc heps, hpne c eps hc heps]

variable [NormalCdf ℝ]

/-- How often a rupture of a source is expected to exceed a level within its time span: its rate,
times the span, times the probability that its truncated distribution exceeds the level. -/
def ExpectedExceedances (cfg : Config ℝ) (site : Site ℝ) (realization : Realization ℝ)
    (imt : String) (level : ℝ) (source : Source ℝ) (rupture : Rupture ℝ) (expected : ℝ) : Prop :=
  ∃ model prediction rate span, realization.model source.region = .ok model ∧
    model.predict rupture.mag (rupture.distanceTo site.location) imt = .ok prediction ∧
    rupture.occurrence = .poissonian rate span ∧
    expected = rate * span * Bands.truncatedExceedance cfg.truncationLevel
      ((Real.log level - prediction.mean) / prediction.stddev)

variable {ctx : SiteContext ℝ} {site : Site ℝ} {realization : Realization ℝ} {imt : String}
  {level : ℝ} {source : Source ℝ} {rupture : Rupture ℝ} {cell : Cell} {pnes : List ℝ}

/-- The bands of a rupture together do what the rupture does without bands. -/
theorem Contributes.exists_expected (hcdf : StrictMono (NormalCdf.cdf (R := ℝ)))
    (hcfg : ctx.cfg.Accepted)
    (h : Contributes ctx site realization imt level source rupture cell pnes) :
    ∃ expected,
      ExpectedExceedances ctx.cfg site realization imt level source rupture expected ∧
      pnes.prod = Real.exp (-expected) := by
  obtain ⟨model, prediction, bands, rate, span, hmodel, hprediction, hbands, hoccurrence, rfl⟩ :=
    h.bands
  refine ⟨_, ⟨model, prediction, rate, span, hmodel, hprediction, hoccurrence, rfl⟩, ?_⟩
  obtain ⟨_, _, _, rfl⟩ := Bands.exceedances_eq_ok.1 hbands
  have hsum := Bands.sum_probability hcdf hcfg.truncationLevel hcfg.epsilonBins
    (Bands.threshold prediction level)
  generalize (List.range ctx.cfg.epsilonBins).map _ = bands at hsum
  calc
    (bands.map fun band => Real.exp (-rate * span * band)).prod
        = Real.exp (bands.map fun band => -rate * span * band).sum := by
      rw [Real.exp_list_sum, List.map_map]
      rfl
    _ = Real.exp (-rate * span * bands.sum) := by rw [List.sum_map_mul_left, List.map_id']
    _ = _ := by
      rw [hsum, neg_mul, neg_mul]
      rfl

/-- Rupture by rupture the exponents add up. -/
theorem exists_expected_all (hcdf : StrictMono (NormalCdf.cdf (R := ℝ))) (hcfg : ctx.cfg.Accepted)
    {near : List (Source ℝ × Rupture ℝ)} {located : List (Cell × List ℝ)}
    (hlocated : List.Forall₂ (fun near x =>
      Contributes ctx site realization imt level near.1 near.2 x.1 x.2) near located) :
    ∃ expected : List ℝ,
      List.Forall₂ (fun near x =>
        ExpectedExceedances ctx.cfg site realization imt level near.1 near.2 x) near expected ∧
      (located.map fun x => x.2.prod).prod = Real.exp (-expected.sum) := by
  induction hlocated with
  | nil => exact ⟨[], .nil, by simp⟩
  | cons hhead _ ih =>
      obtain ⟨expected, hexpected, hprod⟩ := ih
      obtain ⟨first, hfirst, hpnes⟩ := hhead.exists_expected hcdf hcfg
      refine ⟨first :: expected, .cons hfirst hexpected, ?_⟩
      rw [List.map_cons, List.prod_cons, hprod, hpnes, List.sum_cons, neg_add, Real.exp_add]

/-- The shape that has the edges of a context holds every cell of it. -/
theorem Contributes.holds (h : Contributes ctx site realization imt level source rupture cell pnes)
    {shape : Shape} (hshape : ctx.edges.shape ctx.regions.size = .ok shape) :
    shape.holds cell = true :=
  Arrangement.holds_cell hshape h.bins

end Collection

namespace Job

open Collection

variable [NormalCdf ℝ] {job : Job ℝ} {run : Run ℝ}

/-- The product of the non-exceedances over all cells of a matrix is `exp (-S)`, where `S` sums over
the ruptures near the site how often each is expected to exceed the level of the matrix. -/
theorem runWith_conserves {schedule : List (Task ℝ) → Schedule (Task ℝ)}
    (hcomplete : Schedule.Complete schedule) (hrun : job.runWith schedule = .ok run)
    (hcdf : StrictMono (NormalCdf.cdf (R := ℝ)))
    (hpoes : job.cfg.targets.Nodup) (himts : job.cfg.imts.Nodup)
    (hsites : (job.sites.map Site.id).Nodup) {key : ResultKey ℝ} {m : Matrix ℝ}
    (hm : run.results.get? key = some m) :
    ∃ branch ∈ job.branches, ∃ site ∈ job.sites, ∃ realization ∈ branch.realizations,
      ∃ poe ∈ job.cfg.targets, ∃ imt ∈ job.cfg.imts, ∃ curve,
        key = ⟨site.id, realization.id, ⟨poe⟩, imt, branch.regions.names⟩ ∧
        job.curves.get? ⟨site.id, realization.id, imt⟩ = some curve ∧
        curve.levelFor poe job.cfg.extrapolation = .ok m.level ∧
        ∃ expected : List ℝ,
          List.Forall₂ (fun near x => ExpectedExceedances job.cfg site realization imt m.level
              near.1 near.2 x)
            (nearbyRuptures branch.sources site job.cfg.maximumDistance) expected ∧
          m.nonExceedance.toList.prod = Real.exp (-expected.sum) := by
  have h := ran_of_runWith hcomplete hrun
  obtain ⟨branch, hbranch, site, hsite, realization, hrealization, poe, hpoe, imt, himt, rfl, _⟩ :=
    (h.exists_matrix_iff key).1 ⟨m, hm⟩
  obtain ⟨edges, curve, hedges, hshape, hcurve, hlevel⟩ := h.matrix_frame hbranch hrealization hm
  obtain ⟨located, hlocated, hcells⟩ :=
    h.pne_eq_cellProduct hpoes himts hsites hbranch hsite hrealization hedges hm
  have htotal : m.total = (located.map fun x => x.2.prod).prod := by
    apply total_of_cellProduct _ hcells
    intro x hx
    obtain ⟨near, _, hcontributes⟩ := exists_of_forall₂ hlocated hx
    refine ⟨hcontributes.holds hshape, ?_⟩
    rw [length_of_contributes hcontributes, h.epsilonBins_eq hedges hshape]
    rfl
  obtain ⟨expected, hexpected, hprod⟩ :=
    exists_expected_all hcdf (accepted_of_validate h.valid) hlocated
  exact ⟨branch, hbranch, site, hsite, realization, hrealization, poe, hpoe, imt, himt, curve, rfl,
    hcurve, hlevel, expected, hexpected, htotal.trans hprod⟩

end Job

namespace Sample

open Collection

theorem eq_of_expected {targets : List ℝ} {n : Nat} {site : Site ℝ} {ρ : Realization ℝ}
    {imt id : String} {rate x : ℝ} (hmodel : ρ.model "Crust" = .ok model)
    (hx : ExpectedExceedances (cfg targets n) site ρ imt 1 (source id rate) (rupture rate) x) :
    x = rate * 50 * Bands.truncatedExceedance 3 0 := by
  obtain ⟨model', prediction, rate', span, hmodel', hprediction, hoccurrence, rfl⟩ := hx
  rw [show (source id rate).region = "Crust" from rfl, hmodel, Except.ok.injEq] at hmodel'
  subst hmodel'
  obtain ⟨rfl, rfl⟩ := Occurrence.poissonian.inj hoccurrence
  rw [← Except.ok.inj hprediction, Real.log_one, sub_zero, zero_div]
  rfl

/-- Rates of 1 and 2 over 50 years make 150 ruptures, each of which exceeds the level 1 with the
probability of an epsilon above 0. -/
theorem two_sources_total :
    ∃ run m, (job [1 / 10] 1 [source "A" 1, source "B" 2]).runWith
        Executor.sequential.schedule = .ok run ∧
      run.results.get? ⟨0, 0, ⟨1 / 10⟩, "PGA", ["Crust"]⟩ = some m ∧
      m.nonExceedance.toList.prod = Real.exp (-(150 * Bands.truncatedExceedance 3 0)) := by
  have hcomplete := Schedule.complete_executor (τ := Task ℝ) .sequential
  obtain ⟨run, hrun⟩ : ∃ run, (job [1 / 10] 1 [source "A" 1, source "B" 2]).runWith
      Executor.sequential.schedule = .ok run :=
    exists_run (by simp) (by norm_num) Nat.one_pos zero_le_one zero_le_two hcomplete
  have hnear : ∀ site : Site ℝ, nearbyRuptures [source "A" 1, source "B" 2] site 200 =
      [(source "A" 1, rupture 1), (source "B" 2, rupture 2)] := by
    simp [nearbyRuptures, nearby_source]
  have hcurve : (job [1 / 10] 1 [source "A" 1, source "B" 2]).curves.get? ⟨0, 0, "PGA"⟩ =
      some curve := by
    change (SortedMap.empty.insert _ curve).get? _ = some curve
    rw [SortedMap.get?_insert, if_pos rfl]
  obtain ⟨m, hm⟩ := exists_matrix (Job.ran_of_runWith hcomplete hrun) List.mem_cons_self
  obtain ⟨_, hbranch, site, hsite, ρ, hρ, poe, _, imt, _, c, hkey, hc, hlevel, expected, hexpected,
    hprod⟩ := Job.runWith_conserves hcomplete hrun normalCdf_strictMono (List.nodup_singleton _)
      (List.nodup_singleton _) (List.nodup_singleton _) hm
  obtain rfl := List.mem_singleton.1 hbranch
  obtain rfl := List.mem_singleton.1 hsite
  obtain rfl := List.mem_singleton.1 hρ
  obtain ⟨-, -, -, rfl, -⟩ := ResultKey.mk.inj hkey
  obtain rfl : curve = c := Option.some.inj (hcurve.symm.trans hc)
  have hone : m.level = 1 := Except.ok.inj (hlevel.symm.trans (curve_levelFor _))
  rw [hone, show (job [1 / 10] 1 [source "A" 1, source "B" 2]).cfg.maximumDistance = 200 from rfl,
    show (branch [source "A" 1, source "B" 2]).sources = [source "A" 1, source "B" 2] from rfl,
    hnear] at hexpected
  obtain ⟨x, _, hx, hrest, rfl⟩ := List.forall₂_cons_left_iff.1 hexpected
  obtain ⟨y, _, hy, hnil, rfl⟩ := List.forall₂_cons_left_iff.1 hrest
  obtain rfl := List.forall₂_nil_left_iff.1 hnil
  refine ⟨run, m, hrun, hm, ?_⟩
  rw [hprod, eq_of_expected rfl hx, eq_of_expected rfl hy, List.sum_cons, List.sum_singleton]
  ring_nf

end Sample

end SeismicHazard

end
