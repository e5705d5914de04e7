import SeismicHazard.Proofs.Job.Existence
import SeismicHazard.Proofs.Job.Results

/-!
# What a run computes

When neither probabilities, measures nor sites are repeated, every rupture near a site counts
exactly once in every matrix of its branch there. The non-exceedance of a cell then is the product
over the ruptures that fall into it.
-/

noncomputable section

namespace SeismicHazard

namespace Job

open Share Collection

variable {job : Job ℝ} {branch : Branch ℝ} {site : Site ℝ} {realization : Realization ℝ}

theorem nearbyRuptures_eq_nil :
    nearbyRuptures branch.sources site job.cfg.maximumDistance = [] ↔
      job.nearbyOf branch site = [] := by
  simp [nearbyRuptures, nearbyOf]

theorem filter_site (hsites : (job.sites.map Site.id).Nodup) (hsite : site ∈ job.sites) :
    (job.sites.filter fun other => decide (other.id = site.id)) = [site] := by
  generalize job.sites = sites at hsites hsite
  induction sites with
  | nil => simp at hsite
  | cons head rest ih =>
      obtain ⟨hhead, hrest⟩ := List.nodup_cons.1 hsites
      rcases List.mem_cons.1 hsite with rfl | hmem
      · have hnone : (rest.filter fun other => decide (other.id = site.id)) = [] := by
          rw [List.filter_eq_nil_iff]
          intro other hother hid
          exact hhead ((of_decide_eq_true hid) ▸ List.mem_map_of_mem hother)
        rw [List.filter_cons_of_pos (by simp), hnone]
      · have hne : head.id ≠ site.id := fun h => hhead (h ▸ List.mem_map_of_mem hmem)
        rw [List.filter_cons_of_neg (by simpa using hne), ih hrest hmem]

variable [NormalCdf ℝ] {run : Run ℝ}

namespace Ran

/-- What every rupture near a site contributes to a matrix of its branch. -/
theorem exists_located (h : Ran job run) (hbranch : branch ∈ job.branches)
    (hsite : site ∈ job.sites) (hrealization : realization ∈ branch.realizations) {poe : ℝ}
    (hpoe : poe ∈ job.cfg.targets) {imt : String} (himt : imt ∈ job.cfg.imts)
    {edges : BinEdges ℝ} (hedges : run.edges.get? ⟨branch.id, site.id⟩ = some edges)
    {curve : HazardCurve ℝ} (hcurve : job.curves.get? ⟨site.id, realization.id, imt⟩ = some curve)
    {level : ℝ} (hlevel : curve.levelFor poe job.cfg.extrapolation = .ok level) :
    ∃ located : List (Cell × List ℝ),
      List.Forall₂ (fun near x => Contributes (job.context branch edges) site realization imt level
          near.1 near.2 x.1 x.2)
        (nearbyRuptures branch.sources site job.cfg.maximumDistance) located ∧
      ∀ c eps, product (branch.sources.flatMap
        (once site (job.context branch edges) ⟨realization.id, ⟨poe⟩, imt⟩)) c eps =
          cellProduct located c eps := by
  have hshares : ∀ source ∈ branch.sources,
      Succeeds (Collection.shares site (job.context branch edges) source) := by
    intro source hsource
    have hsucceeds := h.countable branch hbranch source hsource site hsite
    rwa [shares_of_some hedges] at hsucceeds
  cases hsources : branch.sources with
  | nil => exact ⟨[], .nil, fun c eps => rfl⟩
  | cons source rest =>
      rw [← hsources]
      -- the targets of the site are known, since the first source has been asked for them
      obtain ⟨_, hss⟩ := hshares source (hsources ▸ List.mem_cons_self)
      obtain ⟨targets, htargets, _⟩ := bind_eq_ok.1 hss
      obtain ⟨⟨_, tlevel⟩, htarget, rfl, curve', hcurve', hlevel'⟩ :=
        SiteContext.exists_target htargets hpoe himt hrealization ⟨curve, hcurve⟩
      have hsame : curve = curve' := Option.some.inj (hcurve.symm.trans hcurve')
      subst hsame
      have hsame : tlevel = level := Except.ok.inj (hlevel'.symm.trans hlevel)
      subst hsame
      exact Collection.exists_located_all hshares htargets htarget hrealization rfl
        (h.numbered hbranch) (accepted_of_validate h.valid).epsilonBins

/-- A cell of a matrix is the product over the sites with the number of its key, taken as often as
the key is asked for. -/
theorem pne_eq (h : Ran job run) (hbranch : branch ∈ job.branches)
    (hrealization : realization ∈ branch.realizations) {number : Nat} {poe : ℝ} {imt : String}
    {edges : BinEdges ℝ} (hedges : run.edges.get? ⟨branch.id, number⟩ = some edges)
    {curve : HazardCurve ℝ} (hcurve : job.curves.get? ⟨number, realization.id, imt⟩ = some curve)
    {m : Matrix ℝ}
    (hm : run.results.get? ⟨number, realization.id, ⟨poe⟩, imt, branch.regions.names⟩ = some m)
    {c : Cell} {eps : Nat} (hc : m.shape.holds c = true) (heps : eps < m.shape.eps) :
    m.pne c eps =
      (((job.sites.filter fun site => decide (site.id = number)).map fun site =>
        product (branch.sources.flatMap (once site (job.context branch edges)
          ⟨realization.id, ⟨poe⟩, imt⟩)) c eps).prod) ^
        (job.cfg.targets.count poe * job.cfg.imts.count imt) := by
  -- the realization stands in its branch once
  have hcount : branch.realizations.countP (fun ρ => decide (ρ.id = realization.id)) = 1 := by
    have hnodup := (List.nodup_flatMap.1 (nodup_of_validate h.valid)).1 branch hbranch
    have hmap := List.count_eq_one_of_mem hnodup (List.mem_map_of_mem hrealization)
    rw [List.count, List.countP_map] at hmap
    rw [← hmap]
    rfl
  have hmultiplicity : (job.context branch edges).multiplicity ⟨realization.id, ⟨poe⟩, imt⟩ =
      job.cfg.targets.count poe * (job.cfg.imts.count imt * 1) := by
    rw [← hcount]
    rfl
  rw [(h.counts.matrix hm).pne_eq hc heps,
    h.product_under_allShares hbranch hrealization hedges ⟨realization.id, ⟨poe⟩, imt⟩ rfl
      ⟨curve, hcurve⟩, hmultiplicity, Nat.mul_one]

/-- Every epsilon bin of a matrix has its band. -/
theorem epsilonBins_eq (h : Ran job run) {number : Nat} {edges : BinEdges ℝ}
    (hedges : run.edges.get? ⟨branch.id, number⟩ = some edges) {shape : Shape} {regions : Nat}
    (hshape : edges.shape regions = .ok shape) : shape.eps = job.cfg.epsilonBins := by
  obtain ⟨b, _, s, _, _, hbuilt⟩ := edgesOf?_of_get? h.edges hedges
  obtain ⟨_, _, _, _, hbuilt⟩ := built_of_edgesOf? hbuilt
  rw [(BinEdges.shape_eq_ok hshape).2.2.2.2.2, BinEdges.length_epsilonEdges hbuilt.eps]
  simp

/-- Where nothing is asked for twice, a cell of a matrix is the product over the ruptures near the
site that fall into it. -/
theorem pne_eq_cellProduct (h : Ran job run) (hpoes : job.cfg.targets.Nodup)
    (himts : job.cfg.imts.Nodup) (hsites : (job.sites.map Site.id).Nodup)
    (hbranch : branch ∈ job.branches) (hsite : site ∈ job.sites)
    (hrealization : realization ∈ branch.realizations) {poe : ℝ} {imt : String}
    {edges : BinEdges ℝ} (hedges : run.edges.get? ⟨branch.id, site.id⟩ = some edges)
    {m : Matrix ℝ}
    (hm : run.results.get? ⟨site.id, realization.id, ⟨poe⟩, imt, branch.regions.names⟩ = some m) :
    ∃ located : List (Cell × List ℝ),
      List.Forall₂ (fun near x => Contributes (job.context branch edges) site realization imt
          m.level near.1 near.2 x.1 x.2)
        (nearbyRuptures branch.sources site job.cfg.maximumDistance) located ∧
      ∀ c eps, m.shape.holds c = true → eps < m.shape.eps →
        m.pne c eps = cellProduct located c eps := by
  obtain ⟨hpoe, himt⟩ := h.mem_of_matrix hm
  obtain ⟨_, curve, _, _, hcurve, hlevel⟩ := h.matrix_frame hbranch hrealization hm
  obtain ⟨located, hlocated, hproduct⟩ :=
    h.exists_located hbranch hsite hrealization hpoe himt hedges hcurve hlevel
  refine ⟨located, hlocated, fun c eps hc heps => ?_⟩
  rw [h.pne_eq hbranch hrealization hedges hcurve hm hc heps, filter_site hsites hsite,
    List.count_eq_one_of_mem hpoes hpoe, List.count_eq_one_of_mem himts himt]
  simp [hproduct]

end Ran

theorem length_of_contributes {ctx : SiteContext ℝ} {imt : String} {level : ℝ} {source : Source ℝ}
    {rupture : Rupture ℝ} {cell : Cell} {pnes : List ℝ}
    (hcontributes : Contributes ctx site realization imt level source rupture cell pnes) :
    pnes.length = ctx.cfg.epsilonBins := by
  obtain ⟨_, _, bands, _, _, _, _, hbands, _, rfl⟩ := hcontributes.bands
  rw [List.length_map, Bands.length_exceedances hbands]

/-- A run has a matrix for exactly the sites, realizations, probabilities and measures that have a
curve and a rupture near the site. It has the shape of the edges of its branch and site, the level
of its curve, and the non-exceedance of a cell is the product over the ruptures near the site that
fall into the cell, each of which counts once. -/
theorem runWith_reference {schedule : List (Task ℝ) → Schedule (Task ℝ)}
    (hcomplete : Schedule.Complete schedule) (hrun : job.runWith schedule = .ok run)
    (hpoes : job.cfg.targets.Nodup) (himts : job.cfg.imts.Nodup)
    (hsites : (job.sites.map Site.id).Nodup) :
    (∀ key, (∃ m, run.results.get? key = some m) ↔
      ∃ branch ∈ job.branches, ∃ site ∈ job.sites, ∃ realization ∈ branch.realizations,
        ∃ poe ∈ job.cfg.targets, ∃ imt ∈ job.cfg.imts,
          key = ⟨site.id, realization.id, ⟨poe⟩, imt, branch.regions.names⟩ ∧
          (∃ curve, job.curves.get? ⟨site.id, realization.id, imt⟩ = some curve) ∧
          nearbyRuptures branch.sources site job.cfg.maximumDistance ≠ []) ∧
    ∀ branch ∈ job.branches, ∀ site ∈ job.sites, ∀ realization ∈ branch.realizations,
      ∀ poe imt m,
        run.results.get? ⟨site.id, realization.id, ⟨poe⟩, imt, branch.regions.names⟩ = some m →
      ∃ edges curve located, run.edges.get? ⟨branch.id, site.id⟩ = some edges ∧
        edges.shape branch.regions.size = .ok m.shape ∧
        job.curves.get? ⟨site.id, realization.id, imt⟩ = some curve ∧
        curve.levelFor poe job.cfg.extrapolation = .ok m.level ∧
        List.Forall₂ (fun near x => Contributes (job.context branch edges) site realization imt
            m.level near.1 near.2 x.1 x.2)
          (nearbyRuptures branch.sources site job.cfg.maximumDistance) located ∧
        (∀ x ∈ located, x.2.length = m.shape.eps) ∧
        ∀ c eps, m.shape.holds c = true → eps < m.shape.eps →
          m.nonExceedance[m.shape.index c eps]? = some (cellProduct located c eps) := by
  have h := ran_of_runWith hcomplete hrun
  refine ⟨fun key => ?_, ?_⟩
  · simp only [ne_eq, nearbyRuptures_eq_nil]
    exact h.exists_matrix_iff key
  · intro branch hbranch site hsite realization hrealization poe imt m hm
    obtain ⟨hp, hi⟩ := h.mem_of_matrix hm
    obtain ⟨edges, curve, hedges, hshape, hcurve, hlevel⟩ := h.matrix_frame hbranch hrealization hm
    obtain ⟨located, hlocated, hproduct⟩ :=
      h.exists_located hbranch hsite hrealization hp hi hedges hcurve hlevel
    refine ⟨edges, curve, located, hedges, hshape, hcurve, hlevel, hlocated, ?_, ?_⟩
    · intro x hx
      obtain ⟨near, _, hcontributes⟩ := exists_of_forall₂ hlocated hx
      rw [length_of_contributes hcontributes, h.epsilonBins_eq hedges hshape]
      rfl
    · intro c eps hc heps
      rw [Matrix.getElem?_index hc heps, h.pne_eq hbranch hrealization hedges hcurve hm hc heps,
        filter_site hsites hsite, List.count_eq_one_of_mem hpoes hp,
        List.count_eq_one_of_mem himts hi, Nat.mul_one, pow_one, List.map_singleton,
        List.prod_singleton, hproduct]

end Job

namespace Sample

open Collection

/-- Of two sources at the same place, the rupture of each counts in the one matrix of the job. -/
theorem two_sources_matrix :
    ∃ run m located, (job [1 / 10] 1 [source "A" 1, source "B" 2]).runWith
        Executor.sequential.schedule = .ok run ∧
      run.results.get? ⟨0, 0, ⟨1 / 10⟩, "PGA", ["Crust"]⟩ = some m ∧ located.length = 2 ∧
      ∀ c eps, m.shape.holds c = true → eps < m.shape.eps →
        m.nonExceedance[m.shape.index c eps]? = some (cellProduct located c eps) := by
  have hcomplete := Schedule.complete_executor (τ := Task ℝ) .sequential
  obtain ⟨run, hrun⟩ : ∃ run, (job [1 / 10] 1 [source "A" 1, source "B" 2]).runWith
      Executor.sequential.schedule = .ok run :=
    exists_run (by simp) (by norm_num) Nat.one_pos zero_le_one zero_le_two hcomplete
  obtain ⟨_, hcells⟩ := Job.runWith_reference hcomplete hrun (List.nodup_singleton _)
    (List.nodup_singleton _) (List.nodup_singleton _)
  have hnear : nearbyRuptures [source "A" 1, source "B" 2] ⟨0, ⟨0, 0⟩⟩ 200 =
      [(source "A" 1, rupture 1), (source "B" 2, rupture 2)] := by
    simp [nearbyRuptures, nearby_source]
  obtain ⟨m, hm⟩ := exists_matrix (Job.ran_of_runWith hcomplete hrun) List.mem_cons_self
  obtain ⟨_, _, located, _, _, _, _, hlocated, _, hcell⟩ := hcells _ List.mem_cons_self _
    List.mem_cons_self _ List.mem_cons_self (1 / 10) "PGA" m hm
  refine ⟨run, m, located, hrun, hm, ?_, hcell⟩
  rw [← hlocated.length_eq]
  exact congrArg List.length hnear

end Sample

end SeismicHazard

end
