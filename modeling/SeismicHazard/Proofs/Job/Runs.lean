import SeismicHazard.Proofs.Config
import SeismicHazard.Proofs.Job.Edges
import SeismicHazard.Proofs.Job.Tasks

/-!
# Runs

A run exists when the job is accepted, has edges, and everything can be counted, in whatever way its
tasks are scheduled. It then has a matrix for every site, realization, probability and measure that
has a curve and a rupture near the site. This is so in arithmetic that rounds, too.
-/

noncomputable section

namespace SeismicHazard

theorem accepted_of_validate {job : Job ℝ} (hvalid : job.validate = .ok ()) : job.cfg.Accepted := by
  obtain ⟨_, hcfg, _⟩ := bind_eq_ok.1 hvalid
  exact Config.validate_eq_ok.1 hcfg

variable {R : Type} [Scalar R]

namespace Job

open Share

theorem hasSite_of_get? {curves : CurveTable R} {key : CurveKey} {curve : HazardCurve R}
    (hcurve : curves.get? key = some curve) : curves.hasSite key.site = true := by
  rw [CurveTable.hasSite, List.any_eq_true]
  exact ⟨key, List.mem_map_of_mem ((SortedMap.get?_eq_some_iff _).1 hcurve), by simp⟩

variable {job : Job R}

theorem sourcesPerTask_pos (hvalid : job.validate = .ok ()) : 0 < job.cfg.sourcesPerTask := by
  obtain ⟨_, hcfg, _⟩ := bind_eq_ok.1 hvalid
  exact Config.sourcesPerTask_pos hcfg

variable [NormalCdf R] {run : Run R}

/-- What is known of a job and its run when the run succeeds. -/
structure Ran (job : Job R) (run : Run R) : Prop where
  valid : job.validate = .ok ()
  edges : job.edges = .ok run.edges
  countable : job.AllCountable run.edges
  counts : run.results.Counts (job.allShares run.edges)

namespace Ran

variable {branch : Branch R} {site : Site R} {realization : Realization R}

/-- Within a branch realizations are told apart by their numbers. -/
theorem numbered (h : Ran job run) (hbranch : branch ∈ job.branches) :
    ∀ a ∈ branch.realizations, ∀ b ∈ branch.realizations, a.id = b.id → a = b :=
  fun _ ha _ hb hid => (eq_of_realization h.valid hbranch hbranch ha hb hid).2

/-- Where a curve is known and a rupture is near the site, the branch has edges there. -/
theorem exists_edges (h : Ran job run) (hbranch : branch ∈ job.branches) (hsite : site ∈ job.sites)
    {realization : Nat} {imt : String}
    (hknown : ∃ curve, job.curves.get? ⟨site.id, realization, imt⟩ = some curve)
    (hnear : job.nearbyOf branch site ≠ []) :
    ∃ edges, run.edges.get? ⟨branch.id, site.id⟩ = some edges := by
  obtain ⟨curve, hcurve⟩ := hknown
  obtain ⟨edges?, hedges, hstored⟩ := exists_get?_of_edgesOf? h.edges hbranch hsite
  obtain ⟨edges, hsome⟩ := exists_edgesOf? hedges (hasSite_of_get? hcurve) hnear
  exact hstored edges hsome

variable [KeyRules R]

/-- A key of a site, a realization and a measure has its branch and its curve, and a rupture near
the site. -/
theorem of_mem_allShares {s : Share R} (hs : s ∈ job.allShares run.edges) :
    ∃ branch ∈ job.branches, ∃ site ∈ job.sites, ∃ realization ∈ branch.realizations,
      ∃ poe ∈ job.cfg.targets, ∃ imt ∈ job.cfg.imts,
        s.key = ⟨site.id, realization.id, ⟨poe⟩, imt, branch.regions.names⟩ ∧
        (∃ curve, job.curves.get? ⟨site.id, realization.id, imt⟩ = some curve) ∧
        job.nearbyOf branch site ≠ [] := by
  obtain ⟨branch, hbranch, source, hsource, site, hsite, hs⟩ := mem_allShares.1 hs
  obtain ⟨_, edges, hedges, _⟩ := framed_of_mem hs
  rw [shares_of_some hedges] at hs
  obtain ⟨targets, placed, htargets, hplaced, t, ht, p, hp, hs⟩ := Collection.mem_shares hs
  obtain ⟨poe, hpoe, imt, himt, realization, hrealization, hasks⟩ :=
    (SiteContext.mem_targets htargets).1 ht
  obtain ⟨rupture, hrupture, _⟩ :=
    exists_of_forall₂ (Collection.placedOf_eq_ok_iff_forall₂.1 hplaced).2 hp
  refine ⟨branch, hbranch, site, hsite, realization, hrealization, poe, hpoe, imt, himt, ?_,
    hasks.level.imp fun _ h => h.1,
    List.ne_nil_of_mem (List.mem_flatMap.2 ⟨source, hsource, hrupture⟩)⟩
  rw [(Collection.mem_sharesFor hs).2.1, hasks.key]
  rfl

/-- The matrix of a key has the shape of the edges that are stored for the branch and the site, and
the level of the curve. -/
theorem matrix_frame (h : Ran job run) (hbranch : branch ∈ job.branches)
    (hrealization : realization ∈ branch.realizations) {number : Nat} {poe : R} {imt : String}
    {names : List String} {m : Matrix R}
    (hm : run.results.get? ⟨number, realization.id, ⟨poe⟩, imt, names⟩ = some m) :
    ∃ edges curve, run.edges.get? ⟨branch.id, number⟩ = some edges ∧
      edges.shape branch.regions.size = .ok m.shape ∧
      job.curves.get? ⟨number, realization.id, imt⟩ = some curve ∧
      curve.levelFor poe job.cfg.extrapolation = .ok m.level := by
  obtain ⟨s, hs, hkey⟩ := (h.counts.some_iff _).1 ⟨m, hm⟩
  obtain ⟨hshape, hlevel⟩ := (h.counts.matrix hm).frame s (mem_under.2 ⟨hs, hkey⟩)
  obtain ⟨b, hb, source, _, site, _, hs⟩ := mem_allShares.1 hs
  obtain ⟨_, edges, hedges, hframed⟩ := framed_of_mem hs
  obtain ⟨ρ, hρ, hid⟩ := hframed.realization
  obtain ⟨curve, hcurve, hcurvelevel⟩ := hframed.level
  have hsite := hframed.site_eq
  rw [hkey] at hid hsite hcurve hcurvelevel
  obtain ⟨rfl, _⟩ := eq_of_realization h.valid hbranch hb hrealization hρ hid
  subst hsite
  exact ⟨edges, curve, hedges, hshape ▸ hframed.shape, hcurve, hlevel ▸ hcurvelevel⟩

theorem exists_mem_allShares (h : Ran job run) (hbranch : branch ∈ job.branches)
    (hsite : site ∈ job.sites) (hrealization : realization ∈ branch.realizations) {poe : R}
    (hpoe : poe ∈ job.cfg.targets) {imt : String} (himt : imt ∈ job.cfg.imts)
    (hknown : ∃ curve, job.curves.get? ⟨site.id, realization.id, imt⟩ = some curve)
    (hnear : job.nearbyOf branch site ≠ []) :
    ∃ s ∈ job.allShares run.edges,
      s.key = ⟨site.id, realization.id, ⟨poe⟩, imt, branch.regions.names⟩ := by
  obtain ⟨edges, hedges⟩ := h.exists_edges hbranch hsite hknown hnear
  obtain ⟨rupture, hrupture⟩ := List.exists_mem_of_ne_nil _ hnear
  obtain ⟨source, hsource, hrupture⟩ := List.mem_flatMap.1 hrupture
  obtain ⟨ss, hss⟩ := h.countable branch hbranch source hsource site hsite
  have hshares := hss
  rw [shares_of_some hedges] at hshares
  obtain ⟨targets, htargets, _⟩ := bind_eq_ok.1 hshares
  obtain ⟨t, ht, hasks⟩ := SiteContext.exists_target htargets hpoe himt hrealization hknown
  obtain ⟨s, hs, hkey⟩ := Collection.exists_mem_shares hshares htargets ht hrupture
  refine ⟨s, mem_allShares.2 ⟨branch, hbranch, source, hsource, site, hsite, ?_⟩, ?_⟩
  · rw [hss, listed_ok]
    exact hs
  · rw [hkey, hasks.key]
    rfl

/-- The keys of a run. -/
theorem exists_matrix_iff (h : Ran job run) (key : ResultKey R) :
    (∃ m, run.results.get? key = some m) ↔
      ∃ branch ∈ job.branches, ∃ site ∈ job.sites, ∃ realization ∈ branch.realizations,
        ∃ poe ∈ job.cfg.targets, ∃ imt ∈ job.cfg.imts,
          key = ⟨site.id, realization.id, ⟨poe⟩, imt, branch.regions.names⟩ ∧
          (∃ curve, job.curves.get? ⟨site.id, realization.id, imt⟩ = some curve) ∧
          job.nearbyOf branch site ≠ [] := by
  rw [h.counts.some_iff]
  constructor
  · rintro ⟨s, hs, rfl⟩
    exact of_mem_allShares hs
  · rintro ⟨branch, hbranch, site, hsite, realization, hrealization, poe, hpoe, imt, himt, rfl,
      hknown, hnear⟩
    exact h.exists_mem_allShares hbranch hsite hrealization hpoe himt hknown hnear

theorem mem_of_matrix (h : Ran job run) {number realization : Nat} {poe : R} {imt : String}
    {names : List String} {m : Matrix R}
    (hm : run.results.get? ⟨number, realization, ⟨poe⟩, imt, names⟩ = some m) :
    poe ∈ job.cfg.targets ∧ imt ∈ job.cfg.imts := by
  obtain ⟨_, _, _, _, _, _, p, hp, i, hi, hkey, _⟩ := (h.exists_matrix_iff _).1 ⟨m, hm⟩
  simp only [ResultKey.mk.injEq, Poe.mk.injEq] at hkey
  obtain ⟨_, _, rfl, rfl, _⟩ := hkey
  exact ⟨hp, hi⟩

end Ran

variable [KeyRules R] [ProbabilityRules R] {schedule : List (Task R) → Schedule (Task R)}

theorem ran_of_runWith (hcomplete : Schedule.Complete schedule)
    (hrun : job.runWith schedule = .ok run) : Ran job run := by
  obtain ⟨_, hvalid, hrun⟩ := bind_eq_ok.1 hrun
  obtain ⟨edges, hedges, hrun⟩ := bind_eq_ok.1 hrun
  obtain ⟨results, hresults, hrun⟩ := bind_eq_ok.1 hrun
  obtain ⟨hall, hcounts⟩ :=
    counts_of_run_tasks hvalid (sourcesPerTask_pos hvalid) (hcomplete _) hresults
  rw [← pure_eq_ok.1 hrun]
  exact ⟨hvalid, hedges, hall, hcounts⟩

/-- A job that is accepted, has edges and can be counted has a run. -/
theorem exists_run (hcomplete : Schedule.Complete schedule) (hvalid : job.validate = .ok ())
    {edges : EdgeTable R} (hedges : job.edges = .ok edges) (hall : job.AllCountable edges) :
    ∃ run, job.runWith schedule = .ok run := by
  obtain ⟨results, hresults, _⟩ :=
    counts_run_tasks hvalid (sourcesPerTask_pos hvalid) (hcomplete _) hall
  exact ⟨⟨edges, results⟩, bind_eq_ok.2 ⟨(), hvalid, bind_eq_ok.2 ⟨edges, hedges,
    bind_eq_ok.2 ⟨results, hresults, rfl⟩⟩⟩⟩

theorem succeeds_runWith_iff (hcomplete : Schedule.Complete schedule) :
    Succeeds (job.runWith schedule) ↔
      job.validate = .ok () ∧ ∃ edges, job.edges = .ok edges ∧ job.AllCountable edges := by
  constructor
  · rintro ⟨run, hrun⟩
    have h := ran_of_runWith hcomplete hrun
    exact ⟨h.valid, run.edges, h.edges, h.countable⟩
  · rintro ⟨hvalid, edges, hedges, hall⟩
    exact exists_run hcomplete hvalid hedges hall

/-- A run exists exactly when the job is accepted, it has edges, and everything can be counted. It
has a matrix for exactly the sites, realizations, probabilities and measures that have a curve and a
rupture near the site, with the shape of the edges of its branch and site and the level of its
curve. -/
theorem runWith_frames (hcomplete : Schedule.Complete schedule) :
    (Succeeds (job.runWith schedule) ↔
      job.validate = .ok () ∧ ∃ edges, job.edges = .ok edges ∧ job.AllCountable edges) ∧
    ∀ run, job.runWith schedule = .ok run →
      (∀ key, (∃ m, run.results.get? key = some m) ↔
        ∃ branch ∈ job.branches, ∃ site ∈ job.sites, ∃ realization ∈ branch.realizations,
          ∃ poe ∈ job.cfg.targets, ∃ imt ∈ job.cfg.imts,
            key = ⟨site.id, realization.id, ⟨poe⟩, imt, branch.regions.names⟩ ∧
            (∃ curve, job.curves.get? ⟨site.id, realization.id, imt⟩ = some curve) ∧
            job.nearbyOf branch site ≠ []) ∧
      ∀ branch ∈ job.branches, ∀ realization ∈ branch.realizations, ∀ number poe imt names m,
        run.results.get? ⟨number, realization.id, ⟨poe⟩, imt, names⟩ = some m →
        ∃ edges curve, run.edges.get? ⟨branch.id, number⟩ = some edges ∧
          edges.shape branch.regions.size = .ok m.shape ∧
          job.curves.get? ⟨number, realization.id, imt⟩ = some curve ∧
          curve.levelFor poe job.cfg.extrapolation = .ok m.level := by
  refine ⟨succeeds_runWith_iff hcomplete, fun run hrun => ?_⟩
  have h := ran_of_runWith hcomplete hrun
  exact ⟨h.exists_matrix_iff, fun branch hbranch realization hrealization _ _ _ _ _ hm =>
    h.matrix_frame hbranch hrealization hm⟩

end Job

end SeismicHazard

end
