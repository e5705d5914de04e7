import SeismicHazard.Proofs.Collection.Countable
import SeismicHazard.Proofs.Job.Existence
import SeismicHazard.Proofs.Job.Reference

/-!
# Repetitions in a job

Whatever is repeated in a job, be it a probability, a measure or a site, its matrices are asked
for again, and every rupture near the site counts once more in each of them. Leaving repetitions
out keeps the edges, the keys, the shapes and the levels. It keeps a cell only when no rupture
that falls into it can exceed the level.
-/

noncomputable section

namespace SeismicHazard

open Share Collection

instance : DecidableEq (Site ℝ) := Classical.decEq _

/-- The same job with some repetitions left out. A site may be left out when it is there again, as
long as the sites that share its number keep the order in which they stand last. -/
structure Job.Thins (job job' : Job ℝ) : Prop where
  cfg : job'.cfg = { job.cfg with targets := job'.cfg.targets, measures := job'.cfg.measures }
  targets : job'.cfg.targets.Sublist job.cfg.targets
  mem_targets : ∀ poe ∈ job.cfg.targets, poe ∈ job'.cfg.targets
  measures : job'.cfg.measures.Sublist job.cfg.measures
  mem_measures : ∀ measure ∈ job.cfg.measures, measure ∈ job'.cfg.measures
  sites : job'.sites.Sublist job.sites
  sites_under : ∀ number, (job'.sites.filter fun site => decide (site.id = number)).dedup =
    (job.sites.filter fun site => decide (site.id = number)).dedup
  branches : job'.branches = job.branches
  curves : job'.curves = job.curves

namespace Job

/-- The job with every probability, measure and site left in it once, where it stands last. -/
def distinct (job : Job ℝ) : Job ℝ :=
  { job with
    cfg := { job.cfg with
      targets := job.cfg.targets.dedup
      measures := job.cfg.measures.dedup }
    sites := job.sites.dedup }

theorem filter_dedup {α : Type} [DecidableEq α] (p : α → Bool) (xs : List α) :
    xs.dedup.filter p = (xs.filter p).dedup := by
  induction xs with
  | nil => rfl
  | cons x rest ih =>
      by_cases hmem : x ∈ rest
      · rw [List.dedup_cons_of_mem hmem, ih]
        by_cases hx : p x = true
        · rw [List.filter_cons_of_pos hx, List.dedup_cons_of_mem (List.mem_filter.2 ⟨hmem, hx⟩)]
        · rw [List.filter_cons_of_neg hx]
      · rw [List.dedup_cons_of_notMem hmem]
        by_cases hx : p x = true
        · rw [List.filter_cons_of_pos hx, List.filter_cons_of_pos hx, ih,
            List.dedup_cons_of_notMem fun h => hmem (List.mem_filter.1 h).1]
        · rw [List.filter_cons_of_neg hx, List.filter_cons_of_neg hx, ih]

theorem thins_distinct (job : Job ℝ) : job.Thins job.distinct where
  cfg := rfl
  targets := List.dedup_sublist _
  mem_targets _ hpoe := List.mem_dedup.2 hpoe
  measures := List.dedup_sublist _
  mem_measures _ hmeasure := List.mem_dedup.2 hmeasure
  sites := List.dedup_sublist _
  sites_under number := by
    change (job.sites.dedup.filter _).dedup = _
    rw [filter_dedup, List.dedup_idem]
  branches := rfl
  curves := rfl

namespace Thins

variable {job job' : Job ℝ}

theorem mem_targets_iff (h : job.Thins job') {poe : ℝ} :
    poe ∈ job'.cfg.targets ↔ poe ∈ job.cfg.targets :=
  ⟨fun hpoe => h.targets.subset hpoe, h.mem_targets poe⟩

theorem mem_imts_iff (h : job.Thins job') {imt : String} :
    imt ∈ job'.cfg.imts ↔ imt ∈ job.cfg.imts := by
  simp only [Config.imts, List.mem_map]
  constructor
  · rintro ⟨measure, hmeasure, rfl⟩
    exact ⟨measure, h.measures.subset hmeasure, rfl⟩
  · rintro ⟨measure, hmeasure, rfl⟩
    exact ⟨measure, h.mem_measures measure hmeasure, rfl⟩

theorem mem_sites_iff (h : job.Thins job') {site : Site ℝ} :
    site ∈ job'.sites ↔ site ∈ job.sites := by
  refine ⟨fun hsite => h.sites.subset hsite, fun hsite => ?_⟩
  have hunder : site ∈ (job.sites.filter fun other => decide (other.id = site.id)).dedup :=
    List.mem_dedup.2 (List.mem_filter.2 ⟨hsite, by simp⟩)
  rw [← h.sites_under] at hunder
  exact (List.mem_filter.1 (List.mem_dedup.1 hunder)).1

/-! ## The first pass -/

/-- What is found last along a list is found last without its repetitions. -/
theorem getLast?_filterMap_dedup {α β : Type} [DecidableEq α] (f : α → Option β) (xs : List α) :
    (xs.dedup.filterMap f).getLast? = (xs.filterMap f).getLast? := by
  induction xs with
  | nil => rfl
  | cons x rest ih =>
      by_cases hmem : x ∈ rest
      · rw [List.dedup_cons_of_mem hmem, ih]
        cases hx : f x with
        | none => rw [List.filterMap_cons_none hx]
        | some y =>
            have hne : rest.filterMap f ≠ [] :=
              List.ne_nil_of_mem (List.mem_filterMap.2 ⟨x, hmem, hx⟩)
            obtain ⟨z, zs, hcons⟩ := List.exists_cons_of_ne_nil hne
            rw [List.filterMap_cons_some hx, hcons, List.getLast?_cons_cons]
      · rw [List.dedup_cons_of_notMem hmem]
        cases hx : f x with
        | none => rw [List.filterMap_cons_none hx, List.filterMap_cons_none hx, ih]
        | some y =>
            rw [List.filterMap_cons_some hx, List.filterMap_cons_some hx, List.getLast?_cons,
              List.getLast?_cons, ih]

/-- What is found under a key comes from the sites with the number of the key. -/
theorem foundUnder_eq {branch : Branch ℝ} {key : EdgeKey} {sites : List (Site ℝ)}
    {found : List (Nat × Option (BinEdges ℝ))}
    (hfound : sites.mapM (fun site => (site.id, ·) <$> job.edgesOf? branch site) = .ok found) :
    foundUnder branch key found =
      (sites.filter fun site => decide (site.id = key.site)).filterMap fun site =>
        if key.branch = branch.id then (job.edgesOf? branch site).toOption.join else none := by
  -- the induction is on the sites, each with what was found for it
  have hpairs := mapM_eq_ok.1 hfound
  clear hfound
  induction hpairs with
  | nil => rfl
  | @cons site entry sites found hhead _ ih =>
      obtain ⟨e?, he, rfl⟩ := map_eq_ok.1 hhead
      have hcons : foundUnder branch key ((site.id, e?) :: found) =
          (if key = ⟨branch.id, site.id⟩ then e? else none).toList ++
            foundUnder branch key found := by
        rw [foundUnder, List.filterMap_cons, ← foundUnder]
        cases (if key = ⟨branch.id, site.id⟩ then e? else none) <;> rfl
      obtain ⟨number, number'⟩ := key
      rw [hcons, ih, List.filter_cons]
      by_cases hsite : site.id = number'
      · simp only [hsite, decide_true, if_true, List.filterMap_cons, he, EdgeKey.mk.injEq, and_true]
        by_cases hbranch : number = branch.id
        · cases e? <;> simp [hbranch, Except.toOption]
        · simp [hbranch]
      · have hne : (⟨number, number'⟩ : EdgeKey) ≠ ⟨branch.id, site.id⟩ :=
          fun heq => hsite (EdgeKey.mk.inj heq).2.symm
        rw [if_neg hne, if_neg (by simpa using hsite)]
        rfl

theorem edgesOf?_eq (h : job.Thins job') (branch : Branch ℝ) (site : Site ℝ) :
    job'.edgesOf? branch site = job.edgesOf? branch site := by
  simp only [edgesOf?, edgesAt?, h.curves]
  rw [h.cfg]
  rfl

theorem addEdges_eq_ok (h : job.Thins job') {branch : Branch ℝ} {table next : EdgeTable ℝ}
    (hnext : job.addEdges table branch = .ok next) : job'.addEdges table branch = .ok next := by
  obtain ⟨hmags, found, hfound, rfl⟩ := Job.addEdges_eq_ok.1 hnext
  obtain ⟨found', hfound'⟩ : Succeeds
      (job'.sites.mapM fun site => (site.id, ·) <$> job'.edgesOf? branch site) := by
    apply succeeds_mapM.2
    intro site hsite
    rw [h.edgesOf?_eq]
    exact succeeds_mapM.1 ⟨found, hfound⟩ site (h.mem_sites_iff.1 hsite)
  refine Job.addEdges_eq_ok.2 ⟨hmags, found', hfound', SortedMap.ext_get? fun key => ?_⟩
  rw [get?_putEdges, get?_putEdges, foundUnder_eq hfound, foundUnder_eq hfound',
    ← getLast?_filterMap_dedup, ← h.sites_under, getLast?_filterMap_dedup]
  simp only [h.edgesOf?_eq]

theorem edges_eq_ok (h : job.Thins job') {table : EdgeTable ℝ} (htable : job.edges = .ok table) :
    job'.edges = .ok table := by
  rw [edges, h.branches]
  have hall : ∀ (branches : List (Branch ℝ)) (start : EdgeTable ℝ),
      branches.foldlM job.addEdges start = .ok table →
      branches.foldlM job'.addEdges start = .ok table := by
    intro branches
    induction branches with
    | nil => exact fun _ h => h
    | cons branch rest ih =>
        intro start hstart
        rw [List.foldlM_cons] at hstart ⊢
        obtain ⟨next, hnext, hrest⟩ := bind_eq_ok.1 hstart
        exact bind_eq_ok.2 ⟨next, h.addEdges_eq_ok hnext, ih next hrest⟩
  exact hall _ _ htable

/-! ## The second pass -/

variable [NormalCdf ℝ]

omit [NormalCdf ℝ] in
theorem validate_eq_ok (h : job.Thins job') (hvalid : job.validate = .ok ()) :
    job'.validate = .ok () := by
  obtain ⟨_, hcfg, hbranches⟩ := bind_eq_ok.1 hvalid
  have haccepted := Config.validate_eq_ok.1 hcfg
  have hcfg' : job'.cfg.validate = .ok () := by
    obtain ⟨poe, hpoe⟩ := List.exists_mem_of_ne_nil _ haccepted.targets_ne_nil
    obtain ⟨measure, hmeasure⟩ := List.exists_mem_of_ne_nil _ haccepted.measures_ne_nil
    rw [h.cfg, Config.validate_eq_ok]
    exact { haccepted with
      targets_ne_nil := List.ne_nil_of_mem (h.mem_targets poe hpoe)
      isTarget := fun poe hpoe => haccepted.isTarget poe (h.mem_targets_iff.1 hpoe)
      measures_ne_nil := List.ne_nil_of_mem (h.mem_measures measure hmeasure) }
  refine bind_eq_ok.2 ⟨(), hcfg', ?_⟩
  rw [h.branches]
  exact hbranches

omit [NormalCdf ℝ] in
theorem context_eq (h : job.Thins job') (branch : Branch ℝ) (e : BinEdges ℝ) :
    job'.context branch e = { job.context branch e with
      cfg := { job.cfg with targets := job'.cfg.targets, measures := job'.cfg.measures } } := by
  rw [context, h.curves]
  conv_lhs => rw [h.cfg]
  rfl

omit [NormalCdf ℝ] in
theorem mem_targets_context (h : job.Thins job') {branch : Branch ℝ} {e : BinEdges ℝ}
    {site : Site ℝ} {targets targets' : List (Target ℝ)}
    (htargets : (job.context branch e).targets site = .ok targets)
    (htargets' : (job'.context branch e).targets site = .ok targets') {target : Target ℝ} :
    target ∈ targets' ↔ target ∈ targets := by
  rw [SiteContext.mem_targets htargets, SiteContext.mem_targets htargets']
  constructor
  · rintro ⟨poe, hpoe, imt, himt, realization, hrealization, hasks⟩
    rw [h.context_eq] at hasks
    exact ⟨poe, h.mem_targets_iff.1 hpoe, imt, h.mem_imts_iff.1 himt, realization, hrealization,
      hasks.key, hasks.level⟩
  · rintro ⟨poe, hpoe, imt, himt, realization, hrealization, hasks⟩
    refine ⟨poe, h.mem_targets_iff.2 hpoe, imt, h.mem_imts_iff.2 himt, realization,
      hrealization, ?_⟩
    rw [h.context_eq]
    exact ⟨hasks.key, hasks.level⟩

omit [NormalCdf ℝ] in
theorem succeeds_targets (h : job.Thins job') {branch : Branch ℝ} {e : BinEdges ℝ} {site : Site ℝ}
    (htargets : Succeeds ((job.context branch e).targets site)) :
    Succeeds ((job'.context branch e).targets site) := by
  obtain ⟨_, htargets⟩ := htargets
  obtain ⟨found, hfound, _⟩ := bind_eq_ok.1 htargets
  have hall := succeeds_mapM.1 ⟨found, hfound⟩
  obtain ⟨found', hfound'⟩ : Succeeds ((job'.context branch e).combinations.mapM
      fun asked => (job'.context branch e).target? site asked.1 asked.2.1 asked.2.2) := by
    apply succeeds_mapM.2
    rintro ⟨poe, imt, realization⟩ hmem
    obtain ⟨hpoe, himt, hrealization⟩ := SiteContext.mem_combinations.1 hmem
    have hsame := hall (poe, imt, realization) (SiteContext.mem_combinations.2
      ⟨h.mem_targets_iff.1 hpoe, h.mem_imts_iff.1 himt, hrealization⟩)
    rw [h.context_eq]
    exact hsame
  exact succeeds_bind.2 ⟨found', hfound', succeeds_pure _⟩

/-- What can be counted can be counted without repetitions. -/
theorem allCountable (h : job.Thins job') (hvalid : job.validate = .ok ()) {edges : EdgeTable ℝ}
    (hall : job.AllCountable edges) : job'.AllCountable edges := by
  intro branch hbranch source hsource site hsite
  rw [h.branches] at hbranch
  have hshares := hall branch hbranch source hsource site (h.mem_sites_iff.1 hsite)
  cases he : edges.get? ⟨branch.id, site.id⟩ with
  | none => exact ⟨[], shares_of_none he source⟩
  | some e =>
      rw [shares_of_some he] at hshares ⊢
      obtain ⟨_, hss⟩ := hshares
      obtain ⟨targets, htargets, _⟩ := bind_eq_ok.1 hss
      obtain ⟨targets', htargets'⟩ := h.succeeds_targets ⟨targets, htargets⟩
      by_cases hnil' : targets' = []
      · exact ⟨[], shares_of_nil (hnil' ▸ htargets') source⟩
      · have hmem : ∀ target, target ∈ targets' ↔ target ∈ targets :=
          fun _ => h.mem_targets_context htargets htargets'
        obtain ⟨target, htarget⟩ := List.exists_mem_of_ne_nil _ hnil'
        have hnil : targets ≠ [] := List.ne_nil_of_mem ((hmem target).1 htarget)
        have hnumbered : ∀ a ∈ branch.realizations, ∀ b ∈ branch.realizations,
            a.id = b.id → a = b :=
          fun a ha b hb hid => (eq_of_realization hvalid hbranch hbranch ha hb hid).2
        obtain ⟨hruptures, hadmits⟩ := (succeeds_shares_iff hnil htargets hnumbered).1 ⟨_, hss⟩
        rw [succeeds_shares_iff hnil' htargets' hnumbered]
        rw [h.context_eq]
        refine ⟨hruptures, fun rupture hrupture => ?_⟩
        have hcounted := (hadmits rupture hrupture).mono
          fun target htarget => (hmem target).1 htarget
        exact ⟨hcounted.cell, hcounted.models⟩

/-- A job without some of its repetitions has a run with the same edges. -/
theorem exists_ran (h : job.Thins job') {run : Run ℝ} (hran : Ran job run)
    {schedule : List (Task ℝ) → Schedule (Task ℝ)} (hcomplete : Schedule.Complete schedule) :
    ∃ run', job'.runWith schedule = .ok run' ∧ Ran job' run' ∧ run'.edges = run.edges := by
  have hedges := h.edges_eq_ok hran.edges
  obtain ⟨run', hrun'⟩ := Job.exists_run hcomplete (h.validate_eq_ok hran.valid) hedges
    (h.allCountable hran.valid hran.countable)
  have hran' := ran_of_runWith hcomplete hrun'
  exact ⟨run', hrun', hran', Except.ok.inj (hran'.edges.symm.trans hedges)⟩

/-- Repetitions do not change the keys. -/
theorem exists_matrix_iff (h : job.Thins job') {run run' : Run ℝ} (hran : Ran job run)
    (hran' : Ran job' run') (key : ResultKey ℝ) :
    (∃ m, run'.results.get? key = some m) ↔ ∃ m, run.results.get? key = some m := by
  have hnearby : ∀ branch site, job'.nearbyOf branch site = job.nearbyOf branch site := by
    intro branch site
    rw [nearbyOf, h.cfg]
    rfl
  rw [hran.exists_matrix_iff, hran'.exists_matrix_iff]
  simp only [h.branches, h.mem_sites_iff, h.mem_targets_iff, h.mem_imts_iff, h.curves, hnearby]

end Thins

/-! ## Cells -/

/-- How often a site is asked for a probability and a measure. -/
def askedFor (job : Job ℝ) (site : Site ℝ) (poe : ℝ) (imt : String) : Nat :=
  job.sites.count site * (job.cfg.targets.count poe * job.cfg.imts.count imt)

/-- The sites with a number. -/
def sitesUnder (job : Job ℝ) (number : Nat) : Finset (Site ℝ) :=
  (job.sites.filter fun site => decide (site.id = number)).toFinset

theorem mem_sitesUnder {job : Job ℝ} {number : Nat} {site : Site ℝ} :
    site ∈ job.sitesUnder number ↔ site ∈ job.sites ∧ site.id = number := by
  simp [sitesUnder]

variable {job job' : Job ℝ} {run run' : Run ℝ} {branch : Branch ℝ} {realization : Realization ℝ}
  {number : Nat} {poe : ℝ} {imt : String} {edges : BinEdges ℝ}

theorem Thins.sitesUnder_eq (h : job.Thins job') (number : Nat) :
    job'.sitesUnder number = job.sitesUnder number := by
  ext site
  rw [mem_sitesUnder, mem_sitesUnder, h.mem_sites_iff]

theorem Thins.askedFor_le (h : job.Thins job') (site : Site ℝ) (poe : ℝ) (imt : String) :
    job'.askedFor site poe imt ≤ job.askedFor site poe imt :=
  Nat.mul_le_mul (h.sites.count_le _) (Nat.mul_le_mul (h.targets.count_le _)
    ((h.measures.map Prod.fst).count_le _))

variable [NormalCdf ℝ]

/-- A cell is a product over the different sites with the number of the key, each taken as often
as it is asked for. -/
theorem Ran.pne_eq_prod (h : Ran job run) (hbranch : branch ∈ job.branches)
    (hrealization : realization ∈ branch.realizations)
    (hedges : run.edges.get? ⟨branch.id, number⟩ = some edges) {curve : HazardCurve ℝ}
    (hcurve : job.curves.get? ⟨number, realization.id, imt⟩ = some curve) {m : Matrix ℝ}
    (hm : run.results.get? ⟨number, realization.id, ⟨poe⟩, imt, branch.regions.names⟩ = some m)
    {c : Cell} {eps : Nat} (hc : m.shape.holds c = true) (heps : eps < m.shape.eps) :
    m.pne c eps = ∏ site ∈ job.sitesUnder number,
      product (branch.sources.flatMap (once site (job.context branch edges)
        ⟨realization.id, ⟨poe⟩, imt⟩)) c eps ^ job.askedFor site poe imt := by
  rw [h.pne_eq hbranch hrealization hedges hcurve hm hc heps, Finset.prod_list_map_count,
    ← Finset.prod_pow]
  apply Finset.prod_congr rfl
  intro site hsite
  obtain ⟨_, hid⟩ := mem_sitesUnder.1 hsite
  rw [← pow_mul, askedFor, List.count_filter (by simpa using hid)]

/-- What is counted once at a site is the same without repetitions. -/
theorem Thins.exists_located (h : job.Thins job') (hran : Ran job run) (hran' : Ran job' run')
    (hbranch : branch ∈ job.branches) (hrealization : realization ∈ branch.realizations)
    (hpoe : poe ∈ job.cfg.targets) (himt : imt ∈ job.cfg.imts) (hsame : run'.edges = run.edges)
    (hedges : run.edges.get? ⟨branch.id, number⟩ = some edges) {curve : HazardCurve ℝ}
    (hcurve : job.curves.get? ⟨number, realization.id, imt⟩ = some curve) {level : ℝ}
    (hlevel : curve.levelFor poe job.cfg.extrapolation = .ok level) {site : Site ℝ}
    (hsite : site ∈ job.sitesUnder number) :
    ∃ located : List (Cell × List ℝ),
      List.Forall₂ (fun near x => Contributes (job.context branch edges) site realization imt level
          near.1 near.2 x.1 x.2)
        (nearbyRuptures branch.sources site job.cfg.maximumDistance) located ∧
      (∀ c eps, product (branch.sources.flatMap
        (once site (job.context branch edges) ⟨realization.id, ⟨poe⟩, imt⟩)) c eps =
          cellProduct located c eps) ∧
      ∀ c eps, product (branch.sources.flatMap
        (once site (job'.context branch edges) ⟨realization.id, ⟨poe⟩, imt⟩)) c eps =
          cellProduct located c eps := by
  obtain ⟨hmem, rfl⟩ := mem_sitesUnder.1 hsite
  have hcurve' : job'.curves.get? ⟨site.id, realization.id, imt⟩ = some curve := by
    rwa [h.curves]
  have hlevel' : curve.levelFor poe job'.cfg.extrapolation = .ok level := by
    rw [h.cfg]
    exact hlevel
  obtain ⟨located, hlocated, hproduct⟩ :=
    hran.exists_located hbranch hmem hrealization hpoe himt hedges hcurve hlevel
  obtain ⟨located', hlocated', hproduct'⟩ :=
    hran'.exists_located (h.branches ▸ hbranch) (h.mem_sites_iff.2 hmem) hrealization
      (h.mem_targets_iff.2 hpoe) (h.mem_imts_iff.2 himt) (hsame ▸ hedges) hcurve' hlevel'
  -- a rupture contributes in one way only, whichever job it is counted in
  have heq : located = located' := by
    refine List.right_unique_forall₂' ?_ hlocated ?_
    · intro near x y hx hy
      obtain ⟨hcell, hpnes⟩ := hx.unique hy
      exact Prod.ext hcell hpnes
    · rw [h.context_eq, h.cfg] at hlocated'
      exact hlocated'.imp fun near x hx => ⟨hx.region, hx.bins, hx.bands, hx.probabilities⟩
  exact ⟨located, hlocated, hproduct, heq ▸ hproduct'⟩

/-- The matrices of a key have one shape and one level. -/
theorem Thins.frame_eq (h : job.Thins job') (hran : Ran job run) (hran' : Ran job' run')
    (hsame : run'.edges = run.edges) (hbranch : branch ∈ job.branches)
    (hrealization : realization ∈ branch.realizations) {names : List String} {m m' : Matrix ℝ}
    (hm : run.results.get? ⟨number, realization.id, ⟨poe⟩, imt, names⟩ = some m)
    (hm' : run'.results.get? ⟨number, realization.id, ⟨poe⟩, imt, names⟩ = some m') :
    m'.shape = m.shape ∧ m'.level = m.level := by
  obtain ⟨edges, curve, hedges, hshape, hcurve, hlevel⟩ := hran.matrix_frame hbranch hrealization hm
  obtain ⟨edges', curve', hedges', hshape', hcurve', hlevel'⟩ :=
    hran'.matrix_frame (h.branches ▸ hbranch) hrealization hm'
  rw [hsame, hedges, Option.some.injEq] at hedges'
  subst hedges'
  rw [h.curves, hcurve, Option.some.injEq] at hcurve'
  subst hcurve'
  have hcfg : job'.cfg.extrapolation = job.cfg.extrapolation := by rw [h.cfg]
  rw [hcfg, hlevel] at hlevel'
  exact ⟨Except.ok.inj (hshape'.symm.trans hshape), (Except.ok.inj hlevel').symm⟩

omit [NormalCdf ℝ] in
/-- Two products of powers agree, where the one has the larger exponents, when the factors that are
taken more often are one. -/
theorem prod_pow_eq_iff {ι : Type} {s : Finset ι} {f : ι → ℝ} {a b : ι → Nat}
    (hf : ∀ i ∈ s, 0 < f i ∧ f i ≤ 1) (hba : ∀ i ∈ s, b i ≤ a i) :
    ∏ i ∈ s, f i ^ a i = ∏ i ∈ s, f i ^ b i ↔ ∀ i ∈ s, f i = 1 ∨ a i = b i := by
  constructor
  · -- a factor below one that is taken more often makes the product smaller
    intro heq i hi
    by_contra hnot
    rw [not_or] at hnot
    have hlt : f i ^ a i < f i ^ b i :=
      pow_lt_pow_right_of_lt_one₀ (hf i hi).1 (lt_of_le_of_ne (hf i hi).2 hnot.1)
        (lt_of_le_of_ne (hba i hi) (Ne.symm hnot.2))
    exact (Finset.prod_lt_prod (fun j hj => pow_pos (hf j hj).1 _)
      (fun j hj => pow_le_pow_of_le_one (hf j hj).1.le (hf j hj).2 (hba j hj)) ⟨i, hi, hlt⟩).ne heq
  · intro hall
    apply Finset.prod_congr rfl
    intro i hi
    rcases hall i hi with hone | hsame
    · rw [hone, one_pow, one_pow]
    · rw [hsame]

/-- Leaving repetitions out of a job keeps whether it runs, its edges, its keys, its shapes and
its levels. Each cell is a product over the sites with the number of the key, of what the ruptures
near the site contribute once, taken as often as the job asks for it; so a cell stays the same
exactly when every site that is asked for less often contributes nothing to it. -/
theorem runWith_of_thins (hthins : job.Thins job')
    {schedule schedule' : List (Task ℝ) → Schedule (Task ℝ)}
    (hcomplete : Schedule.Complete schedule) (hcomplete' : Schedule.Complete schedule')
    (hrun : job.runWith schedule = .ok run) :
    ∃ run', job'.runWith schedule' = .ok run' ∧ run'.edges = run.edges ∧
      (∀ key, (∃ m, run'.results.get? key = some m) ↔ ∃ m, run.results.get? key = some m) ∧
      ∀ branch ∈ job.branches, ∀ realization ∈ branch.realizations, ∀ number poe imt m m',
        run.results.get? ⟨number, realization.id, ⟨poe⟩, imt, branch.regions.names⟩ = some m →
        run'.results.get? ⟨number, realization.id, ⟨poe⟩, imt, branch.regions.names⟩ = some m' →
        m'.shape = m.shape ∧ m'.level = m.level ∧
        ∃ edges, run.edges.get? ⟨branch.id, number⟩ = some edges ∧
        ∃ located : Site ℝ → List (Cell × List ℝ),
          (∀ site ∈ job.sitesUnder number,
            List.Forall₂ (fun near x => Contributes (job.context branch edges) site realization imt
                m.level near.1 near.2 x.1 x.2)
              (nearbyRuptures branch.sources site job.cfg.maximumDistance) (located site)) ∧
          ∀ c eps, m.shape.holds c = true → eps < m.shape.eps →
            m.pne c eps = ∏ site ∈ job.sitesUnder number,
              cellProduct (located site) c eps ^ job.askedFor site poe imt ∧
            m'.pne c eps = ∏ site ∈ job.sitesUnder number,
              cellProduct (located site) c eps ^ job'.askedFor site poe imt ∧
            (m.pne c eps = m'.pne c eps ↔ ∀ site ∈ job.sitesUnder number,
              cellProduct (located site) c eps = 1 ∨
                job.askedFor site poe imt = job'.askedFor site poe imt) := by
  have hran := ran_of_runWith hcomplete hrun
  obtain ⟨run', hrun', hran', hsame⟩ := hthins.exists_ran hran hcomplete'
  refine ⟨run', hrun', hsame, hthins.exists_matrix_iff hran hran', ?_⟩
  intro branch hbranch realization hrealization number poe imt m m' hm hm'
  have hbranch' : branch ∈ job'.branches := hthins.branches ▸ hbranch
  obtain ⟨hpoe, himt⟩ := hran.mem_of_matrix hm
  obtain ⟨edges, curve, hedges, hshape, hcurve, hlevel⟩ := hran.matrix_frame hbranch hrealization hm
  obtain ⟨hshape', hlevel'⟩ := hthins.frame_eq hran hran' hsame hbranch hrealization hm hm'
  refine ⟨hshape', hlevel', edges, hedges, ?_⟩
  have hexists := fun site (hsite : site ∈ job.sitesUnder number) =>
    hthins.exists_located hran hran' hbranch hrealization hpoe himt hsame hedges hcurve hlevel hsite
  choose! located hlocated hproduct hproduct' using hexists
  refine ⟨located, hlocated, fun c eps hc heps => ?_⟩
  have hpne : m.pne c eps = ∏ site ∈ job.sitesUnder number,
      cellProduct (located site) c eps ^ job.askedFor site poe imt := by
    rw [hran.pne_eq_prod hbranch hrealization hedges hcurve hm hc heps]
    exact Finset.prod_congr rfl fun site hsite => by rw [hproduct site hsite]
  have hpne' : m'.pne c eps = ∏ site ∈ job.sitesUnder number,
      cellProduct (located site) c eps ^ job'.askedFor site poe imt := by
    rw [← hthins.sitesUnder_eq, hran'.pne_eq_prod hbranch' hrealization (hsame ▸ hedges)
      (hthins.curves ▸ hcurve) hm' (hshape' ▸ hc) (hshape' ▸ heps)]
    apply Finset.prod_congr rfl
    intro site hsite
    rw [hproduct' site (hthins.sitesUnder_eq number ▸ hsite)]
  refine ⟨hpne, hpne', ?_⟩
  rw [hpne, hpne']
  refine prod_pow_eq_iff (fun site hsite => ?_) fun site _ => hthins.askedFor_le site poe imt
  refine cellProduct_mem_unit (fun x hx p hp => ?_) c eps
  obtain ⟨_, _, hcontributes⟩ := exists_of_forall₂ (hlocated site hsite) hx
  exact hcontributes.mem_unit hp

end Job

namespace Sample

/-- A probability that is asked for twice squares the matrix of its key. -/
theorem squared_matrix :
    ∃ run run' m m', (job [1 / 10, 1 / 10] 1 [source "A" 1, source "B" 2]).runWith
        Executor.sequential.schedule = .ok run ∧
      (job [1 / 10, 1 / 10] 1 [source "A" 1, source "B" 2]).distinct.runWith
        Executor.sequential.schedule = .ok run' ∧
      run.results.get? ⟨0, 0, ⟨1 / 10⟩, "PGA", ["Crust"]⟩ = some m ∧
      run'.results.get? ⟨0, 0, ⟨1 / 10⟩, "PGA", ["Crust"]⟩ = some m' ∧
      ∀ c eps, m.shape.holds c = true → eps < m.shape.eps → m.pne c eps = m'.pne c eps ^ 2 := by
  have hcomplete := Schedule.complete_executor (τ := Task ℝ) .sequential
  obtain ⟨run, hrun⟩ : ∃ run, (job [1 / 10, 1 / 10] 1 [source "A" 1, source "B" 2]).runWith
      Executor.sequential.schedule = .ok run :=
    exists_run (by simp) (by norm_num) Nat.one_pos zero_le_one zero_le_two hcomplete
  obtain ⟨m, hm⟩ := exists_matrix (Job.ran_of_runWith hcomplete hrun) List.mem_cons_self
  obtain ⟨run', hrun', _, hkeys, hcells⟩ :=
    Job.runWith_of_thins (Job.thins_distinct _) hcomplete hcomplete hrun
  obtain ⟨m', hm'⟩ := (hkeys _).2 ⟨m, hm⟩
  obtain ⟨_, _, _, _, located, _, hcell⟩ := hcells _ List.mem_cons_self _ List.mem_cons_self 0
    (1 / 10) "PGA" m m' hm hm'
  refine ⟨run, run', m, m', hrun, hrun', hm, hm', fun c eps hc heps => ?_⟩
  obtain ⟨hpne, hpne', _⟩ := hcell c eps hc heps
  have hsites : (job [1 / 10, 1 / 10] 1 [source "A" 1, source "B" 2]).sitesUnder 0 =
      {⟨0, ⟨0, 0⟩⟩} := by
    simp [Job.sitesUnder, job]
  rw [hpne, hpne', hsites, Finset.prod_singleton, Finset.prod_singleton, ← pow_mul]
  congr 1
  simp [Job.askedFor, Job.distinct, job, cfg, Config.imts]

end Sample

end SeismicHazard

end
