import SeismicHazard.Proofs.Collection.Alike
import SeismicHazard.Proofs.Collection.Sample
import SeismicHazard.Proofs.Job.Existence

/-!
# Order and size of tasks

The sources of a branch can be put in any order, divided into tasks of any size, and the tasks
scheduled in any way: a run fails in all of these ways or in none, has edges that are numerically
equal, and results that multiply the same factors. This holds in arithmetic that rounds and has
values that are no numbers. Where products do not round, edges and results are equal.
-/

noncomputable section

namespace SeismicHazard

variable {R : Type}

/-- The same branch with its sources in another order. -/
structure Branch.Reordered (b b' : Branch R) : Prop where
  id : b'.id = b.id
  regions : b'.regions = b.regions
  realizations : b'.realizations = b.realizations
  sources : b'.sources.Perm b.sources

theorem Branch.Reordered.symm {b b' : Branch R} (h : b.Reordered b') : b'.Reordered b where
  id := h.id.symm
  regions := h.regions.symm
  realizations := h.realizations.symm
  sources := h.sources.symm

theorem Branch.Reordered.validateBranch_eq_ok {b b' : Branch R} (h : b.Reordered b')
    {seen final : List Nat} (hfinal : Job.validateBranch seen b = .ok final) :
    Job.validateBranch seen b' = .ok final := by
  rw [Job.validateBranch] at hfinal ⊢
  split at hfinal
  next => simp at hfinal
  next hparametric =>
    have hparametric' : b'.sources.find? (fun source => !source.isParametric) = none := by
      rw [List.find?_eq_none] at hparametric ⊢
      exact fun source hsource => hparametric source (h.sources.mem_iff.1 hsource)
    rw [hparametric', h.realizations]
    exact hfinal

theorem flatMap_perm_of_forall₂ {α β : Type} {r : α → α → Prop} {f g : α → List β}
    {xs ys : List α} (hlists : List.Forall₂ r xs ys)
    (hperm : ∀ x y, r x y → (f x).Perm (g y)) : (xs.flatMap f).Perm (ys.flatMap g) := by
  induction hlists with
  | nil => exact .refl _
  | cons hhead _ ih => exact (hperm _ _ hhead).append ih

variable [Scalar R]

/-- Tables that have edges for the same branches and sites, which are alike. -/
def EdgeTable.Alike (table table' : EdgeTable R) : Prop :=
  ∀ key, Option.Rel BinEdges.Alike (table.get? key) (table'.get? key)

theorem EdgeTable.Alike.eq [ExactRules R] {table table' : EdgeTable R} (h : table.Alike table') :
    table = table' :=
  SortedMap.ext_get? fun key => optionRel_eq BinEdges.Alike.eq (h key)

namespace Job

/-- The same job with the sources of each branch in another order, divided into tasks of another
size. -/
structure Reordered (job job' : Job R) : Prop where
  cfg : job'.cfg = { job.cfg with sourcesPerTask := job'.cfg.sourcesPerTask }
  sites : job'.sites = job.sites
  branches : List.Forall₂ Branch.Reordered job.branches job'.branches
  curves : job'.curves = job.curves

namespace Reordered

variable {job job' : Job R} {b b' : Branch R}

theorem symm (h : job.Reordered job') : job'.Reordered job where
  cfg := by rw [h.cfg]
  sites := h.sites.symm
  branches := h.branches.flip.imp fun _ _ h => h.symm
  curves := h.curves.symm

/-! ## Accepting -/

theorem validate_eq_ok (h : job.Reordered job') (hsize : 0 < job'.cfg.sourcesPerTask)
    (hvalid : job.validate = .ok ()) : job'.validate = .ok () := by
  obtain ⟨_, hcfg, hbranches⟩ := bind_eq_ok.1 hvalid
  obtain ⟨final, hfinal, _⟩ := bind_eq_ok.1 hbranches
  have hcfg' : job'.cfg.validate = .ok () := by
    rw [h.cfg]
    exact Config.validate_resized hcfg hsize
  have hall : ∀ {bs bs' : List (Branch R)}, List.Forall₂ Branch.Reordered bs bs' → ∀ seen,
      bs.foldlM validateBranch seen = .ok final → bs'.foldlM validateBranch seen = .ok final := by
    intro bs bs' hbs
    induction hbs with
    | nil => exact fun _ h => h
    | cons hhead _ ih =>
        intro seen hfold
        rw [List.foldlM_cons] at hfold ⊢
        obtain ⟨next, hnext, hrest⟩ := bind_eq_ok.1 hfold
        exact bind_eq_ok.2 ⟨next, hhead.validateBranch_eq_ok hnext, ih next hrest⟩
  exact bind_eq_ok.2 ⟨(), hcfg', bind_eq_ok.2 ⟨final, hall h.branches [] hfinal, rfl⟩⟩

/-! ## The first pass -/

theorem putEdges_alike {table table' : EdgeTable R} (htable : table.Alike table')
    (hid : b'.id = b.id) {found found' : List (Nat × Option (BinEdges R))}
    (hfound : List.Forall₂ (fun x y => x.1 = y.1 ∧ Option.Rel BinEdges.Alike x.2 y.2) found
      found') :
    (putEdges b table found).Alike (putEdges b' table' found') := by
  refine List.rel_foldl (P := EdgeTable.Alike) (fun t t' ht x y hxy => ?_) htable hfound
  obtain ⟨number, e?⟩ := x
  obtain ⟨number', e?'⟩ := y
  obtain ⟨rfl, he⟩ := hxy
  cases he with
  | none => exact ht
  | some he =>
      intro key
      simp only [SortedMap.get?_insert, hid]
      split
      next => exact .some he
      next => exact ht key

variable [RankRules R]

theorem magRange_agree (h : b.Reordered b') :
    Agree (Option.Rel MagRange.Alike) (magRange b) (magRange b') := by
  apply Agree.of_succeeds_iff
  · simp only [Succeeds, magRange_eq_ok, exists_and_left, exists_eq, and_true, h.sources.mem_iff]
  · intro mags mags' hmags hmags'
    rw [(magRange_eq_ok.1 hmags).2, (magRange_eq_ok.1 hmags').2]
    exact MagRange.ofList_perm ((h.sources.symm.flatMap_right _).map _)

theorem siteBounds_agree {sources sources' : List (Source R)} (hperm : sources'.Perm sources)
    (site : Site R) (cfg : Config R) :
    Agree SiteBounds.Alike (siteBounds sources site cfg) (siteBounds sources' site cfg) := by
  apply Agree.of_succeeds_iff
  · simp only [Succeeds, siteBounds_eq_ok, exists_and_left, exists_eq, and_true, hperm.mem_iff]
  · intro bounds bounds' hbounds hbounds'
    rw [(siteBounds_eq_ok.1 hbounds).2, (siteBounds_eq_ok.1 hbounds').2]
    exact SiteBounds.ofList_perm ((hperm.symm.flatMap_right _).map _)

variable [AlikeRules R]

theorem edgesAt?_agree (h : job.Reordered job') (hb : b.Reordered b')
    {mags mags' : Option (MagRange R)} (hmags : Option.Rel MagRange.Alike mags mags')
    (site : Site R) :
    Agree (Option.Rel BinEdges.Alike) (job.edgesAt? b mags site) (job'.edgesAt? b' mags' site) := by
  unfold edgesAt?
  rw [h.curves]
  split
  next => exact .ok .none
  next =>
    have hcfg : siteBounds b'.sources site job'.cfg = siteBounds b'.sources site job.cfg := by
      rw [h.cfg]
      rfl
    rw [hcfg]
    refine (siteBounds_agree hb.sources site job.cfg).bind fun bounds bounds' hbounds => ?_
    rw [h.cfg]
    exact BinEdges.ofBounds?_agree hbounds hmags job.cfg

theorem addEdges_agree (h : job.Reordered job') (table table' : EdgeTable R) (b b' : Branch R)
    (htable : table.Alike table') (hb : b.Reordered b') :
    Agree EdgeTable.Alike (job.addEdges table b) (job'.addEdges table' b') := by
  unfold addEdges
  rw [h.sites]
  refine (magRange_agree hb).bind fun mags mags' hmags => ?_
  refine Agree.bind (r := List.Forall₂ fun x y => x.1 = y.1 ∧ Option.Rel BinEdges.Alike x.2 y.2)
    (.mapM fun site _ => ?_) fun found found' hfound => .ok ?_
  · exact (h.edgesAt?_agree hb hmags site).bind fun _ _ he => .ok ⟨rfl, he⟩
  · rw [@foldl_eq_putEdges _ b _ (fun _ _ => rfl) fun _ _ _ => rfl,
      @foldl_eq_putEdges _ b' _ (fun _ _ => rfl) fun _ _ _ => rfl]
    exact putEdges_alike htable hb.id hfound

theorem edges_agree (h : job.Reordered job') : Agree EdgeTable.Alike job.edges job'.edges :=
  Agree.foldlM h.branches h.addEdges_agree fun _ => .none

/-! ## The second pass -/

variable [NormalCdf R] {edges edges' : EdgeTable R}

theorem shares_eq (h : job.Reordered job') (hb : b.Reordered b') (hedges : edges.Alike edges')
    (source : Source R) (site : Site R) :
    job'.shares edges' b' source site = job.shares edges b source site := by
  have hcontext : ∀ e, Collection.shares site (job'.context b' e) source =
      Collection.shares site (job.context b e) source := by
    intro e
    rw [context, context, h.cfg, h.curves, hb.regions, hb.realizations]
    rfl
  rw [shares, shares, hb.id]
  have hkey := hedges ⟨b.id, site.id⟩
  generalize edges.get? ⟨b.id, site.id⟩ = e?, edges'.get? ⟨b.id, site.id⟩ = e?' at hkey
  cases hkey with
  | none => rfl
  | @some e e' he =>
      simp only [hcontext]
      have halike : (job.context b e).edges.Alike e' := he
      exact Collection.shares_eq_of_alike halike site source

theorem allCountable (h : job.Reordered job') (hedges : edges.Alike edges')
    (hall : job.AllCountable edges) : job'.AllCountable edges' := by
  intro b' hb' source hsource site hsite
  obtain ⟨b, hb, hre⟩ := exists_of_forall₂ h.branches hb'
  rw [h.shares_eq hre hedges]
  exact hall b hb source (hre.sources.mem_iff.1 hsource) site (h.sites ▸ hsite)

theorem allShares_perm (h : job.Reordered job') (hedges : edges.Alike edges') :
    (job.allShares edges).Perm (job'.allShares edges') := by
  apply flatMap_perm_of_forall₂ h.branches
  intro b b' hre
  simp only [h.sites, h.shares_eq hre hedges]
  exact hre.sources.symm.flatMap_right _

/-! ## Whole runs -/

theorem ran (h : job.Reordered job') {run run' : Run R} (hran : Ran job run)
    (hran' : Ran job' run') :
    run.edges.Alike run'.edges ∧ run.results.SameFactors run'.results := by
  have hedges := h.edges_agree.rel hran.edges hran'.edges
  exact ⟨hedges, (hran.counts.perm (h.allShares_perm hedges)).sameFactors hran'.counts⟩

variable [KeyRules R] [ProbabilityRules R]
  {first second : List (Task R) → Schedule (Task R)}

theorem succeeds_runWith (h : job.Reordered job') (hsize : 0 < job'.cfg.sourcesPerTask)
    (hfirst : Schedule.Complete first) (hsecond : Schedule.Complete second)
    (hrun : Succeeds (job.runWith first)) : Succeeds (job'.runWith second) := by
  obtain ⟨hvalid, edges, hedges, hall⟩ := (succeeds_runWith_iff hfirst).1 hrun
  obtain ⟨edges', hedges'⟩ := h.edges_agree.succeeds_iff.1 ⟨edges, hedges⟩
  exact (succeeds_runWith_iff hsecond).2 ⟨h.validate_eq_ok hsize hvalid, edges', hedges',
    h.allCountable (h.edges_agree.rel hedges hedges') hall⟩

end Reordered

variable [RankRules R] [AlikeRules R] [KeyRules R] [ProbabilityRules R] [NormalCdf R]

/-- Neither the order of the sources in their branches, nor the size of the tasks, nor the way they
are scheduled changes whether a run succeeds: what is refused for a value that is no number is
refused in all of them. The edges of two such runs are numerically equal. Those of magnitude,
distance, latitude and epsilon are the same values, and of those of longitude only what no comparison
tells apart, such as the sign of a zero, is left open. The cells of their results multiply the same
factors. Where products do not round and values that compare alike are equal, the runs are equal. -/
theorem runWith_of_reordered {job job' : Job R} (hre : job.Reordered job')
    (hsize : 0 < job.cfg.sourcesPerTask) (hsize' : 0 < job'.cfg.sourcesPerTask)
    {first second : List (Task R) → Schedule (Task R)} (hfirst : Schedule.Complete first)
    (hsecond : Schedule.Complete second) :
    (Succeeds (job.runWith first) ↔ Succeeds (job'.runWith second)) ∧
      (∀ run run', job.runWith first = .ok run → job'.runWith second = .ok run' →
        run.edges.Alike run'.edges ∧ run.results.SameFactors run'.results) ∧
      (ExactRules R → (job.runWith first).toOption = (job'.runWith second).toOption) := by
  have hsucceeds : Succeeds (job.runWith first) ↔ Succeeds (job'.runWith second) :=
    ⟨hre.succeeds_runWith hsize' hfirst hsecond, hre.symm.succeeds_runWith hsize hsecond hfirst⟩
  have hruns : ∀ run run', job.runWith first = .ok run → job'.runWith second = .ok run' →
      run.edges.Alike run'.edges ∧ run.results.SameFactors run'.results :=
    fun run run' hrun hrun' =>
      hre.ran (ran_of_runWith hfirst hrun) (ran_of_runWith hsecond hrun')
  refine ⟨hsucceeds, hruns, fun _ => ?_⟩
  have hagree : Agree Eq (job.runWith first) (job'.runWith second) := by
    refine .of_succeeds_iff hsucceeds fun run run' hrun hrun' => ?_
    obtain ⟨hedges, hresults⟩ := hruns run run' hrun hrun'
    cases run
    cases run'
    exact congrArg₂ Run.mk hedges.eq hresults.eq
  exact hagree.toOption_eq

end Job

namespace Sample

/-- Two sources in two tasks, or in one task in the other order, have the same run, which has a
matrix. With values that are no numbers, too, jobs fail in both ways or in neither. -/
theorem swapped_runWith :
    (job [1 / 10] 1 [source "A" 1, source "B" 2]).Reordered
        (job [1 / 10] 2 [source "B" 2, source "A" 1]) ∧
      (∃ run m, (job [1 / 10] 1 [source "A" 1, source "B" 2]).runWith
          Executor.sequential.schedule = .ok run ∧
        (job [1 / 10] 2 [source "B" 2, source "A" 1]).runWith Executor.parallel.schedule =
          .ok run ∧
        run.results.get? ⟨0, 0, ⟨1 / 10⟩, "PGA", ["Crust"]⟩ = some m) ∧
      ∀ first second : Job PartialReal, first.Reordered second →
        0 < first.cfg.sourcesPerTask → 0 < second.cfg.sourcesPerTask →
        (Succeeds (first.runWith Executor.sequential.schedule) ↔
          Succeeds (second.runWith Executor.parallel.schedule)) := by
  have hre : (job [1 / 10] 1 [source "A" 1, source "B" 2]).Reordered
      (job [1 / 10] 2 [source "B" 2, source "A" 1]) :=
    ⟨rfl, rfl, .cons ⟨rfl, rfl, rfl, .swap _ _ _⟩ .nil, rfl⟩
  have hfirst := Schedule.complete_executor (τ := Task ℝ) .sequential
  have hsecond := Schedule.complete_executor (τ := Task ℝ) .parallel
  obtain ⟨hsucceeds, _, hequal⟩ :=
    Job.runWith_of_reordered hre Nat.one_pos Nat.two_pos hfirst hsecond
  obtain ⟨run, hrun⟩ : ∃ run, (job [1 / 10] 1 [source "A" 1, source "B" 2]).runWith
      Executor.sequential.schedule = .ok run :=
    exists_run (by simp) (by norm_num) Nat.one_pos zero_le_one zero_le_two hfirst
  obtain ⟨run', hrun'⟩ := hsucceeds.1 ⟨run, hrun⟩
  obtain ⟨m, hm⟩ := exists_matrix (Job.ran_of_runWith hfirst hrun) List.mem_cons_self
  have hsame : run = run' := by
    have hoptions := hequal inferInstance
    rw [hrun, hrun'] at hoptions
    exact Option.some.inj hoptions
  refine ⟨hre, ⟨run, m, hrun, hsame ▸ hrun', hm⟩, fun first second hpartial hsize hsize' => ?_⟩
  exact (Job.runWith_of_reordered hpartial hsize hsize'
    (Schedule.complete_executor .sequential) (Schedule.complete_executor .parallel)).1

end Sample

end SeismicHazard

end
