import SeismicHazard.Proofs.Job.Branches
import SeismicHazard.Proofs.Results.Scheduling

/-!
# What the tasks of a job add up to

The tasks of a branch divide its sources without losing or repeating any. The work on a task counts
what its sources count with at every site, so that all tasks together count what all sources do,
however large the tasks are and however they are scheduled.
-/

noncomputable section

namespace SeismicHazard.Job

open Share

theorem filter_flatMap_of_nil {α β : Type} {p : α → Bool} {f : α → List β} {xs : List α}
    (hnil : ∀ x ∈ xs, p x = false → f x = []) : (xs.filter p).flatMap f = xs.flatMap f := by
  induction xs with
  | nil => rfl
  | cons x rest ih =>
      have hrest := ih fun y hy => hnil y (List.mem_cons_of_mem _ hy)
      cases hx : p x with
      | true => rw [List.filter_cons_of_pos hx, List.flatMap_cons, hrest, List.flatMap_cons]
      | false =>
          rw [List.filter_cons_of_neg (by simp [hx]), List.flatMap_cons, hrest,
            hnil x List.mem_cons_self hx, List.nil_append]

section Chunks

variable {α : Type} {n : Nat}

theorem chunks_flatten (hn : 0 < n) (xs : List α) : (chunks n xs).flatten = xs := by
  induction xs using chunks.induct n with
  | case1 _ hzero => omega
  | case2 _ => simp [chunks]
  | case3 _ x rest ih =>
      rw [chunks, if_neg hn.ne', List.flatten_cons, ih, List.cons_append, List.take_append_drop]

theorem ne_nil_of_mem_chunks {xs chunk : List α} (hchunk : chunk ∈ chunks n xs) : chunk ≠ [] := by
  induction xs using chunks.induct n with
  | case1 _ hzero =>
      rw [chunks.eq_def, if_pos hzero] at hchunk
      simp at hchunk
  | case2 _ => simp [chunks] at hchunk
  | case3 hn x rest ih =>
      rw [chunks, if_neg hn] at hchunk
      rcases List.mem_cons.1 hchunk with rfl | hrest
      · exact List.cons_ne_nil _ _
      · exact ih hrest

theorem mem_of_mem_chunks (hn : 0 < n) {xs : List α} {x : α} :
    x ∈ xs ↔ ∃ chunk ∈ chunks n xs, x ∈ chunk := by
  rw [← List.mem_flatten, chunks_flatten hn]

end Chunks

variable {R : Type} [Scalar R] [NormalCdf R] {job : Job R} {edges : EdgeTable R}

/-! ## One task -/

/-- What the sources of a task count with at a site. -/
def siteShares (job : Job R) (edges : EdgeTable R) (task : Task R) (site : Site R) :
    List (Share R) :=
  task.sources.flatMap fun source => listed (job.shares edges task.branch source site)

/-- What the sources of a task count with. -/
def taskShares (job : Job R) (edges : EdgeTable R) (task : Task R) : List (Share R) :=
  job.sites.flatMap (job.siteShares edges task)

/-- A task can be worked off when everything in it can be counted. -/
def Countable (job : Job R) (edges : EdgeTable R) (task : Task R) : Prop :=
  ∀ site ∈ job.sites, ∀ source ∈ task.sources, Succeeds (job.shares edges task.branch source site)

theorem succeeds_of_addSite {task : Task R} {site : Site R} {acc next : Results R}
    (hadd : job.addSite edges task acc site = .ok next) :
    ∀ source ∈ task.sources, Succeeds (job.shares edges task.branch source site) := by
  intro source hsource
  unfold addSite at hadd
  cases hget : edges.get? ⟨task.branch.id, site.id⟩ with
  | none => exact ⟨_, shares_of_none hget source⟩
  | some siteEdges =>
      rw [hget] at hadd
      rw [shares_of_some hget]
      obtain ⟨part, hpart, _⟩ := bind_eq_ok.1 hadd
      exact (Collection.succeeds_of_collect hpart).2 source hsource

theorem countable_of_work {task : Task R} {r : Results R} (hwork : job.work edges task = .ok r) :
    job.Countable edges task := by
  refine step_of_foldlM (motive := fun (before : List (Site R)) _ => ∀ site ∈ before,
    ∀ source ∈ task.sources, Succeeds (job.shares edges task.branch source site)) hwork
    (by simp) ?_
  intro before site after acc next _ hbefore hnext other hother
  rcases List.mem_append.1 hother with h | h
  · exact hbefore other h
  · rw [List.mem_singleton.1 h]
    exact succeeds_of_addSite hnext

/-! ## All tasks -/

/-- A branch without edges at any site has nothing to count. -/
theorem shares_of_inactive {branch : Branch R}
    (hinactive : job.sites.any (fun site => edges.contains ⟨branch.id, site.id⟩) = false)
    {site : Site R} (hsite : site ∈ job.sites) (source : Source R) :
    job.shares edges branch source site = .ok [] := by
  refine shares_of_none ?_ source
  have hnot := List.any_eq_false.1 hinactive site hsite
  rw [SortedMap.contains, Option.isSome_iff_ne_none, not_not] at hnot
  exact hnot

omit [NormalCdf R] in
theorem mem_tasks {task : Task R} :
    task ∈ job.tasks edges ↔ ∃ branch ∈ job.branches,
      job.sites.any (fun site => edges.contains ⟨branch.id, site.id⟩) = true ∧
      ∃ chunk ∈ chunks job.cfg.sourcesPerTask branch.sources, ⟨branch, chunk⟩ = task := by
  simp only [tasks, List.mem_flatMap, List.mem_filter, List.mem_map, and_assoc]

/-- The tasks together count what all sources do. -/
theorem tasks_perm (hsize : 0 < job.cfg.sourcesPerTask) :
    ((job.tasks edges).flatMap (job.taskShares edges)).Perm (job.allShares edges) := by
  have hbranch : ∀ branch ∈ job.branches.filter fun branch =>
      job.sites.any (fun site => edges.contains ⟨branch.id, site.id⟩),
      ((chunks job.cfg.sourcesPerTask branch.sources).flatMap
        fun chunk => job.taskShares edges ⟨branch, chunk⟩).Perm
      (branch.sources.flatMap fun source => job.sites.flatMap fun site =>
        listed (job.shares edges branch source site)) := by
    intro branch _
    conv_rhs => rw [← chunks_flatten hsize branch.sources]
    rw [List.flatten_eq_flatMap, List.flatMap_assoc]
    exact List.Perm.flatMap_left _ fun chunk _ => flatMap_comm_perm _ _ _
  -- branches that have no edges have no tasks, and nothing to count either
  have hall : job.allShares edges = (job.branches.filter fun branch =>
      job.sites.any (fun site => edges.contains ⟨branch.id, site.id⟩)).flatMap fun branch =>
        branch.sources.flatMap fun source => job.sites.flatMap fun site =>
          listed (job.shares edges branch source site) := by
    refine (filter_flatMap_of_nil fun branch _ hinactive => ?_).symm
    rw [List.flatMap_eq_nil_iff]
    intro source _
    rw [List.flatMap_eq_nil_iff]
    intro site hsite
    rw [shares_of_inactive hinactive hsite, listed_ok]
  rw [hall, tasks, List.flatMap_assoc]
  apply List.Perm.flatMap_left _
  intro branch hmem
  rw [List.flatMap_map]
  exact hbranch branch hmem

/-- Everything that a job has can be counted. -/
def AllCountable (job : Job R) (edges : EdgeTable R) : Prop :=
  ∀ branch ∈ job.branches, ∀ source ∈ branch.sources, ∀ site ∈ job.sites,
    Succeeds (job.shares edges branch source site)

theorem countable_tasks (hsize : 0 < job.cfg.sourcesPerTask) :
    (∀ task ∈ job.tasks edges, job.Countable edges task) ↔ job.AllCountable edges := by
  constructor
  · intro hall branch hbranch source hsource site hsite
    cases hactive : job.sites.any (fun site => edges.contains ⟨branch.id, site.id⟩) with
    | false => exact ⟨_, shares_of_inactive hactive hsite source⟩
    | true =>
        obtain ⟨chunk, hchunk, hmem⟩ := (mem_of_mem_chunks hsize).1 hsource
        exact hall ⟨branch, chunk⟩ (mem_tasks.2 ⟨branch, hbranch, hactive, chunk, hchunk, rfl⟩)
          site hsite source hmem
  · intro hall task htask site hsite source hsource
    obtain ⟨branch, hbranch, _, chunk, hchunk, rfl⟩ := mem_tasks.1 htask
    exact hall branch hbranch source ((mem_of_mem_chunks hsize).2 ⟨chunk, hchunk, hsource⟩) site
      hsite

/-! ## What is counted -/

variable [KeyRules R] [ProbabilityRules R]

theorem counts_addSite {task : Task R} {site : Site R} {acc : Results R} {xs : List (Share R)}
    (hsources : task.sources ≠ []) (hacc : acc.Counts xs)
    (hcoherent : Coherent (xs ++ job.siteShares edges task site)) (hfits : ∀ s ∈ xs, s.Fits)
    (hall : ∀ source ∈ task.sources, Succeeds (job.shares edges task.branch source site)) :
    ∃ next, job.addSite edges task acc site = .ok next ∧
      next.Counts (xs ++ job.siteShares edges task site) := by
  have hnew : ∀ s ∈ job.siteShares edges task site, s.Fits := by
    intro s hs
    obtain ⟨source, _, hs⟩ := List.mem_flatMap.1 hs
    exact (framed_of_mem hs).1
  unfold addSite
  cases hget : edges.get? ⟨task.branch.id, site.id⟩ with
  | none =>
      have hnil : job.siteShares edges task site = [] := by
        simp [siteShares, shares_of_none hget]
      exact ⟨acc, rfl, by rwa [hnil, List.append_nil]⟩
  | some siteEdges =>
      have hopen : job.siteShares edges task site = task.sources.flatMap fun source =>
          listed (Collection.shares site (job.context task.branch siteEdges) source) := by
        simp only [siteShares, shares_of_some hget]
      simp only [shares_of_some hget] at hall
      -- a task has a source, and that source has been asked for the targets of the site
      obtain ⟨source, rest, hcons⟩ := List.exists_cons_of_ne_nil hsources
      obtain ⟨_, hsource⟩ := hall source (by simp [hcons])
      obtain ⟨targets, htargets, _⟩ := bind_eq_ok.1 hsource
      obtain ⟨part, hpart, hcounts⟩ := Collection.counts_collect ⟨targets, htargets⟩ hall
        (hopen ▸ hcoherent.mono fun s hs => List.mem_append_right _ hs)
      rw [← hopen] at hcounts
      obtain ⟨next, hnext, hboth⟩ := hacc.merge hcounts hcoherent
        (List.forall_mem_append.2 ⟨hfits, hnew⟩)
      exact ⟨next, bind_eq_ok.2 ⟨part, hpart, hnext⟩, hboth⟩

/-- The work on a task counts what its sources count with at all sites. -/
theorem counts_work {task : Task R} (hsources : task.sources ≠ [])
    (hcountable : job.Countable edges task) (hcoherent : Coherent (job.taskShares edges task)) :
    ∃ r, job.work edges task = .ok r ∧ r.Counts (job.taskShares edges task) := by
  refine foldlM_of_step (motive := fun (before : List (Site R)) (acc : Results R) =>
    acc.Counts (before.flatMap (job.siteShares edges task))) .empty ?_
  intro before site after acc hsplit hacc
  have hsub : ∀ s ∈ before.flatMap (job.siteShares edges task) ++ job.siteShares edges task site,
      s ∈ job.taskShares edges task := by
    intro s hs
    rw [taskShares, hsplit, List.flatMap_append, List.flatMap_cons, ← List.append_assoc]
    exact List.mem_append_left _ hs
  have hfits : ∀ s ∈ before.flatMap (job.siteShares edges task), s.Fits := by
    intro s hs
    obtain ⟨_, _, hs⟩ := List.mem_flatMap.1 hs
    obtain ⟨_, _, hs⟩ := List.mem_flatMap.1 hs
    exact (framed_of_mem hs).1
  obtain ⟨next, hnext, hcounts⟩ := counts_addSite hsources hacc (hcoherent.mono hsub) hfits
    (hcountable site (by simp [hsplit]))
  exact ⟨next, hnext, by simpa using hcounts⟩

/-- Where everything can be counted, a schedule that works off every task has results that count
everything. -/
theorem counts_run_tasks {schedule : Schedule (Task R)} (hvalid : job.validate = .ok ())
    (hsize : 0 < job.cfg.sourcesPerTask) (hcomplete : schedule.tasks.Perm (job.tasks edges))
    (hall : job.AllCountable edges) :
    ∃ r, schedule.run (job.work edges) = .ok r ∧ r.Counts (job.allShares edges) := by
  have hperm : (schedule.tasks.flatMap (job.taskShares edges)).Perm (job.allShares edges) :=
    (hcomplete.flatMap_right _).trans (tasks_perm hsize)
  have hcoherent : Coherent (schedule.tasks.flatMap (job.taskShares edges)) :=
    (coherent_allShares hvalid).mono fun s hs => hperm.mem_iff.1 hs
  have hworker : ∀ task ∈ schedule.tasks, ∃ part, job.work edges task = .ok part ∧
      part.Counts (job.taskShares edges task) := by
    intro task htask
    have hmem := hcomplete.mem_iff.1 htask
    obtain ⟨_, _, _, chunk, hchunk, rfl⟩ := mem_tasks.1 hmem
    exact counts_work (ne_nil_of_mem_chunks hchunk) ((countable_tasks hsize).2 hall _ hmem)
      (hcoherent.mono fun s hs => List.mem_flatMap.2 ⟨_, htask, hs⟩)
  obtain ⟨r, hr, hcounts⟩ := Schedule.counts_run hworker hcoherent
    fun s hs => fits_of_mem_allShares (hperm.mem_iff.1 hs)
  exact ⟨r, hr, hcounts.perm hperm⟩

/-- Where a schedule that works off every task succeeds, everything can be counted, and its results
count everything. -/
theorem counts_of_run_tasks {schedule : Schedule (Task R)} {r : Results R}
    (hvalid : job.validate = .ok ()) (hsize : 0 < job.cfg.sourcesPerTask)
    (hcomplete : schedule.tasks.Perm (job.tasks edges))
    (hrun : schedule.run (job.work edges) = .ok r) :
    job.AllCountable edges ∧ r.Counts (job.allShares edges) := by
  have hall : job.AllCountable edges := (countable_tasks hsize).1 fun task htask =>
    (Schedule.succeeds_of_run hrun task (hcomplete.mem_iff.2 htask)).elim
      fun _ hwork => countable_of_work hwork
  obtain ⟨r', hr', hcounts⟩ := counts_run_tasks hvalid hsize hcomplete hall
  rw [hrun, Except.ok.injEq] at hr'
  exact ⟨hall, hr' ▸ hcounts⟩

end SeismicHazard.Job

end
