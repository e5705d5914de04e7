import SeismicHazard.Job
import SeismicHazard.Proofs.Edges.Counts
import SeismicHazard.Proofs.Matrix.Sound

/-!
# The regions of a run

The regional axis of a matrix has one bin for each tectonic region that its key names, and at least
one. A matrix is made so, merging keeps its shape, and whichever way the tasks of a job are
scheduled, every matrix of a run comes about by making and merging.
-/

namespace SeismicHazard

variable {R : Type} [Scalar R]

/-! ## Keys and shapes -/

namespace Results

/-- The shape of every matrix goes with its key. -/
def Fit (P : ResultKey R → Shape → Prop) (results : Results R) : Prop :=
  ∀ entry ∈ results.entries, P entry.1 entry.2.shape

namespace Fit

variable {P : ResultKey R → Shape → Prop} {results other later : Results R}

theorem empty : Fit P SortedMap.empty :=
  fun _ hentry => absurd hentry List.not_mem_nil

theorem insert (hresults : results.Fit P) {key : ResultKey R} {m : Matrix R}
    (hm : P key m.shape) : Fit P (SortedMap.insert results key m) := by
  intro entry hentry
  rcases SortedMap.mem_put hentry with rfl | hold
  · exact hm
  · exact hresults entry hold

theorem of_add (hresults : results.Fit P) {key : ResultKey R} {m : Matrix R} (hm : P key m.shape)
    (hlater : results.add key m = .ok later) : later.Fit P := by
  unfold add at hlater
  split at hlater
  next =>
    rw [← Except.ok.inj hlater]
    exact hresults.insert hm
  next present _ =>
    obtain ⟨merged, hmerged, hlater⟩ := bind_eq_ok.1 hlater
    obtain ⟨hsame, _, hshape, _⟩ := Matrix.of_merge hmerged
    rw [← pure_eq_ok.1 hlater]
    apply hresults.insert
    rwa [hshape, hsame]

theorem of_addAll (hresults : results.Fit P) (hother : other.Fit P)
    (hlater : results.addAll other = .ok later) : later.Fit P := by
  apply step_of_foldlM (motive := fun _ acc => Fit P acc) hlater hresults
  intro before entry after acc next hsplit hacc hnext
  exact hacc.of_add (hother entry (by simp [hsplit])) hnext

theorem of_merge (hresults : results.Fit P) (hother : other.Fit P)
    (hlater : results.merge other = .ok later) : later.Fit P := by
  unfold merge at hlater
  split at hlater
  next => exact hother.of_addAll hresults hlater
  next => exact hresults.of_addAll hother hlater

end Fit

end Results

namespace Schedule

open Results

variable {τ : Type} {P : ResultKey R → Shape → Prop} {worker : τ → Except (Error R) (Results R)}

theorem fit_runSegment {tasks : List τ} {results : Results R}
    (hworker : ∀ t ∈ tasks, ∀ part, worker t = .ok part → part.Fit P)
    (hrun : runSegment worker tasks = .ok results) : results.Fit P := by
  apply step_of_foldlM (motive := fun _ acc => Fit P acc) hrun .empty
  intro before t after acc next hsplit hacc hnext
  obtain ⟨part, hpart, hmerge⟩ := bind_eq_ok.1 hnext
  exact hacc.of_merge (hworker t (by simp [hsplit]) part hpart) hmerge

/-- What a worker returns fits, and so does what a schedule makes of it. -/
theorem fit_run {schedule : Schedule τ} {results : Results R}
    (hworker : ∀ t ∈ schedule.tasks, ∀ part, worker t = .ok part → part.Fit P)
    (hrun : schedule.run worker = .ok results) : results.Fit P := by
  induction schedule generalizing results with
  | segment tasks => exact fit_runSegment hworker hrun
  | join left right ihl ihr =>
      have hall := List.forall_mem_append.1 hworker
      obtain ⟨a, ha, hrun⟩ := bind_eq_ok.1 hrun
      obtain ⟨b, hb, hmerge⟩ := bind_eq_ok.1 hrun
      exact (ihl hall.1 ha).of_merge (ihr hall.2 hb) hmerge

end Schedule

/-! ## Regions -/

/-- The regions that a key names are the bins of the regional axis, of which there is one. -/
structure ResultKey.Labels (key : ResultKey R) (shape : Shape) : Prop where
  length : key.regions.length = shape.trt
  nonempty : key.regions ≠ []

theorem Matrix.trt_pos_of_accumulate {m n : Matrix R} {cell : Cell} {pnes : List R}
    (hn : m.accumulate cell pnes = .ok n) : 0 < m.shape.trt := by
  obtain ⟨_, _, hn⟩ := bind_eq_ok.1 hn
  split at hn
  next => cases hn
  next place hplace =>
    have hholds := Shape.holds_iff.1 (Shape.holds_of_locate? hplace)
    exact Nat.zero_lt_of_lt hholds.2.2.2.2

namespace Arrangement

variable {key : TargetKey R} {edges : BinEdges R} {regions : Nat}

/-- Taking a contribution in keeps the regional axis, or makes it. -/
theorem trt_of_add {matrix? next : Option (Matrix R)} {placed : Contribution R × Cell}
    (hmatrix : ∀ m, matrix? = some m → m.shape.trt = regions ∧ 0 < regions)
    (hadd : add key edges regions matrix? placed = .ok next) :
    ∀ m, next = some m → m.shape.trt = regions ∧ 0 < regions := by
  unfold add at hadd
  split at hadd
  next =>
    rw [← Except.ok.inj hadd]
    exact hmatrix
  next bands _ =>
    obtain ⟨m, htrt, n, hn, hnext⟩ : ∃ m : Matrix R, m.shape.trt = regions ∧
        ∃ n, m.accumulate placed.2 bands.pnes = .ok n ∧ some n = next := by
      cases matrix? with
      | some present =>
          obtain ⟨m, hm, hadd⟩ := bind_eq_ok.1 hadd
          obtain rfl := pure_eq_ok.1 hm
          exact ⟨_, (hmatrix _ rfl).1, map_eq_ok.1 hadd⟩
      | none =>
          obtain ⟨shape, hshape, hadd⟩ := bind_eq_ok.1 hadd
          obtain ⟨m, hm, hadd⟩ := bind_eq_ok.1 hadd
          obtain rfl := Matrix.of_create hm
          exact ⟨_, (BinEdges.shape_eq_ok hshape).2.2.2.2.1, map_eq_ok.1 hadd⟩
    obtain ⟨_, hsame, _⟩ := Matrix.of_accumulate hn
    intro r hr
    rw [← hnext, Option.some.injEq] at hr
    rw [← hr, hsame]
    exact ⟨htrt, htrt ▸ Matrix.trt_pos_of_accumulate hn⟩

theorem trt_of_matrix? {contributions : List (Contribution R)} {cells : List Cell} {m : Matrix R}
    (hm : matrix? contributions cells key edges regions = .ok (some m)) :
    m.shape.trt = regions ∧ 0 < regions := by
  refine step_of_foldlM (motive := fun _ (matrix? : Option (Matrix R)) =>
    ∀ m, matrix? = some m → m.shape.trt = regions ∧ 0 < regions) hm ?_ ?_ m rfl
  · exact fun m hm => by cases hm
  · exact fun _ _ _ _ _ _ hmatrix hnext => trt_of_add hmatrix hnext

end Arrangement

namespace Collection

variable [NormalCdf R] {ctx : SiteContext R} {site : Site R}

omit [NormalCdf R] in
theorem labels_addTarget {contributions : List (Contribution R)} {cells : List Cell}
    {results next : Results R} {target : Target R} (hresults : results.Fit ResultKey.Labels)
    (hnext : addTarget site ctx contributions cells results target = .ok next) :
    next.Fit ResultKey.Labels := by
  obtain ⟨matrix?, hmatrix, hnext⟩ := bind_eq_ok.1 hnext
  split at hnext
  next =>
    rw [← pure_eq_ok.1 hnext]
    exact hresults
  next m =>
    obtain ⟨htrt, hpos⟩ := Arrangement.trt_of_matrix? hmatrix
    have hlabels : (resultKey site ctx target.key).Labels m.shape :=
      ⟨htrt.symm, List.ne_nil_of_length_pos hpos⟩
    exact hresults.of_add hlabels hnext

/-- The keys of a collection name the regions of its context, and so the axis of its matrices. -/
theorem labels_collect {sources : List (Source R)} {results : Results R}
    (hcollect : collect sources site ctx = .ok results) : results.Fit ResultKey.Labels := by
  obtain ⟨targets, _, hcollect⟩ := bind_eq_ok.1 hcollect
  split at hcollect
  next =>
    rw [← pure_eq_ok.1 hcollect]
    exact .empty
  next =>
    obtain ⟨groups, _, hcollect⟩ := bind_eq_ok.1 hcollect
    split at hcollect
    next =>
      rw [← pure_eq_ok.1 hcollect]
      exact .empty
    next =>
      obtain ⟨contributions, _, hcollect⟩ := bind_eq_ok.1 hcollect
      obtain ⟨cells, _, htally⟩ := bind_eq_ok.1 hcollect
      apply step_of_foldlM (motive := fun _ acc => Results.Fit ResultKey.Labels acc) htally .empty
      exact fun _ _ _ _ _ _ hacc hnext => labels_addTarget hacc hnext

end Collection

namespace Job

variable [NormalCdf R] {job : Job R}

theorem labels_work {edges : EdgeTable R} {task : Task R} {results : Results R}
    (hwork : job.work edges task = .ok results) : results.Fit ResultKey.Labels := by
  apply step_of_foldlM (motive := fun _ acc => Results.Fit ResultKey.Labels acc) hwork .empty
  intro before site after acc next _ hacc hnext
  unfold addSite at hnext
  split at hnext
  next =>
    rw [← Except.ok.inj hnext]
    exact hacc
  next siteEdges _ =>
    obtain ⟨part, hpart, hmerge⟩ := bind_eq_ok.1 hnext
    exact hacc.of_merge (Collection.labels_collect hpart) hmerge

/-- The keys of a run name the regions of their matrices. -/
theorem labels_runWith {schedule : List (Task R) → Schedule (Task R)} {run : Run R}
    (hrun : job.runWith schedule = .ok run) : run.results.Fit ResultKey.Labels := by
  obtain ⟨_, _, hrun⟩ := bind_eq_ok.1 hrun
  obtain ⟨edges, _, hrun⟩ := bind_eq_ok.1 hrun
  obtain ⟨results, hresults, hrun⟩ := bind_eq_ok.1 hrun
  rw [← pure_eq_ok.1 hrun]
  exact Schedule.fit_run (fun _ _ _ hpart => labels_work hpart) hresults

end Job

end SeismicHazard
