import SeismicHazard.Proofs.Results.Shares
import SeismicHazard.Results.Schedule

/-!
# Results do not depend on the schedule

A schedule succeeds exactly when the worker succeeds on every task, and its results count the shares
of all tasks. The segments, the tree in which they are combined and empty segments leave no trace.
-/

noncomputable section

namespace SeismicHazard.Schedule

open Share

variable {R τ : Type}

/-- A way of scheduling that works off every task once, in segments of any size and any order. -/
def Complete (schedule : List τ → Schedule τ) : Prop :=
  ∀ tasks, (schedule tasks).tasks.Perm tasks

theorem complete_executor (executor : Executor) :
    Complete (executor.schedule : List τ → Schedule τ) := by
  intro tasks
  cases executor with
  | sequential => exact .refl _
  | parallel =>
      rw [Executor.schedule, halves]
      split
      next => exact .refl _
      next =>
        rw [Schedule.tasks, Schedule.tasks, Schedule.tasks, List.take_append_drop]

variable [Scalar R] {worker : τ → Except (Error R) (Results R)} {shares : τ → List (Share R)}

theorem succeeds_of_runSegment {tasks : List τ} {r : Results R}
    (hrun : runSegment worker tasks = .ok r) : ∀ t ∈ tasks, Succeeds (worker t) := by
  refine step_of_foldlM (motive := fun before _ => ∀ t ∈ before, Succeeds (worker t)) hrun
    (by simp) ?_
  intro before t after acc next _ hbefore hnext s hs
  rcases List.mem_append.1 hs with h | h
  · exact hbefore s h
  · obtain ⟨part, hpart, _⟩ := bind_eq_ok.1 hnext
    exact ⟨part, by rw [List.mem_singleton.1 h, hpart]⟩

/-- Where a schedule succeeds, so does the worker on every task. -/
theorem succeeds_of_run {schedule : Schedule τ} {r : Results R}
    (hrun : schedule.run worker = .ok r) : ∀ t ∈ schedule.tasks, Succeeds (worker t) := by
  induction schedule generalizing r with
  | segment tasks => exact succeeds_of_runSegment hrun
  | join left right ihl ihr =>
      obtain ⟨a, ha, hrun⟩ := bind_eq_ok.1 hrun
      obtain ⟨b, hb, _⟩ := bind_eq_ok.1 hrun
      intro t ht
      rcases List.mem_append.1 ht with h | h
      · exact ihl ha t h
      · exact ihr hb t h

variable [KeyRules R] [ProbabilityRules R]

theorem counts_runSegment {tasks : List τ}
    (hworker : ∀ t ∈ tasks, ∃ r, worker t = .ok r ∧ r.Counts (shares t))
    (hcoherent : Coherent (tasks.flatMap shares)) (hfits : ∀ s ∈ tasks.flatMap shares, s.Fits) :
    ∃ r, runSegment worker tasks = .ok r ∧ r.Counts (tasks.flatMap shares) := by
  refine foldlM_of_step
    (motive := fun before (acc : Results R) => acc.Counts (before.flatMap shares)) .empty ?_
  intro before t after acc hsplit hacc
  obtain ⟨part, hpart, hcounts⟩ := hworker t (by simp [hsplit])
  have hsub : ∀ s ∈ before.flatMap shares ++ shares t, s ∈ tasks.flatMap shares := by
    intro s hs
    rw [hsplit, List.flatMap_append, List.flatMap_cons, ← List.append_assoc]
    exact List.mem_append_left _ hs
  obtain ⟨next, hnext, hboth⟩ := hacc.merge hcounts (hcoherent.mono hsub)
    fun s hs => hfits s (hsub s hs)
  refine ⟨next, bind_eq_ok.2 ⟨part, hpart, hnext⟩, ?_⟩
  simpa using hboth

/-- Where the worker succeeds on every task, so does every schedule, and the results count the
shares of all tasks. -/
theorem counts_run {schedule : Schedule τ}
    (hworker : ∀ t ∈ schedule.tasks, ∃ r, worker t = .ok r ∧ r.Counts (shares t))
    (hcoherent : Coherent (schedule.tasks.flatMap shares))
    (hfits : ∀ s ∈ schedule.tasks.flatMap shares, s.Fits) :
    ∃ r, schedule.run worker = .ok r ∧ r.Counts (schedule.tasks.flatMap shares) := by
  induction schedule with
  | segment tasks => exact counts_runSegment hworker hcoherent hfits
  | join left right ihl ihr =>
      simp only [tasks, List.flatMap_append, List.forall_mem_append] at *
      obtain ⟨a, ha, hacounts⟩ := ihl hworker.1
        (hcoherent.mono fun s hs => List.mem_append_left _ hs) hfits.1
      obtain ⟨b, hb, hbcounts⟩ := ihr hworker.2
        (hcoherent.mono fun s hs => List.mem_append_right _ hs) hfits.2
      obtain ⟨r, hr, hcounts⟩ := hacounts.merge hbcounts hcoherent
        (List.forall_mem_append.2 hfits)
      exact ⟨r, bind_eq_ok.2 ⟨a, ha, bind_eq_ok.2 ⟨b, hb, hr⟩⟩, hcounts⟩

end SeismicHazard.Schedule

end
