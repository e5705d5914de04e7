import SeismicHazard.Proofs.Failure
import SeismicHazard.Proofs.Results.Parts
import SeismicHazard.Results.Schedule

/-!
# Results whose keys tell their shapes

Where the key of a matrix tells its shape, and every matrix holds probabilities, results can always
be merged. A schedule then fails only where the worker fails on a task.
-/

noncomputable section

namespace SeismicHazard

variable {R : Type} [Scalar R] {frame : ResultKey R → Shape → Prop}

/-- Only one shape goes with a key. -/
def OneFrame (frame : ResultKey R → Shape → Prop) : Prop :=
  ∀ key s t, frame key s → frame key t → s = t

namespace Results

/-- Every matrix holds probabilities and has a shape that goes with its key. -/
def Shaped (frame : ResultKey R → Shape → Prop) (results : Results R) : Prop :=
  ∀ key m, results.get? key = some m → m.Sound ∧ frame key m.shape

namespace Shaped

variable {a b : Results R}

theorem empty : Shaped frame SortedMap.empty := by
  intro key m hm
  simp at hm

variable [KeyRules R]

theorem insert (ha : a.Shaped frame) {key : ResultKey R} {m : Matrix R} (hm : m.Sound)
    (hframe : frame key m.shape) : Shaped frame (a.insert key m) :=
  SortedMap.forall_insert ha ⟨hm, hframe⟩

variable [ProbabilityRules R]

omit [KeyRules R] in
theorem joined (hframes : OneFrame frame) (ha : a.Shaped frame) (hb : b.Shaped frame)
    (key : ResultKey R) :
    ∃ both, Results.joined (a.get? key) (b.get? key) = .ok both ∧
      ∀ r, both = some r → r.Sound ∧ frame key r.shape := by
  cases hm : a.get? key with
  | none => exact ⟨b.get? key, joined_none_left _, hb key⟩
  | some m =>
      cases hn : b.get? key with
      | none => exact ⟨some m, joined_none_right _, fun r hr => ha key r (hm.trans hr)⟩
      | some n =>
          have ⟨hsound, hshape⟩ := ha key m hm
          have ⟨hsound', hshape'⟩ := hb key n hn
          have hsame : m.shape = n.shape := hframes key _ _ hshape hshape'
          refine ⟨some (m.times n hsame), ?_, ?_⟩
          · exact joined_some_some.2 ⟨_, hsound'.merge_eq_ok.2 ⟨hsame, rfl⟩, rfl⟩
          · intro r hr
            rw [← Option.some.inj hr]
            exact ⟨hsound.times hsound' hsame, hshape⟩

theorem addAll (hframes : OneFrame frame) (ha : a.Shaped frame) (hb : b.Shaped frame) :
    ∃ r, a.addAll b = .ok r ∧ r.Shaped frame := by
  have hjoined := joined hframes ha hb
  obtain ⟨r, hr⟩ := exists_addAll fun key => (hjoined key).imp fun _ h => h.1
  refine ⟨r, hr, fun key m hm => ?_⟩
  obtain ⟨both, hboth, hall⟩ := hjoined key
  rw [get?_addAll hr key, Except.ok.injEq] at hboth
  exact hall m (hboth ▸ hm)

/-- Results of this kind can be merged. -/
theorem merge (hframes : OneFrame frame) (ha : a.Shaped frame) (hb : b.Shaped frame) :
    ∃ r, a.merge b = .ok r ∧ r.Shaped frame := by
  rw [Results.merge]
  split
  next => exact hb.addAll hframes ha
  next => exact ha.addAll hframes hb

/-- A matrix of probabilities can be added under a key that its shape goes with. -/
theorem add (hframes : OneFrame frame) (ha : a.Shaped frame) {key : ResultKey R} {m : Matrix R}
    (hm : m.Sound) (hframe : frame key m.shape) :
    ∃ r, a.add key m = .ok r ∧ r.Shaped frame := by
  have hsingle : Shaped frame (SortedMap.empty.insert key m) := empty.insert hm hframe
  rw [← addAll_single]
  exact ha.addAll hframes hsingle

end Shaped

end Results

namespace Schedule

variable [KeyRules R] [ProbabilityRules R] {τ : Type} {E : Error R → Prop}
  {worker : τ → Except (Error R) (Results R)}

theorem ends_runSegment (hframes : OneFrame frame) {tasks : List τ}
    (hworker : ∀ t ∈ tasks, Ends E (Results.Shaped frame) (worker t)) :
    Ends E (Results.Shaped frame) (runSegment worker tasks) := by
  apply Ends.foldlM (motive := fun _ acc => Results.Shaped frame acc) .empty
  intro before t after acc hsplit hacc
  apply (hworker t (by simp [hsplit])).bind
  intro part _ hpart
  exact .of_succeeds (hacc.merge hframes hpart)

/-- A schedule fails only where the worker does. -/
theorem ends_run (hframes : OneFrame frame) {schedule : Schedule τ}
    (hworker : ∀ t ∈ schedule.tasks, Ends E (Results.Shaped frame) (worker t)) :
    Ends E (Results.Shaped frame) (schedule.run worker) := by
  induction schedule with
  | segment tasks => exact ends_runSegment hframes hworker
  | join left right ihl ihr =>
      have hall := List.forall_mem_append.1 hworker
      apply (ihl hall.1).bind
      intro a _ ha
      apply (ihr hall.2).bind
      intro b _ hb
      exact .of_succeeds (ha.merge hframes hb)

end Schedule

end SeismicHazard

end
