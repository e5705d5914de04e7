import SeismicHazard.Proofs.Matrix.Sound
import SeismicHazard.Proofs.SortedMap
import SeismicHazard.Results

/-!
# What operations on results keep

Adding and merging leave results of which every matrix is one of probabilities, and what the results
that are added to have under a key grows to what is there afterwards.
-/

namespace SeismicHazard

variable {R : Type} [Scalar R]

namespace Results

/-- Every matrix of the results is a matrix of probabilities. -/
def Sound (results : Results R) : Prop :=
  ∀ entry ∈ results.entries, entry.2.Sound

/-- What the first results have under a key has grown to what the second ones have there. -/
def GrowsTo (results later : Results R) : Prop :=
  ∀ key m, results.get? key = some m → ∃ n, later.get? key = some n ∧ m.GrowsTo n

variable {results other later : Results R} {key : ResultKey R} {m : Matrix R}

theorem sound_empty : Sound (SortedMap.empty : Results R) := by
  intro entry hentry
  simp [SortedMap.empty] at hentry

theorem Sound.of_get? (hresults : results.Sound) (hfound : results.get? key = some m) :
    m.Sound := by
  obtain ⟨key', hmem⟩ := SortedMap.exists_mem_of_get? hfound
  exact hresults _ hmem

theorem GrowsTo.trans [ProbabilityRules R] (hfirst : results.GrowsTo other)
    (hsecond : other.GrowsTo later) : results.GrowsTo later := by
  intro key m hm
  obtain ⟨n, hn, hgrows⟩ := hfirst key m hm
  obtain ⟨r, hr, hgrows'⟩ := hsecond key n hn
  exact ⟨r, hr, hgrows.trans hgrows'⟩

theorem Sound.refl [ProbabilityRules R] (hresults : results.Sound) : results.GrowsTo results := by
  intro key m hm
  exact ⟨m, hm, (hresults.of_get? hm).refl⟩

theorem Sound.insert (hresults : results.Sound) (hm : m.Sound) :
    Sound (SortedMap.insert results key m) := by
  intro entry hentry
  rcases SortedMap.mem_put hentry with rfl | hold
  · exact hm
  · exact hresults entry hold

variable [ProbabilityRules R]

/-- A matrix that has grown may take the place of the one it has grown from. -/
theorem Sound.growsTo_insert (hresults : results.Sound)
    (hm : ∀ present, results.get? key = some present → present.GrowsTo m) :
    results.GrowsTo (SortedMap.insert results key m) := by
  intro key' present hpresent
  rw [SortedMap.get?_insert_compare]
  split
  next heq =>
    rw [SortedMap.get?_congr results heq] at hpresent
    exact ⟨m, rfl, hm present hpresent⟩
  next => exact ⟨present, hpresent, (hresults.of_get? hpresent).refl⟩

theorem Sound.of_add (hresults : results.Sound) (hm : m.Sound)
    (hlater : results.add key m = .ok later) : later.Sound ∧ results.GrowsTo later := by
  unfold add at hlater
  split at hlater
  next hnew =>
    obtain rfl := Except.ok.inj hlater
    exact ⟨hresults.insert hm, hresults.growsTo_insert fun present h => by simp [hnew] at h⟩
  next present hpresent =>
    obtain ⟨merged, hmerged, hlater⟩ := bind_eq_ok.1 hlater
    obtain rfl := pure_eq_ok.1 hlater
    obtain ⟨hsound, hgrows⟩ := (hresults.of_get? hpresent).of_merge hmerged
    refine ⟨hresults.insert hsound, hresults.growsTo_insert fun present' h => ?_⟩
    obtain rfl := Option.some.inj (hpresent.symm.trans h)
    exact hgrows

theorem Sound.of_addAll (hresults : results.Sound) (hother : other.Sound)
    (hlater : results.addAll other = .ok later) : later.Sound ∧ results.GrowsTo later := by
  apply step_of_foldlM (motive := fun _ acc => acc.Sound ∧ results.GrowsTo acc) hlater
  · exact ⟨hresults, hresults.refl⟩
  · rintro before entry after acc next hsplit ⟨hacc, hgrows⟩ hnext
    have hentry : entry.2.Sound := hother entry (by simp [hsplit])
    obtain ⟨hsound, hstep⟩ := hacc.of_add hentry hnext
    exact ⟨hsound, hgrows.trans hstep⟩

/-- Of two results that are merged, the larger ones grow to the outcome. -/
theorem Sound.of_merge (hresults : results.Sound) (hother : other.Sound)
    (hlater : results.merge other = .ok later) :
    later.Sound ∧ (if results.size < other.size then other else results).GrowsTo later := by
  unfold merge at hlater
  split at hlater
  next hlt =>
    rw [if_pos hlt]
    exact hother.of_addAll hresults hlater
  next hle =>
    rw [if_neg hle]
    exact hresults.of_addAll hother hlater

end Results

end SeismicHazard
