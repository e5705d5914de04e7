import SeismicHazard.Config
import SeismicHazard.Proofs.Numeric.Exact

/-!
# Accepted settings

What settings have when they are not refused.
-/

noncomputable section

namespace SeismicHazard.Config

section Checked

variable {R : Type} [Scalar R] {cfg : Config R}

theorem validate_eq_ok_iff : cfg.validate = .ok () ↔ cfg.fault? = none := by
  rw [validate]
  cases cfg.fault? with
  | none => simp
  | some fault => simp

/-- Tasks have room for a source. -/
theorem sourcesPerTask_pos (hvalid : cfg.validate = .ok ()) : 0 < cfg.sourcesPerTask := by
  rw [validate_eq_ok_iff, fault?] at hvalid
  split at hvalid
  next => simp at hvalid
  next =>
    split_ifs at hvalid with _ _ hsize
    all_goals exact Nat.pos_of_ne_zero (by simpa using hsize)

/-- Settings stay accepted with tasks of another size. -/
theorem validate_resized (hvalid : cfg.validate = .ok ()) {n : Nat} (hn : 0 < n) :
    { cfg with sourcesPerTask := n }.validate = .ok () := by
  have hsize := sourcesPerTask_pos hvalid
  rw [validate_eq_ok_iff, fault?] at hvalid ⊢
  simpa only [lengths, beq_false_of_ne hsize.ne', beq_false_of_ne hn.ne'] using hvalid

end Checked

/-- Settings that can be run with. -/
structure Accepted (cfg : Config ℝ) : Prop where
  magBinWidth : 0 < cfg.magBinWidth
  distanceBinWidth : 0 < cfg.distanceBinWidth
  coordinateBinWidth : 0 < cfg.coordinateBinWidth
  maximumDistance : 0 < cfg.maximumDistance
  investigationTime : 0 < cfg.investigationTime
  truncationLevel : 0 < cfg.truncationLevel
  epsilonBins : 0 < cfg.epsilonBins
  sourcesPerTask : 0 < cfg.sourcesPerTask
  targets_ne_nil : cfg.targets ≠ []
  isTarget : ∀ poe ∈ cfg.targets, 0 < poe ∧ poe ≤ 1
  measures_ne_nil : cfg.measures ≠ []

variable {cfg : Config ℝ}

theorem isTarget_exact (poe : ℝ) : isTarget poe = true ↔ 0 < poe ∧ poe ≤ 1 := by
  simp [Config.isTarget]

theorem lengths_positive :
    cfg.lengths.find? (fun setting => !Scalar.isPositive setting.2) = none ↔
      0 < cfg.magBinWidth ∧ 0 < cfg.distanceBinWidth ∧ 0 < cfg.coordinateBinWidth ∧
        0 < cfg.maximumDistance ∧ 0 < cfg.investigationTime := by
  rw [List.find?_eq_none]
  simp [lengths, Scalar.isPositive_exact]

theorem targets_isTarget :
    cfg.targets.find? (fun poe => !isTarget poe) = none ↔
      ∀ poe ∈ cfg.targets, 0 < poe ∧ poe ≤ 1 := by
  rw [List.find?_eq_none]
  simp [isTarget_exact]

theorem fault?_eq_none : cfg.fault? = none ↔ cfg.Accepted := by
  unfold fault?
  constructor
  · intro hnone
    split at hnone
    next => simp at hnone
    next hlengths =>
      obtain ⟨hmag, hdist, hcoordinate, hmaximum, htime⟩ := lengths_positive.1 hlengths
      split_ifs at hnone with htruncation hepsilon hsize htargets hmeasures
      · split at hnone <;> simp at hnone
      · split at hnone
        next => simp at hnone
        next htarget =>
          refine ⟨hmag, hdist, hcoordinate, hmaximum, htime, ?_, ?_, ?_, ?_,
            targets_isTarget.1 htarget, ?_⟩
          · simpa [Scalar.isPositive_exact] using htruncation
          · simpa [Nat.pos_iff_ne_zero] using hepsilon
          · simpa [Nat.pos_iff_ne_zero] using hsize
          · simpa using htargets
          · simpa using hmeasures
  · intro h
    have hlengths := lengths_positive.2 ⟨h.magBinWidth, h.distanceBinWidth, h.coordinateBinWidth,
      h.maximumDistance, h.investigationTime⟩
    have htruncation := (Scalar.isPositive_exact _).2 h.truncationLevel
    simp [hlengths, htruncation, h.epsilonBins.ne', h.sourcesPerTask.ne', h.targets_ne_nil,
      targets_isTarget.2 h.isTarget, h.measures_ne_nil]

theorem validate_eq_ok : cfg.validate = .ok () ↔ cfg.Accepted :=
  validate_eq_ok_iff.trans fault?_eq_none

end SeismicHazard.Config

end
