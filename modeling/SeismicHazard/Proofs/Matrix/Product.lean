import SeismicHazard.Proofs.Matrix.Values

/-!
# Matrices of exact numbers

At exact numbers a probability lies between zero and one, and a cell that a rupture does not fall
into is multiplied by one.
-/

noncomputable section

namespace SeismicHazard

namespace Matrix

/-- Every cell holds a probability. -/
def Lawful (m : Matrix ℝ) : Prop :=
  ∀ c eps, m.shape.holds c = true → eps < m.shape.eps → 0 ≤ m.pne c eps ∧ m.pne c eps ≤ 1

theorem lawful_iff_sound {m : Matrix ℝ} : m.Lawful ↔ m.Sound := by
  simp only [sound_iff_pne, Scalar.isProbability_exact, Lawful]

theorem exceedanceAt_exact {m : Matrix ℝ} {c : Cell} {eps : Nat} (hcell : m.shape.holds c = true)
    (heps : eps < m.shape.eps) : m.exceedanceAt c eps = .ok (1 - m.pne c eps) := by
  rw [exceedanceAt_eq hcell heps, Scalar.one_exact]

/-- Taking a rupture in multiplies every cell, all but the one of the rupture by one. -/
theorem pne_multiplied {m : Matrix ℝ} {place c : Cell} {eps : Nat} {pnes : List ℝ}
    (hplace : m.shape.holds place = true) (hlength : m.shape.eps = pnes.length)
    (hcell : m.shape.holds c = true) (heps : eps < m.shape.eps) :
    (m.multiplied place pnes).pne c eps =
      m.pne c eps * if c = place then pnes.getD eps 1 else 1 := by
  by_cases hc : c = place
  · subst hc
    have hlt : eps < pnes.length := hlength ▸ heps
    rw [if_pos rfl, List.getD_eq_getElem _ _ hlt]
    exact pne_multiplied_self hcell heps (List.getElem?_eq_getElem hlt)
  · rw [if_neg hc, mul_one, pne_multiplied_of_ne hplace hlength hcell heps hc]

end Matrix

end SeismicHazard

end
