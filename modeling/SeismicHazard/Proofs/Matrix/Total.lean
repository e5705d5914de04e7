import SeismicHazard.Proofs.Matrix.Product

/-!
# Products over whole matrices

The product of all values of a matrix. Taking a rupture in multiplies it by the product of what the
rupture puts into its cell, wherever that cell is.
-/

noncomputable section

namespace SeismicHazard.Matrix

/-- The product of all values of a matrix. -/
def total (m : Matrix ℝ) : ℝ := m.nonExceedance.toList.prod

@[simp] theorem total_empty (shape : Shape) (level : ℝ) : (empty shape level).total = 1 := by
  simp [total, empty]

theorem prod_modify {values : List ℝ} {i : Nat} (hi : i < values.length) (factor : ℝ) :
    (values.modify i (fun p => p * factor)).prod = values.prod * factor := by
  induction values generalizing i with
  | nil => simp at hi
  | cons value rest ih =>
      cases i with
      | zero => simp only [List.modify_zero_cons, List.prod_cons]; ring
      | succ i =>
          rw [List.modify_succ_cons, List.prod_cons, List.prod_cons,
            ih (Nat.lt_of_succ_lt_succ hi), mul_assoc]

theorem prod_multiplyFrom {start : Nat} {factors : List ℝ} {values : Array ℝ}
    (hroom : start + factors.length ≤ values.size) :
    (multiplyFrom start factors values).toList.prod = values.toList.prod * factors.prod := by
  induction factors generalizing start values with
  | nil => simp [multiplyFrom]
  | cons factor factors ih =>
      rw [List.length_cons] at hroom
      rw [multiplyFrom, ih (by rw [Array.size_modify]; omega), Array.toList_modify,
        prod_modify (by rw [Array.length_toList]; omega), List.prod_cons, mul_assoc]

theorem total_multiplied {m : Matrix ℝ} {place : Cell} {pnes : List ℝ}
    (hplace : m.shape.holds place = true) (hlength : m.shape.eps = pnes.length) :
    (m.multiplied place pnes).total = m.total * pnes.prod := by
  apply prod_multiplyFrom
  -- the last epsilon bin of the cell is one of the matrix
  rcases Nat.eq_zero_or_pos m.shape.eps with hnone | hpos
  · rw [← hlength, hnone, Shape.index, hnone]
    simp
  · have hlast := Shape.index_lt hplace (Nat.sub_one_lt hpos.ne')
    rw [Shape.index_eq_add] at hlast
    rw [m.size_eq, ← hlength]
    omega

end SeismicHazard.Matrix

end
