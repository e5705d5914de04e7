import SeismicHazard.Proofs.Matrix.Built
import SeismicHazard.Proofs.Numeric.Products
import SeismicHazard.Proofs.Results.Merge

/-!
# Results that multiply the same factors

Two runs that take the same ruptures in another order have results under the same keys, of the same
shapes and levels, whose cells multiply the same factors. That is all there is to say where products
round. Where they do not, such results are equal.
-/

namespace SeismicHazard

variable {R : Type} [Scalar R]

/-- Two matrices of one shape and level whose cells multiply the same factors. -/
structure Matrix.SameFactors (m n : Matrix R) : Prop where
  shape : m.shape = n.shape
  level : m.level = n.level
  pne : ∀ c eps, m.shape.holds c = true → eps < m.shape.eps →
    ∃ factors, IsProduct factors (m.pne c eps) ∧ IsProduct factors (n.pne c eps)

theorem Matrix.SameFactors.eq [ExactRules R] {m n : Matrix R} (h : m.SameFactors n) : m = n := by
  refine ext_pne h.shape h.level fun c eps hcell heps => ?_
  obtain ⟨_, hm, hn⟩ := h.pne c eps hcell heps
  exact hm.unique hn

namespace Results

/-- Two results with the same keys, under each of which their matrices multiply the same factors. -/
def SameFactors (a b : Results R) : Prop :=
  ∀ key, Option.Rel Matrix.SameFactors (a.get? key) (b.get? key)

theorem SameFactors.eq [KeyRules R] [ExactRules R] {a b : Results R} (h : a.SameFactors b) :
    a = b := by
  refine SortedMap.ext_get? fun key => ?_
  have hkey := h key
  generalize a.get? key = m?, b.get? key = n? at hkey ⊢
  cases hkey with
  | none => rfl
  | some hmatrix => rw [hmatrix.eq]

end Results

end SeismicHazard
