import SeismicHazard.Proofs.Matrix.Product

/-!
# Matrices that are built

A matrix starts without exceedance or with given ones, takes ruptures in, and is merged with other
matrices. Whatever is refused on the way, the matrix that is left holds probabilities.
-/

namespace SeismicHazard.Matrix

open Scalar

variable {R : Type} [Scalar R] {m n r : Matrix R}

theorem ofExceedances_eq_ok {shape : Shape} {level : R} {poes : Array R} :
    ofExceedances shape level poes = .ok m ↔
      shape.reserve (R := R) = .ok () ∧ (∀ p ∈ poes.toList, isProbability p = true) ∧
        m.shape = shape ∧ m.level = level ∧ m.nonExceedance = poes.map fun p => 1 - p := by
  rw [← checkProbabilities_eq_ok_iff]
  by_cases hsize : poes.size = shape.size
  · rw [ofExceedances, dif_pos hsize]
    simp only [bind_eq_ok, pure_eq_ok]
    constructor
    · rintro ⟨_, hreserve, _, hcheck, rfl⟩
      exact ⟨hreserve, hcheck, rfl, rfl, rfl⟩
    · rintro ⟨hreserve, hcheck, hshape, hlevel, hvalues⟩
      refine ⟨(), hreserve, (), hcheck, ?_⟩
      cases m
      subst hshape hlevel hvalues
      rfl
  · rw [ofExceedances, dif_neg hsize]
    refine ⟨by simp, ?_⟩
    -- a matrix has as many values as its shape has cells
    rintro ⟨_, _, rfl, _, hvalues⟩
    refine absurd ?_ hsize
    rw [← m.size_eq, hvalues, Array.size_map]

/-- Matrices that operations on matrices lead to. -/
inductive Built : Matrix R → Prop
  | empty (shape : Shape) (level : R) : Built (empty shape level)
  | ofExceedances {shape : Shape} {level : R} {poes : Array R} {m : Matrix R}
      (hm : ofExceedances shape level poes = .ok m) : Built m
  | accumulate {m m' : Matrix R} {cell : Cell} {pnes : List R} (hm : Built m)
      (hstep : m.accumulate cell pnes = .ok m') : Built m'
  | merge {m n r : Matrix R} (hm : Built m) (hn : Built n) (hstep : m.merge n = .ok r) : Built r

namespace Sound

/-- Matrices of probabilities can be merged exactly when they have the same shape. -/
theorem merge_eq_ok (hn : n.Sound) :
    m.merge n = .ok r ↔ ∃ hshape : m.shape = n.shape, r = m.times n hshape := by
  rw [Matrix.merge_eq_ok]
  simp only [hn.checkProbabilities, true_and]

variable [ProbabilityRules R]

theorem multiplied (hm : m.Sound) {place : Cell} {pnes : List R}
    (hplace : m.shape.holds place = true) (hlength : m.shape.eps = pnes.length)
    (hpnes : ∀ p ∈ pnes, isProbability p = true) : (m.multiplied place pnes).Sound :=
  (hm.of_accumulate
    (accumulate_eq_ok.2 ⟨hpnes, hlength, place, Shape.locate?_of_holds hplace, rfl⟩)).1

theorem times (hm : m.Sound) (hn : n.Sound) (hshape : m.shape = n.shape) :
    (m.times n hshape).Sound :=
  (hm.of_merge (hn.merge_eq_ok.2 ⟨hshape, rfl⟩)).1

end Sound

theorem Built.sound [ProbabilityRules R] (hm : m.Built) : m.Sound := by
  induction hm with
  | empty shape level => exact sound_empty shape level
  | ofExceedances hm => exact sound_of_ofExceedances hm
  | accumulate _ hstep ih => exact (ih.of_accumulate hstep).1
  | merge _ _ hstep ih _ => exact (ih.of_merge hstep).1

/-! ## Exact numbers -/

theorem ofExceedances_exact {m : Matrix ℝ} {shape : Shape} {level : ℝ} {poes : Array ℝ} :
    ofExceedances shape level poes = .ok m ↔
      shape.reserve (R := ℝ) = .ok () ∧ (∀ p ∈ poes.toList, 0 ≤ p ∧ p ≤ 1) ∧
        m.shape = shape ∧ m.level = level ∧ m.nonExceedance = poes.map fun p => 1 - p := by
  rw [ofExceedances_eq_ok]
  simp only [isProbability_exact, one_exact]

theorem Built.lawful {m : Matrix ℝ} (hm : m.Built) : m.Lawful := lawful_iff_sound.2 hm.sound

end SeismicHazard.Matrix
