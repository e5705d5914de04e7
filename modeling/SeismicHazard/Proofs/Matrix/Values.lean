import SeismicHazard.Proofs.Matrix.Sound

/-!
# Matrices cell by cell

A matrix is a function from cells and epsilon bins to non-exceedances. Taking a rupture in
multiplies the values of one cell, merging multiplies all values, and both are refused only for
values that are no probabilities or for a cell or shape that does not fit.
-/

namespace SeismicHazard.Matrix

open Scalar

variable {R : Type} [Scalar R]

/-- The non-exceedance of a cell and epsilon bin. Where there is no such cell it is certain. -/
def pne (m : Matrix R) (c : Cell) (eps : Nat) : R :=
  m.nonExceedance[m.shape.index c eps]?.getD 1

theorem getElem?_index {m : Matrix R} {c : Cell} {eps : Nat} (hcell : m.shape.holds c = true)
    (heps : eps < m.shape.eps) : m.nonExceedance[m.shape.index c eps]? = some (m.pne c eps) := by
  have hlt : m.shape.index c eps < m.nonExceedance.size := m.size_eq ▸ Shape.index_lt hcell heps
  simp [pne, hlt]

theorem exceedanceAt_eq {m : Matrix R} {c : Cell} {eps : Nat} (hcell : m.shape.holds c = true)
    (heps : eps < m.shape.eps) : m.exceedanceAt c eps = .ok (1 - m.pne c eps) := by
  simp [exceedanceAt, hcell, heps, getElem?_index hcell heps]

/-- Matrices of one shape and level are equal when their cells are. -/
theorem ext_pne {m n : Matrix R} (hshape : m.shape = n.shape) (hlevel : m.level = n.level)
    (hpne : ∀ c eps, m.shape.holds c = true → eps < m.shape.eps → m.pne c eps = n.pne c eps) :
    m = n := by
  have hvalues : m.nonExceedance = n.nonExceedance := by
    apply Array.ext_getElem?
    intro i
    by_cases hi : i < m.shape.size
    · obtain ⟨c, eps, hcell, heps, rfl⟩ := Shape.exists_index hi
      rw [getElem?_index hcell heps, hpne c eps hcell heps, hshape,
        getElem?_index (hshape ▸ hcell) (hshape ▸ heps)]
    · rw [Array.getElem?_eq_none (by simpa [m.size_eq] using hi),
        Array.getElem?_eq_none (by simpa [n.size_eq, ← hshape] using hi)]
  cases m
  cases n
  cases hshape
  cases hlevel
  cases hvalues
  rfl

@[simp] theorem pne_empty (shape : Shape) (level : R) (c : Cell) (eps : Nat) :
    (empty shape level).pne c eps = 1 := by
  simp only [pne, empty, Array.getElem?_replicate]
  split <;> rfl

/-- The cells of a matrix are all of its values. -/
theorem sound_iff_pne {m : Matrix R} : m.Sound ↔ ∀ c eps, m.shape.holds c = true →
    eps < m.shape.eps → isProbability (m.pne c eps) = true := by
  constructor
  · exact fun hm c eps hcell heps => hm _ (Array.mem_of_getElem? (getElem?_index hcell heps))
  · intro hm p hp
    obtain ⟨i, hi, rfl⟩ := Array.mem_iff_getElem.1 hp
    obtain ⟨c, eps, hcell, heps, rfl⟩ := Shape.exists_index (m.size_eq ▸ hi)
    have hvalue := getElem?_index hcell heps
    rw [Array.getElem?_eq_getElem hi] at hvalue
    rw [Option.some.inj hvalue]
    exact hm c eps hcell heps

theorem create_eq_ok {shape : Shape} {level : R} {m : Matrix R} :
    create shape level = .ok m ↔ shape.reserve (R := R) = .ok () ∧ m = empty shape level := by
  rw [create, bind_eq_ok]
  simp only [pure_eq_ok, eq_comm (a := empty shape level)]
  constructor
  · rintro ⟨_, hreserve, hm⟩
    exact ⟨hreserve, hm⟩
  · rintro ⟨hreserve, hm⟩
    exact ⟨(), hreserve, hm⟩

/-! ## Taking a rupture in -/

/-- The matrix after non-exceedances by bin have been multiplied into a cell. -/
def multiplied (m : Matrix R) (place : Cell) (pnes : List R) : Matrix R :=
  { m with
    nonExceedance := multiplyFrom (m.shape.index place 0) pnes m.nonExceedance
    size_eq := by rw [size_multiplyFrom]; exact m.size_eq }

@[simp] theorem shape_multiplied (m : Matrix R) (place : Cell) (pnes : List R) :
    (m.multiplied place pnes).shape = m.shape := rfl

theorem accumulate_eq_ok {m m' : Matrix R} {cell : Cell} {pnes : List R} :
    m.accumulate cell pnes = .ok m' ↔
      (∀ p ∈ pnes, isProbability p = true) ∧ m.shape.eps = pnes.length ∧
      ∃ place, m.shape.locate? cell = some place ∧ m' = m.multiplied place pnes := by
  rw [← checkProbabilities_eq_ok_iff, accumulate, bind_eq_ok]
  cases hplace : m.shape.locate? cell with
  | none => simp
  | some place =>
      by_cases heps : m.shape.eps = pnes.length
      · simp only [heps, bne_self_eq_false, Bool.false_eq_true, if_false, Except.ok.injEq,
          Option.some.injEq, exists_eq_left', true_and]
        constructor
        · rintro ⟨_, hcheck, rfl⟩
          exact ⟨hcheck, rfl⟩
        · rintro ⟨hcheck, rfl⟩
          exact ⟨(), hcheck, rfl⟩
      · simp [heps]

/-- Taking a rupture in multiplies the values of its cell, bin by bin. -/
theorem pne_multiplied_self {m : Matrix R} {place : Cell} {eps : Nat} {pnes : List R} {p : R}
    (hplace : m.shape.holds place = true) (heps : eps < m.shape.eps) (hp : pnes[eps]? = some p) :
    (m.multiplied place pnes).pne place eps = m.pne place eps * p := by
  have hvalue := getElem?_multiplyFrom (m.shape.index place 0) pnes m.nonExceedance
    (m.shape.index place eps)
  rw [getElem?_index hplace heps, Option.map_some, Shape.index_eq_add m.shape place eps,
    if_pos (Nat.le_add_right _ _), Nat.add_sub_cancel_left, hp, ← Shape.index_eq_add] at hvalue
  rw [pne, shape_multiplied, multiplied, hvalue]
  rfl

/-- Taking a rupture in leaves the other cells as they are. -/
theorem pne_multiplied_of_ne {m : Matrix R} {place c : Cell} {eps : Nat} {pnes : List R}
    (hplace : m.shape.holds place = true) (hlength : m.shape.eps = pnes.length)
    (hcell : m.shape.holds c = true) (heps : eps < m.shape.eps) (hc : c ≠ place) :
    (m.multiplied place pnes).pne c eps = m.pne c eps := by
  have hvalue := getElem?_multiplyFrom (m.shape.index place 0) pnes m.nonExceedance
    (m.shape.index c eps)
  rw [getElem?_index hcell heps, Option.map_some] at hvalue
  rw [pne, shape_multiplied, multiplied, hvalue, Option.getD_some]
  split
  next hle =>
    -- a number within the factors would be that of a bin of the other cell
    have hout : pnes.length ≤ m.shape.index c eps - m.shape.index place 0 := by
      by_contra hlt
      obtain ⟨k, hk⟩ := Nat.exists_eq_add_of_le hle
      have hbin : k < m.shape.eps := by omega
      rw [← Shape.index_eq_add] at hk
      exact hc (Shape.index_inj hcell hplace heps hbin hk).1
    rw [List.getElem?_eq_none hout, Option.elim_none]
  next => rfl

/-! ## Merging -/

theorem size_zipWith_mul {m n : Matrix R} (hshape : m.shape = n.shape) :
    (m.nonExceedance.zipWith (fun p q => p * q) n.nonExceedance).size = m.shape.size := by
  rw [Array.size_zipWith, m.size_eq, n.size_eq, hshape, Nat.min_self]

/-- The matrix that multiplies the values of two matrices of one shape. -/
def times (m n : Matrix R) (hshape : m.shape = n.shape) : Matrix R :=
  { m with
    nonExceedance := m.nonExceedance.zipWith (fun p q => p * q) n.nonExceedance
    size_eq := size_zipWith_mul hshape }

@[simp] theorem shape_times (m n : Matrix R) (hshape : m.shape = n.shape) :
    (m.times n hshape).shape = m.shape := rfl

theorem pne_times {m n : Matrix R} (hshape : m.shape = n.shape) {c : Cell} {eps : Nat}
    (hcell : m.shape.holds c = true) (heps : eps < m.shape.eps) :
    (m.times n hshape).pne c eps = m.pne c eps * n.pne c eps := by
  have hright := getElem?_index (m := n) (hshape ▸ hcell) (hshape ▸ heps)
  rw [← hshape] at hright
  rw [pne, shape_times, times, Array.getElem?_zipWith, getElem?_index hcell heps, hright]
  rfl

theorem merge_eq_ok {m n r : Matrix R} :
    m.merge n = .ok r ↔
      ∃ hshape : m.shape = n.shape, checkProbabilities n.nonExceedance.toList = .ok () ∧
        r = m.times n hshape := by
  by_cases hshape : m.shape = n.shape
  · rw [merge, dif_pos hshape, bind_eq_ok]
    constructor
    · rintro ⟨_, hcheck, hr⟩
      exact ⟨hshape, hcheck, (pure_eq_ok.1 hr).symm⟩
    · rintro ⟨_, hcheck, rfl⟩
      exact ⟨(), hcheck, rfl⟩
  · simp [merge, hshape]

end SeismicHazard.Matrix
