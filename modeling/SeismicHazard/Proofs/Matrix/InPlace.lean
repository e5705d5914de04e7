import SeismicHazard.Proofs.Matrix.Sound
import SeismicHazard.Proofs.Update

/-!
# Matrices updated in place

Accumulating and merging multiply one value of a matrix after the other, and a value that was
multiplied is lost. All values that come in are checked before the first one is used, so an update
in place that fails leaves the matrix as it was. It then comes to the same as the operation that
makes a new matrix.
-/

namespace SeismicHazard

open Scalar

variable {R : Type} [Scalar R]

/-- Goes through the values and stops at the first one that is no probability. -/
def refuseOthers {σ : Type} : List R → Update (Error R) σ Unit
  | [] => pure ()
  | p :: rest => if isProbability p then refuseOthers rest else throw (.mergeRule p)

/-- Checking values changes nothing. -/
theorem on_refuseOthers {σ : Type} (values : List R) (state : σ) :
    (refuseOthers values).on state = (checkProbabilities values, state) := by
  induction values with
  | nil => rfl
  | cons p rest ih =>
      cases hp : isProbability p with
      | true => simpa [refuseOthers, hp, checkProbabilities] using ih
      | false => simp [refuseOthers, hp, checkProbabilities]

namespace Matrix

/-- Multiplies a factor into one value. -/
def scaleValue (place : Nat) (factor : R) (m : Matrix R) : Matrix R :=
  { m with
    nonExceedance := m.nonExceedance.modify place (fun p => p * factor)
    size_eq := by rw [Array.size_modify, m.size_eq] }

/-- Multiplies factors into the values from a place on, one by one. -/
def scaleInPlace (start : Nat) : List R → Update (Error R) (Matrix R) Unit
  | [] => pure ()
  | factor :: factors => do
      modify (scaleValue start factor)
      scaleInPlace (start + 1) factors

/-- Multiplies the non-exceedances of one rupture, by epsilon bin, into its cell in place. -/
def accumulateInPlace (cell : Cell) (pnes : List R) : Update (Error R) (Matrix R) Unit := do
  refuseOthers pnes
  let m ← get
  match m.shape.locate? cell with
  | none => throw (.broken .cellInShape)
  | some cell =>
      if m.shape.eps != pnes.length then throw (.shapeMismatch [m.shape.eps] [pnes.length])
      else scaleInPlace (m.shape.index cell 0) pnes

/-- Combines a matrix with another one of independent contributions in place. -/
def mergeInPlace (other : Matrix R) : Update (Error R) (Matrix R) Unit := do
  let m ← get
  if m.shape = other.shape then
    refuseOthers other.nonExceedance.toList
    scaleInPlace 0 other.nonExceedance.toList
  else throw (.shapeMismatch m.shape.sizes other.shape.sizes)

variable {m m' : Matrix R} {cell : Cell} {pnes : List R}

/-- A matrix of the same shape and level with the values given. -/
def withValues (m : Matrix R) (values : Array R) (hsize : values.size = m.nonExceedance.size) :
    Matrix R :=
  { m with nonExceedance := values, size_eq := hsize.trans m.size_eq }

/-- Multiplying one by one never fails and comes to the same as multiplying at once. -/
theorem on_scaleInPlace (start : Nat) (factors : List R) (m : Matrix R) :
    (scaleInPlace start factors).on m =
      (.ok (), m.withValues (multiplyFrom start factors m.nonExceedance)
        (size_multiplyFrom start factors m.nonExceedance)) := by
  induction factors generalizing start m with
  | nil => rfl
  | cons factor factors ih =>
      rw [scaleInPlace, Update.on_bind, Update.on_modify]
      exact ih (start + 1) (scaleValue start factor m)

/-- A matrix takes in the non-exceedances of a rupture or stays as it was. -/
theorem on_accumulateInPlace (m : Matrix R) (cell : Cell) (pnes : List R) :
    (accumulateInPlace cell pnes).on m = settle m (m.accumulate cell pnes) := by
  rw [accumulateInPlace, accumulate, Update.on_bind, on_refuseOthers]
  cases checkProbabilities pnes with
  | error e => rfl
  | ok _ =>
      simp only [Update.on_get_bind]
      cases m.shape.locate? cell with
      | none => rfl
      | some place =>
          by_cases heps : m.shape.eps = pnes.length
          · simp [heps, on_scaleInPlace, withValues, bind, Except.bind]
          · simp [heps, bind, Except.bind]

/-- The non-exceedances of a rupture fit a cell unless one of them is no probability or there is not
one for each epsilon bin. -/
theorem accumulate_fails_iff (hcell : m.shape.holds cell = true) :
    (∃ e, m.accumulate cell pnes = .error e) ↔
      (∃ p ∈ pnes, ¬ (0 ≤ p ∧ p ≤ 1)) ∨ pnes.length ≠ m.shape.eps := by
  have hchecked : checkProbabilities pnes = .ok () ↔ ∀ p ∈ pnes, 0 ≤ p ∧ p ≤ 1 := by
    simp [checkProbabilities_eq_ok_iff, isProbability, within]
  have hsome : (∃ p ∈ pnes, ¬ (0 ≤ p ∧ p ≤ 1)) ↔ checkProbabilities pnes ≠ .ok () := by
    rw [Ne, hchecked]
    push Not
    rfl
  rw [accumulate, Shape.locate?_of_holds hcell, hsome]
  cases checkProbabilities pnes with
  | error e => simp [bind, Except.bind]
  | ok _ =>
      by_cases heps : m.shape.eps = pnes.length
      · simp [heps, bind, Except.bind]
      · simp [heps, bind, Except.bind, Ne.symm heps]

/-- A matrix after the epsilon bins of one cell were multiplied by a factor each. -/
structure Rescaled (m : Matrix R) (cell : Cell) (factors : List R) (m' : Matrix R) : Prop where
  shape : m'.shape = m.shape
  level : m'.level = m.level
  inside : ∀ eps p factor, m.nonExceedance[m.shape.index cell eps]? = some p →
    factors[eps]? = some factor → m'.nonExceedance[m.shape.index cell eps]? = some (p * factor)
  outside : ∀ other eps, m.shape.holds other = true → eps < m.shape.eps → other ≠ cell →
    m'.nonExceedance[m.shape.index other eps]? = m.nonExceedance[m.shape.index other eps]?

/-- Only the epsilon bins of the cell are multiplied. -/
theorem rescaled_of_accumulate (hcell : m.shape.holds cell = true)
    (hm : m.accumulate cell pnes = .ok m') : m.Rescaled cell pnes m' := by
  obtain ⟨_, hcheck, hm⟩ := bind_eq_ok.1 hm
  rw [Shape.locate?_of_holds hcell] at hm
  by_cases heps : m.shape.eps = pnes.length
  · simp only [heps, bne_self_eq_false, Bool.false_eq_true, if_false, Except.ok.injEq] at hm
    subst hm
    refine ⟨rfl, rfl, fun eps p factor hp hfactor => ?_, fun other eps hother heps' hne => ?_⟩
    · rw [getElem?_multiplyFrom, hp, m.shape.index_eq_add cell eps]
      simp [hfactor]
    · -- the place of another cell is before or after the bins of the cell
      rw [getElem?_multiplyFrom]
      by_cases hstart : m.shape.index cell 0 ≤ m.shape.index other eps
      · have hnone : pnes[m.shape.index other eps - m.shape.index cell 0]? = none := by
          rw [List.getElem?_eq_none_iff, ← heps]
          by_contra hlt
          refine hne (Shape.index_inj hother hcell heps' (Nat.lt_of_not_le hlt) ?_).1
          rw [m.shape.index_eq_add cell]
          omega
        simp [hnone]
      · simp [hstart]
  · simp [heps] at hm

/-- Multiplying all values is multiplying two arrays of one size value by value. -/
theorem multiplyFrom_zero {values others : Array R} (hsize : values.size = others.size) :
    multiplyFrom 0 others.toList values = values.zipWith (fun p q => p * q) others := by
  refine Array.ext_getElem? fun i => ?_
  rw [getElem?_multiplyFrom, Array.getElem?_zipWith]
  by_cases hi : i < values.size
  · simp [Array.getElem?_eq_getElem hi, Array.getElem?_eq_getElem (hsize ▸ hi)]
  · simp [Array.getElem?_eq_none (Nat.le_of_not_lt hi)]

/-- A matrix takes in another one or stays as it was. -/
theorem on_mergeInPlace (m other : Matrix R) :
    (mergeInPlace other).on m = settle m (m.merge other) := by
  rw [mergeInPlace, merge, Update.on_get_bind]
  by_cases hshape : m.shape = other.shape
  · have hsize : m.nonExceedance.size = other.nonExceedance.size := by
      rw [m.size_eq, other.size_eq, hshape]
    rw [if_pos hshape, dif_pos hshape, Update.on_bind, on_refuseOthers]
    cases checkProbabilities other.nonExceedance.toList with
    | error e => rfl
    | ok _ =>
        simp only [on_scaleInPlace, multiplyFrom_zero hsize]
        rfl
  · simp [hshape]

end Matrix

end SeismicHazard
