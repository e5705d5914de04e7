import SeismicHazard.Capacity
import SeismicHazard.Extent
import SeismicHazard.Matrix.Shape

/-!
# Disaggregation matrices

A matrix holds a probability for every combination of bins, as the probability that no rupture in
the bins causes an exceedance. Independent contributions then combine by multiplication. A matrix
without exceedance anywhere is the identity of merging.
-/

namespace SeismicHazard

open Scalar

/-- The non-exceedance of every cell, in row-major order, for one level of ground motion. -/
structure Matrix (R : Type) where
  shape : Shape
  level : R
  nonExceedance : Array R
  size_eq : nonExceedance.size = shape.size

/-- Refuses values that are no probabilities, naming the first of them. -/
def checkProbabilities {R : Type} [Scalar R] (values : List R) : Except (Error R) Unit :=
  match values.find? (fun p => !isProbability p) with
  | some bad => .error (.mergeRule bad)
  | none => .ok ()

namespace Shape

/-- Makes sure that a matrix of this shape can be made. Sizes of zero do not count towards the
space that the indices take. -/
def reserve {R : Type} (s : Shape) : Except (Error R) Unit := do
  if maxLong < extent (s.sizes.filter (fun n => n != 0)) then throw (.broken .capacity)
  SeismicHazard.reserve s.size

end Shape

namespace Matrix

variable {R : Type} [Scalar R]

/-- The matrix without exceedance. -/
def empty (shape : Shape) (level : R) : Matrix R where
  shape := shape
  level := level
  nonExceedance := Array.replicate shape.size 1
  size_eq := Array.size_replicate

/-- The matrix without exceedance, when there is room for it. -/
def create (shape : Shape) (level : R) : Except (Error R) (Matrix R) := do
  shape.reserve
  return empty shape level

/-- The matrix with the given exceedances. -/
def ofExceedances (shape : Shape) (level : R) (poes : Array R) : Except (Error R) (Matrix R) :=
  if h : poes.size = shape.size then do
    shape.reserve
    checkProbabilities poes.toList
    return ⟨shape, level, poes.map (fun p => 1 - p), by simpa using h⟩
  else .error (.broken .valuesFitShape)

/-- The exceedance of every cell. -/
def exceedances (m : Matrix R) : Array R := m.nonExceedance.map (fun p => 1 - p)

/-- The exceedance of one cell and epsilon bin. -/
def exceedanceAt (m : Matrix R) (cell : Cell) (eps : Nat) : Except (Error R) R :=
  if m.shape.holds cell ∧ eps < m.shape.eps then
    match m.nonExceedance[m.shape.index cell eps]? with
    | some p => .ok (1 - p)
    | none => .error (.broken .cellInShape)
  else .error (.broken .cellInShape)

/-- Multiplies factors into the values from a place on. -/
def multiplyFrom (start : Nat) : List R → Array R → Array R
  | [], values => values
  | factor :: factors, values =>
      multiplyFrom (start + 1) factors (values.modify start (fun p => p * factor))

@[simp] theorem size_multiplyFrom (start : Nat) (factors : List R) (values : Array R) :
    (multiplyFrom start factors values).size = values.size := by
  induction factors generalizing start values with
  | nil => rfl
  | cons factor factors ih => simp [multiplyFrom, ih]

/-- Multiplies the non-exceedances of one rupture, by epsilon bin, into its cell. Bins of the cell
may be counted back from the end of their axis. -/
def accumulate (m : Matrix R) (cell : Cell) (pnes : List R) : Except (Error R) (Matrix R) := do
  checkProbabilities pnes
  match m.shape.locate? cell with
  | none => .error (.broken .cellInShape)
  | some cell =>
      if m.shape.eps != pnes.length then .error (.shapeMismatch [m.shape.eps] [pnes.length])
      else
        .ok { m with
          nonExceedance := multiplyFrom (m.shape.index cell 0) pnes m.nonExceedance
          size_eq := by rw [size_multiplyFrom]; exact m.size_eq }

/-- Combines two matrices of independent contributions. -/
def merge (m other : Matrix R) : Except (Error R) (Matrix R) :=
  if h : m.shape = other.shape then do
    checkProbabilities other.nonExceedance.toList
    return { m with
      nonExceedance := m.nonExceedance.zipWith (fun p q => p * q) other.nonExceedance
      size_eq := by rw [Array.size_zipWith, m.size_eq, other.size_eq, h, Nat.min_self] }
  else .error (.shapeMismatch m.shape.sizes other.shape.sizes)

/-- Numerical equality of two matrices. -/
def same (m other : Matrix R) : Bool :=
  m.shape == other.shape && Scalar.same m.level other.level
    && (m.nonExceedance.toList.zip other.nonExceedance.toList).all
      (fun pair => Scalar.same pair.1 pair.2)

end Matrix

end SeismicHazard
