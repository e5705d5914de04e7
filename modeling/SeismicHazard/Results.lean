import SeismicHazard.Matrix
import SeismicHazard.Target

/-!
# Results

The matrices of a disaggregation by site, realization, probability, measure and tectonic regions.
Partial results are merged by multiplying the matrices under a common key. Merging does not depend
on order or grouping, but taking a part twice counts its ruptures twice.
-/

namespace SeismicHazard

/-- What a matrix is the result for. -/
structure ResultKey (R : Type) where
  site : Nat
  realization : Nat
  poe : Poe R
  imt : String
  regions : List String

namespace ResultKey

variable {R : Type} [Scalar R]

/-- Keys are ordered by site, realization, probability, measure and regions. -/
instance : Ord (ResultKey R) where
  compare := compareLex (compareOn site) (compareLex (compareOn realization)
    (compareLex (compareOn poe) (compareLex (compareOn imt) (compareOn regions))))

instance : Std.TransOrd (ResultKey R) :=
  inferInstanceAs (Std.TransCmp (compareLex (compareOn site) (compareLex (compareOn realization)
    (compareLex (compareOn poe) (compareLex (compareOn imt) (compareOn regions))))))

end ResultKey

/-- One matrix for each key. -/
abbrev Results (R : Type) [Scalar R] := SortedMap (ResultKey R) (Matrix R)

namespace Results

variable {R : Type} [Scalar R]

/-- Adds a matrix, merging it into the one that is there under its key. -/
def add (results : Results R) (key : ResultKey R) (matrix : Matrix R) :
    Except (Error R) (Results R) :=
  match results.get? key with
  | none => .ok (results.insert key matrix)
  | some present => do
      let merged ← present.merge matrix
      return results.insert key merged

/-- Adds every entry of other results. -/
def addAll (results other : Results R) : Except (Error R) (Results R) :=
  other.entries.foldlM (fun acc entry => add acc entry.1 entry.2) results

/-- Merges two partial results. The smaller one is taken into the larger one. -/
def merge (results other : Results R) : Except (Error R) (Results R) :=
  if results.size < other.size then addAll other results else addAll results other

end Results

end SeismicHazard
