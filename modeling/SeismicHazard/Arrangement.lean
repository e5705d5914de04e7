import SeismicHazard.Binning
import SeismicHazard.Contribution
import SeismicHazard.Matrix

/-!
# Arranging contributions in bins

Every contribution has a cell, and the matrix of a target multiplies the non-exceedances of the
contributions in each cell.
-/

namespace SeismicHazard.Arrangement

open Scalar

variable {R : Type} [Scalar R]

/-- The cell of a contribution, given the offsets of the longitude edges. -/
def cell (edges : BinEdges R) (offsets : List R) (regions : Nat) (c : Contribution R) :
    Except (Error R) Cell :=
  if regions ≤ c.trt then .error (.config (.regionIndex c.trt regions))
  else do
    let mag ← Binning.bin edges.mag c.mag
    let dist ← Binning.bin edges.dist c.dist
    let lon ← Binning.lonBin edges.lon offsets c.lon
    let lat ← Binning.bin edges.lat c.lat
    return { mag, dist, lon, lat, trt := c.trt }

/-- The cells of all contributions. -/
def cells (contributions : List (Contribution R)) (edges : BinEdges R) (regions : Nat) :
    Except (Error R) (List Cell) :=
  contributions.mapM (cell edges (Binning.offsets edges.lon) regions)

/-- Takes one contribution into the matrix of a target; the first one makes the matrix. -/
def add (key : TargetKey R) (edges : BinEdges R) (regions : Nat) (matrix? : Option (Matrix R))
    (placed : Contribution R × Cell) : Except (Error R) (Option (Matrix R)) :=
  match placed.1.forTarget? key with
  | none => .ok matrix?
  | some bands => do
      let matrix ← match matrix? with
        | some matrix => pure matrix
        | none => do Matrix.create (← edges.shape regions) bands.level
      some <$> matrix.accumulate placed.2 bands.pnes

/-- The matrix of a target, if any contribution has something for it. -/
def matrix? (contributions : List (Contribution R)) (cells : List Cell) (key : TargetKey R)
    (edges : BinEdges R) (regions : Nat) : Except (Error R) (Option (Matrix R)) :=
  (contributions.zip cells).foldlM (add key edges regions) none

end SeismicHazard.Arrangement
