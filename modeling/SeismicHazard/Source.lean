import SeismicHazard.Error
import SeismicHazard.Geo.Point

/-!
# Seismic sources

A source knows how far it is from a place, and generates ruptures. A rupture knows its magnitude,
its distance from a place, its point closest to it, and how often it occurs. Point sources are the
sources that jobs are made of; other kinds can stand beside them.
-/

namespace SeismicHazard

/-- A place where hazard is disaggregated. -/
structure Site (R : Type) where
  id : Nat
  location : Point R

/-- How often a rupture occurs. -/
inductive Occurrence (R : Type) where
  | poissonian (annualRate timeSpan : R)
  /-- The probabilities of no occurrence, of one, of two and so on. -/
  | nonParametric (probabilities : List R)

namespace Occurrence

variable {R : Type} [Scalar R]

/-- Whether the occurrence follows from a rate. -/
def isParametric : Occurrence R → Bool
  | poissonian _ _ => true
  | nonParametric _ => false

/-- The probability that a rupture does not cause an exceedance, when one occurrence causes it with
probability `poe`. Only Poissonian ruptures can be disaggregated. -/
def noExceedance (occurrence : Occurrence R) (poe : R) : Except (Error R) R :=
  match occurrence with
  | poissonian annualRate timeSpan => .ok (Scalar.exp (-annualRate * timeSpan * poe))
  | nonParametric _ => .error (.config .nonParametricRupture)

end Occurrence

/-- An earthquake that a source can cause. -/
structure Rupture (R : Type) where
  mag : R
  /-- The Joyner-Boore distance to a place, in kilometres. -/
  distanceTo : Point R → R
  closestPoint : Point R → Point R
  occurrence : Occurrence R

/-- What a disaggregation needs to know of a source. -/
structure Source (R : Type) where
  id : String
  region : String
  /-- A lower bound of the distances of its ruptures to a place. -/
  distanceTo : Point R → R
  ruptures : Except (Error R) (List (Rupture R))
  /-- Whether the occurrence of all ruptures has a parametric model. -/
  isParametric : Bool

namespace Source

variable {R : Type} [Scalar R]

/-- The ruptures of a source; a failure names the source. -/
def rupturesNamed (source : Source R) : Except (Error R) (List (Rupture R)) :=
  Except.inSource source.id source.ruptures

end Source

/-- A point with a list of magnitudes and their annual rates. -/
structure PointSource (R : Type) where
  id : String
  region : String
  location : Point R
  depth : R
  /-- Magnitudes and annual rates. -/
  rates : List (R × R)
  timeSpan : R

namespace PointSource

open Scalar

variable {R : Type} [Scalar R]

/-- The rupture of one magnitude, at the point itself. -/
def rupture (source : PointSource R) (mag rate : R) : Except (Error R) (Rupture R) :=
  if isFinite rate && decide (0 ≤ rate) then
    .ok
      { mag
        distanceTo := source.location.distance
        closestPoint := fun _ => source.location
        occurrence := .poissonian rate source.timeSpan }
  else .error (.config (.occurrenceRate rate mag))

/-- A point source as a disaggregation sees it. -/
def toSource (source : PointSource R) : Source R where
  id := source.id
  region := source.region
  distanceTo := source.location.distance
  ruptures := source.rates.mapM (fun (mag, rate) => source.rupture mag rate)
  isParametric := true

end PointSource

end SeismicHazard
