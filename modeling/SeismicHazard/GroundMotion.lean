import SeismicHazard.Error
import SeismicHazard.Numeric.Scalar

/-!
# Ground-motion models

A ground-motion model predicts the distribution of the logarithm of ground motion at a distance from
a rupture. The log-linear model has one row of coefficients for each intensity measure.
-/

namespace SeismicHazard

/-- Mean and standard deviation of the logarithm of ground motion. -/
structure Prediction (R : Type) where
  mean : R
  stddev : R

/-- A model of ground motion by magnitude, distance and intensity measure. -/
structure GroundMotionModel (R : Type) where
  predict (mag distance : R) (imt : String) : Except (Error R) (Prediction R)

/-- The coefficients of `c0 + c1 * mag + c2 * log (distance + c3)`, and the spread around it. -/
structure LogLinear (R : Type) where
  c0 : R
  c1 : R
  c2 : R
  c3 : R
  sigma : R

namespace LogLinear

variable {R : Type} [Scalar R]

/-- The prediction of one row of coefficients. -/
def predict (row : LogLinear R) (mag distance : R) : Except (Error R) (Prediction R) :=
  let effective := distance + row.c3
  if effective ≤ 0 then
    .error (.geometry (.effectiveDistance effective distance row.c3))
  else
    .ok { mean := row.c0 + row.c1 * mag + row.c2 * Scalar.log effective, stddev := row.sigma }

/-- The model with the given rows by measure. Of two rows for one measure the later one counts. -/
def model (rows : List (String × LogLinear R)) : GroundMotionModel R where
  predict mag distance imt :=
    match rows.reverse.lookup imt with
    | some row => row.predict mag distance
    | none => .error (.config (.noCoefficients imt))

end LogLinear

end SeismicHazard
