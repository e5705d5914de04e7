import SeismicHazard.Capacity
import SeismicHazard.GroundMotion

/-!
# Epsilon bands

Epsilon is the distance of a ground motion from the prediction, in standard deviations. The
distribution is truncated, its range is divided into bands of equal width, and each band has the
probability that epsilon lies in it and the level is exceeded. The bands sum to the probability that
the truncated distribution exceeds the level.
-/

namespace SeismicHazard.Bands

open Scalar

variable {R : Type} [Scalar R] [NormalCdf R]

/-- The standardized level above which ground motion exceeds it. -/
def threshold (prediction : Prediction R) (level : R) : R :=
  (Scalar.log level - prediction.mean) / prediction.stddev

/-- The probability of an epsilon in band `j` of `n` and above `z`. -/
def probability (truncation : R) (n : Nat) (z : R) (j : Nat) : R :=
  let cdf := NormalCdf.cdf (R := R)
  let mass := cdf truncation - cdf (-truncation)
  let width := 2 * truncation / (n : R)
  let lower := -truncation + width * (j : R)
  let upper := -truncation + width * ((j + 1 : Nat) : R)
  let start := greater lower z
  if upper ≤ start then 0 else clamp 0 1 ((cdf upper - cdf start) / mass)

/-- The exceedance probabilities of the bands. -/
def exceedances (prediction : Prediction R) (level truncation : R) (n : Nat) :
    Except (Error R) (List R) :=
  if !isPositive prediction.stddev then
    .error (.config (.spreadNotPositive prediction.stddev))
  else if !isPositive level then .error (.curve (.levelNotPositive level))
  else do
    reserve n.nextPowerOfTwo
    return (List.range n).map (probability truncation n (threshold prediction level))

end SeismicHazard.Bands
