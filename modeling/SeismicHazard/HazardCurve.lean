import SeismicHazard.Error
import SeismicHazard.Numeric.Scalar
import SeismicHazard.Text.Blank

/-!
# Hazard curves

A hazard curve gives the probability of exceeding each of some levels of ground motion. Read
backwards it gives the level that is exceeded with a given probability.
-/

namespace SeismicHazard

/-- The space in which a curve is straight between its levels. -/
inductive InterpolationScale where
  | linear
  | log
deriving DecidableEq, Repr

/-- What happens to a probability that the curve does not bracket. -/
inductive Extrapolation where
  /-- The level at the nearer end is taken. -/
  | clamp
  /-- There is no level. -/
  | reject
deriving DecidableEq, Repr

/-- The policy that a word names, in any case of letters and between blanks. -/
def Extrapolation.ofWord {R : Type} (text : String) : Except (Error R) Extrapolation :=
  let word := (Text.trim text).toLower
  if word == "clamp" then .ok .clamp
  else if word == "reject" then .ok .reject
  else .error (.config (.unknownExtrapolation word))

namespace HazardCurve

open Scalar

variable {R : Type} [Scalar R]

/-- Whether a test holds of all neighbours in a list. -/
def allNeighbours (test : R → R → Bool) (xs : List R) : Bool :=
  (xs.zip xs.tail).all (fun pair => test pair.1 pair.2)

/-- What keeps levels and probabilities from being a curve: levels have to increase, and
probabilities must not. -/
def fault? (levels poes : List R) (scale : InterpolationScale) : Option (CurveFault R) :=
  if levels.isEmpty || levels.length != poes.length then
    some (.lengths levels.length poes.length)
  else if !allNeighbours (fun a b => decide (a < b)) levels then some .levelsNotIncreasing
  else if !poes.all isProbability then some .poesOutOfRange
  else if !allNeighbours (fun a b => !decide (a < b)) poes then some .poesIncreasing
  else if scale == .log && levels.head?.any (fun level => decide (level ≤ 0)) then
    some .levelsNotPositive
  else none

end HazardCurve

/-- Levels of ground motion with their probabilities of exceedance. -/
structure HazardCurve (R : Type) [Scalar R] where
  levels : List R
  poes : List R
  scale : InterpolationScale
  accepted : HazardCurve.fault? levels poes scale = none

namespace HazardCurve

variable {R : Type} [Scalar R]

/-- The curve with the given points, unless they are none. -/
def ofPoints (levels poes : List R) (scale : InterpolationScale) :
    Except (Error R) (HazardCurve R) :=
  match h : fault? levels poes scale with
  | none => .ok { levels, poes, scale, accepted := h }
  | some fault => .error (.curve fault)

/-- A curve that says that no level is ever exceeded. -/
def isAllZero (curve : HazardCurve R) : Bool := curve.poes.all (fun p => Scalar.same p 0)

/-- The points of a curve from the highest level down, so that probabilities ascend. -/
def ascending (curve : HazardCurve R) : List (R × R) :=
  (curve.poes.zip curve.levels).reverse

/-- The neighbouring points around a probability: the first pair whose upper point lies above it,
and the last pair if there is none. -/
def bracket? (poe : R) : List (R × R) → Option ((R × R) × (R × R))
  | lower :: upper :: rest =>
      if poe < upper.1 || rest.isEmpty then some (lower, upper)
      else bracket? poe (upper :: rest)
  | _ => none

/-- The level between two points at which the straight line has the given probability. -/
def interpolate (scale : InterpolationScale) (poe : R) (lower upper : R × R) : R :=
  let t := (poe - lower.1) / (upper.1 - lower.1)
  match scale with
  | .linear => lower.2 + t * (upper.2 - lower.2)
  | .log =>
      let start := Scalar.log lower.2
      Scalar.exp (start + t * (Scalar.log upper.2 - start))

/-- The level that is exceeded with probability `poe`. -/
def levelFor (curve : HazardCurve R) (poe : R) (policy : Extrapolation) :
    Except (Error R) R :=
  match curve.ascending.head?, curve.ascending.getLast? with
  | some (lowest, highLevel), some (highest, lowLevel) =>
      if poe < lowest ∨ highest < poe then
        match policy with
        | .reject => .error (.curve (.notBracketed poe lowest highest))
        | .clamp => .ok (if poe < lowest then highLevel else lowLevel)
      else if Scalar.same poe highest then .ok lowLevel
      else
        match bracket? poe curve.ascending with
        | some (lower, upper) => .ok (interpolate curve.scale poe lower upper)
        | none => .error (.broken .targetIsNumber)
  | _, _ => .error (.broken .targetIsNumber)

end HazardCurve

end SeismicHazard
