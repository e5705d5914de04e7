import SeismicHazard.HazardCurve
import SeismicHazard.SortedMap

/-!
# Curve tables

The hazard curves of a job, by site, realization and intensity measure. Curves that are zero
everywhere are left out.
-/

namespace SeismicHazard

/-- What a hazard curve is computed for. -/
structure CurveKey where
  site : Nat
  realization : Nat
  imt : String
deriving DecidableEq

namespace CurveKey

/-- Keys are ordered by site, then realization, then measure. -/
instance : Ord CurveKey where
  compare := compareLex (compareOn site) (compareLex (compareOn realization) (compareOn imt))

instance : Std.TransOrd CurveKey :=
  inferInstanceAs (Std.TransCmp (compareLex (compareOn site)
    (compareLex (compareOn realization) (compareOn imt))))

end CurveKey

/-- The curves that are known. -/
abbrev CurveTable (R : Type) [Scalar R] := SortedMap CurveKey (HazardCurve R)

namespace CurveTable

variable {R : Type} [Scalar R]

/-- Registers a curve, in place of the one that was known; an all-zero curve changes nothing. -/
def register (table : CurveTable R) (key : CurveKey) (curve : HazardCurve R) : CurveTable R :=
  if curve.isAllZero then table else table.insert key curve

/-- Whether any curve is known at a site. -/
def hasSite (table : CurveTable R) (site : Nat) : Bool :=
  table.keys.any (fun key => key.site == site)

end CurveTable

end SeismicHazard
