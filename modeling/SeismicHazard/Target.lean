import SeismicHazard.Edges
import SeismicHazard.HazardCurve.Table
import SeismicHazard.LogicTree
import SeismicHazard.Source

/-!
# Targets

A target is a realization, a probability of exceedance and an intensity measure, with the level that
the hazard curve of the site has for them. Ruptures are disaggregated for every target of a site.
-/

namespace SeismicHazard

open Scalar

/-- A probability that keys results. -/
structure Poe (R : Type) where
  value : R

namespace Poe

variable {R : Type} [Scalar R]

instance : Ord (Poe R) where
  compare a b := Scalar.order a.value b.value

instance : Std.TransOrd (Poe R) where
  eq_swap := Scalar.order_trans.eq_swap
  isLE_trans := Scalar.order_trans.isLE_trans

end Poe

/-- What non-exceedances are computed for at a site. -/
structure TargetKey (R : Type) where
  realization : Nat
  poe : Poe R
  imt : String

/-- Whether two keys stand for the same target. -/
def TargetKey.same {R : Type} [Scalar R] (a b : TargetKey R) : Bool :=
  a.realization == b.realization && (compare a.poe b.poe == .eq) && a.imt == b.imt

/-- A key with the level of ground motion that belongs to it. -/
structure Target (R : Type) where
  key : TargetKey R
  level : R

/-- What all tasks at one site of one branch share. -/
structure SiteContext (R : Type) [Scalar R] where
  cfg : Config R
  regions : Regions
  realizations : List (Realization R)
  edges : BinEdges R
  curves : CurveTable R

namespace SiteContext

variable {R : Type} [Scalar R]

/-- The target at a site for a probability, a measure and a realization, if a curve is known. -/
def target? (ctx : SiteContext R) (site : Site R) (poe : R) (imt : String)
    (realization : Realization R) : Except (Error R) (Option (Target R)) :=
  match ctx.curves.get? ⟨site.id, realization.id, imt⟩ with
  | none => .ok none
  | some curve => do
      let level ← curve.levelFor poe ctx.cfg.extrapolation
      return some { key := ⟨realization.id, ⟨poe⟩, imt⟩, level }

/-- All probabilities, measures and realizations of a context, in that order of nesting. -/
def combinations (ctx : SiteContext R) : List (R × String × Realization R) :=
  ctx.cfg.targets.flatMap (fun poe =>
    ctx.cfg.imts.flatMap (fun imt =>
      ctx.realizations.map (fun realization => (poe, imt, realization))))

/-- The targets of a site. Where no curve is known there is none. -/
def targets (ctx : SiteContext R) (site : Site R) : Except (Error R) (List (Target R)) := do
  let found ← ctx.combinations.mapM
    (fun (poe, imt, realization) => ctx.target? site poe imt realization)
  return found.filterMap id

end SiteContext

end SeismicHazard
