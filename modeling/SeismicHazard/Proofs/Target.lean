import SeismicHazard.Proofs.Keys
import SeismicHazard.Proofs.Outcome

/-!
# Targets of a site

The targets of a site are the combinations of a probability, a measure and a realization for which a
curve is known. Their levels are a matter of their keys alone.
-/

namespace SeismicHazard.SiteContext

variable {R : Type} [Scalar R] {ctx : SiteContext R} {site : Site R} {targets : List (Target R)}

/-- A target belongs to a probability, a measure and a realization when the curve that is known for
them has its level. -/
structure Asks (ctx : SiteContext R) (site : Site R) (poe : R) (imt : String)
    (realization : Realization R) (target : Target R) : Prop where
  key : target.key = ⟨realization.id, ⟨poe⟩, imt⟩
  level : ∃ curve, ctx.curves.get? ⟨site.id, realization.id, imt⟩ = some curve ∧
    curve.levelFor poe ctx.cfg.extrapolation = .ok target.level

theorem target?_eq_some {poe : R} {imt : String} {realization : Realization R}
    {target : Target R} :
    ctx.target? site poe imt realization = .ok (some target) ↔
      ctx.Asks site poe imt realization target := by
  unfold target?
  cases hcurve : ctx.curves.get? ⟨site.id, realization.id, imt⟩ with
  | none =>
      refine ⟨by simp, fun h => ?_⟩
      obtain ⟨curve, hsome, _⟩ := h.level
      simp [hcurve] at hsome
  | some curve =>
      simp only [bind_eq_ok, pure_eq_ok, Option.some.injEq]
      constructor
      · rintro ⟨level, hlevel, rfl⟩
        exact ⟨rfl, curve, hcurve, hlevel⟩
      · rintro ⟨hkey, curve', hcurve', hlevel⟩
        rw [hcurve, Option.some.injEq] at hcurve'
        refine ⟨target.level, hcurve' ▸ hlevel, ?_⟩
        cases target
        simp_all

theorem target?_eq_none {poe : R} {imt : String} {realization : Realization R} :
    ctx.target? site poe imt realization = .ok none ↔
      ctx.curves.get? ⟨site.id, realization.id, imt⟩ = none := by
  unfold target?
  cases hcurve : ctx.curves.get? ⟨site.id, realization.id, imt⟩ with
  | none => simp
  | some curve => simp [map_eq_ok]

theorem mem_combinations {poe : R} {imt : String} {realization : Realization R} :
    (poe, imt, realization) ∈ ctx.combinations ↔
      poe ∈ ctx.cfg.targets ∧ imt ∈ ctx.cfg.imts ∧ realization ∈ ctx.realizations := by
  simp [combinations]

theorem mem_targets (htargets : ctx.targets site = .ok targets) {target : Target R} :
    target ∈ targets ↔ ∃ poe ∈ ctx.cfg.targets, ∃ imt ∈ ctx.cfg.imts,
      ∃ realization ∈ ctx.realizations, ctx.Asks site poe imt realization target := by
  obtain ⟨found, hfound, hfilter⟩ := bind_eq_ok.1 htargets
  rw [← pure_eq_ok.1 hfilter, List.mem_filterMap]
  constructor
  · rintro ⟨target?, hmem, rfl⟩
    obtain ⟨⟨poe, imt, realization⟩, hcombination, htarget⟩ := (mem_of_mapM_eq_ok hfound).1 hmem
    obtain ⟨hpoe, himt, hrealization⟩ := mem_combinations.1 hcombination
    exact ⟨poe, hpoe, imt, himt, realization, hrealization, target?_eq_some.1 htarget⟩
  · rintro ⟨poe, hpoe, imt, himt, realization, hrealization, hasks⟩
    exact ⟨some target, (mem_of_mapM_eq_ok hfound).2 ⟨(poe, imt, realization),
      mem_combinations.2 ⟨hpoe, himt, hrealization⟩, target?_eq_some.2 hasks⟩, rfl⟩

/-- Where a curve is known there is a target. -/
theorem exists_target (htargets : ctx.targets site = .ok targets) {poe : R} {imt : String}
    {realization : Realization R} (hpoe : poe ∈ ctx.cfg.targets) (himt : imt ∈ ctx.cfg.imts)
    (hrealization : realization ∈ ctx.realizations)
    (hknown : ∃ curve, ctx.curves.get? ⟨site.id, realization.id, imt⟩ = some curve) :
    ∃ target ∈ targets, ctx.Asks site poe imt realization target := by
  obtain ⟨found, hfound, _⟩ := bind_eq_ok.1 htargets
  obtain ⟨target?, htarget⟩ := succeeds_mapM.1 ⟨found, hfound⟩ (poe, imt, realization)
    (mem_combinations.2 ⟨hpoe, himt, hrealization⟩)
  cases target? with
  | none =>
      obtain ⟨curve, hcurve⟩ := hknown
      simp [target?_eq_none.1 htarget] at hcurve
  | some target =>
      have hasks := target?_eq_some.1 htarget
      exact ⟨target, (mem_targets htargets).2 ⟨poe, hpoe, imt, himt, realization, hrealization,
        hasks⟩, hasks⟩

/-- The level that the curve of a key has for its probability. -/
theorem level_of_mem (htargets : ctx.targets site = .ok targets) {target : Target R}
    (htarget : target ∈ targets) :
    ∃ curve, ctx.curves.get? ⟨site.id, target.key.realization, target.key.imt⟩ = some curve ∧
      curve.levelFor target.key.poe.value ctx.cfg.extrapolation = .ok target.level := by
  obtain ⟨poe, _, imt, _, realization, _, hkey, hlevel⟩ := (mem_targets htargets).1 htarget
  rwa [hkey]

/-- Targets with a common key are the same. -/
theorem eq_of_key (htargets : ctx.targets site = .ok targets) {t u : Target R} (ht : t ∈ targets)
    (hu : u ∈ targets) (hkey : t.key = u.key) : t = u := by
  obtain ⟨curve, hcurve, hlevel⟩ := level_of_mem htargets ht
  obtain ⟨curve', hcurve', hlevel'⟩ := level_of_mem htargets hu
  rw [hkey, hcurve', Option.some.injEq] at hcurve
  rw [hkey, ← hcurve, hlevel', Except.ok.injEq] at hlevel
  cases t
  cases u
  simp_all

end SeismicHazard.SiteContext
