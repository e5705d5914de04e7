import SeismicHazard.Contribution
import SeismicHazard.Proofs.Target

/-!
# What a contribution has for each target

A contribution is filled realization by realization and target by target, and a value that is given
again replaces the one before. In the end it has, for every key of a target, the non-exceedances
that the model of the realization gives for it, and nothing else.
-/

noncomputable section

namespace SeismicHazard.Contribution

variable {R : Type} [Scalar R]

instance : DecidableEq (TargetKey R) := Classical.decEq _

/-- An entry of a contribution. -/
abbrev Entry (R : Type) : Type := TargetKey R × BandNonExceedance R

/-- What a list of entries has for a target. -/
def valueFor (entries : List (Entry R)) (key : TargetKey R) : Option (BandNonExceedance R) :=
  (entries.find? (fun entry => key.same entry.1)).map Prod.snd

/-- Puts entries one after the other. -/
def putAll (entries given : List (Entry R)) : List (Entry R) :=
  given.foldl (fun entries entry => put entry.1 entry.2 entries) entries

theorem putAll_append (entries first second : List (Entry R)) :
    putAll entries (first ++ second) = putAll (putAll entries first) second :=
  List.foldl_append ..

section Values

variable [KeyRules R]

theorem valueFor_cons {entry : Entry R} {rest : List (Entry R)} {key : TargetKey R} :
    valueFor (entry :: rest) key =
      if key = entry.1 then some entry.2 else valueFor rest key := by
  rw [valueFor, List.find?_cons]
  by_cases hkey : key = entry.1
  · have hsame : key.same entry.1 = true := TargetKey.same_iff.2 hkey
    rw [hsame, if_pos hkey]
    rfl
  · have hsame : key.same entry.1 = false := by
      rw [← Bool.not_eq_true, TargetKey.same_iff]
      exact hkey
    rw [hsame, if_neg hkey]
    rfl

theorem valueFor_put {entries : List (Entry R)} {key other : TargetKey R}
    {value : BandNonExceedance R} :
    valueFor (put key value entries) other =
      if other = key then some value else valueFor entries other := by
  induction entries with
  | nil => rw [put, valueFor_cons]
  | cons entry rest ih =>
      unfold put
      split
      next hsame =>
        rw [TargetKey.same_iff] at hsame
        rw [valueFor_cons, valueFor_cons, ← hsame]
        split
        next => rfl
        next => rfl
      next hsame =>
        rw [TargetKey.same_iff] at hsame
        rw [valueFor_cons, valueFor_cons, ih]
        split
        next hentry => rw [if_neg fun h => hsame (h.symm.trans hentry)]
        next => rfl

theorem valueFor_putAll_of_some {entries given : List (Entry R)} {key : TargetKey R}
    {value : BandNonExceedance R} (hvalue : valueFor (putAll entries given) key = some value) :
    (key, value) ∈ given ∨ valueFor entries key = some value := by
  induction given generalizing entries with
  | nil => exact .inr hvalue
  | cons entry rest ih =>
      rcases ih hvalue with hmem | hput
      · exact .inl (List.mem_cons_of_mem _ hmem)
      · rw [valueFor_put] at hput
        split at hput
        next hkey =>
          rw [hkey, ← Option.some.inj hput]
          exact .inl List.mem_cons_self
        next => exact .inr hput

theorem exists_valueFor_putAll {entries given : List (Entry R)} {key : TargetKey R}
    (hgiven : (∃ value, (key, value) ∈ given) ∨ ∃ value, valueFor entries key = some value) :
    ∃ value, valueFor (putAll entries given) key = some value := by
  induction given generalizing entries with
  | nil => simpa [putAll] using hgiven
  | cons entry rest ih =>
      apply ih
      by_cases hkey : key = entry.1
      · exact .inr ⟨entry.2, by rw [valueFor_put, if_pos hkey]⟩
      · rw [valueFor_put, if_neg hkey]
        refine hgiven.imp_left fun ⟨value, hmem⟩ => ⟨value, ?_⟩
        rcases List.mem_cons.1 hmem with rfl | hrest
        · exact absurd rfl hkey
        · exact hrest

end Values

/-- Values that are computed and put one after the other are computed first and put then. -/
theorem foldlM_put {α : Type} {f : α → Except (Error R) (Entry R)} {xs : List α}
    {entries final : List (Entry R)} :
    xs.foldlM (fun entries x => do
        let entry ← f x
        return put entry.1 entry.2 entries) entries = .ok final ↔
      ∃ given, xs.mapM f = .ok given ∧ final = putAll entries given := by
  induction xs generalizing entries with
  | nil => simp [pure, Except.pure, putAll, eq_comm]
  | cons x rest ih =>
      simp only [List.foldlM_cons, List.mapM_cons, bind_eq_ok, pure_eq_ok, ih]
      constructor
      · rintro ⟨_, ⟨entry, hentry, rfl⟩, given, hgiven, rfl⟩
        exact ⟨entry :: given, ⟨entry, hentry, given, hgiven, rfl⟩, rfl⟩
      · rintro ⟨_, ⟨entry, hentry, given, hgiven, rfl⟩, rfl⟩
        exact ⟨_, ⟨entry, hentry, rfl⟩, given, hgiven, rfl⟩

variable [NormalCdf R] {ctx : SiteContext R} {site : Site R} {targets : List (Target R)}
  {region : String} {rupture : Rupture R} {dist : R} {realization : Realization R}

/-- What a rupture has for the targets of one realization, in the order of the targets. -/
def given (ctx : SiteContext R) (region : String) (targets : List (Target R))
    (rupture : Rupture R) (dist : R) (realization : Realization R) :
    Except (Error R) (List (Entry R)) := do
  let model ← realization.model region
  (targets.filter (fun target => target.key.realization == realization.id)).mapM
    (fun target => (target.key, ·) <$> bandNonExceedance ctx.cfg rupture dist model target)

theorem addRealization_eq_ok {entries final : List (Entry R)} :
    addRealization ctx region targets rupture dist entries realization = .ok final ↔
      ∃ new, given ctx region targets rupture dist realization = .ok new ∧
        final = putAll entries new := by
  have hstep : ∀ model, (fun (entries : List (Entry R)) (target : Target R) => do
        let value ← bandNonExceedance ctx.cfg rupture dist model target
        return put target.key value entries) =
      fun entries target => do
        let entry ← (target.key, ·) <$> bandNonExceedance ctx.cfg rupture dist model target
        return put entry.1 entry.2 entries := by
    intro model
    funext entries target
    simp
  simp only [addRealization, given, bind_eq_ok, hstep, foldlM_put]
  constructor
  · rintro ⟨model, hmodel, new, hnew, rfl⟩
    exact ⟨new, ⟨model, hmodel, hnew⟩, rfl⟩
  · rintro ⟨new, ⟨model, hmodel, hnew⟩, rfl⟩
    exact ⟨model, hmodel, new, hnew, rfl⟩

theorem foldlM_addRealization {realizations : List (Realization R)}
    {entries final : List (Entry R)} :
    realizations.foldlM (addRealization ctx region targets rupture dist) entries = .ok final ↔
      ∃ new, gather (given ctx region targets rupture dist) realizations = .ok new ∧
        final = putAll entries new := by
  induction realizations generalizing entries with
  | nil => simp [gather, putAll, pure, Except.pure, eq_comm]
  | cons realization rest ih =>
      simp only [List.foldlM_cons, bind_eq_ok, addRealization_eq_ok, ih, gather, List.mapM_cons,
        map_eq_ok, pure_eq_ok]
      constructor
      · rintro ⟨_, ⟨first, hfirst, rfl⟩, _, ⟨parts, hparts, rfl⟩, rfl⟩
        exact ⟨_, ⟨first :: parts, ⟨first, hfirst, parts, hparts, rfl⟩, rfl⟩, by
          rw [List.flatten_cons, putAll_append]⟩
      · rintro ⟨_, ⟨_, ⟨first, hfirst, parts, hparts, rfl⟩, rfl⟩, rfl⟩
        exact ⟨_, ⟨first, hfirst, rfl⟩, _, ⟨parts, hparts, rfl⟩, by
          rw [List.flatten_cons, putAll_append]⟩

/-- A rupture has a value for a target: the model that the realization of the target has for the
region gives it. -/
def Gives (ctx : SiteContext R) (region : String) (rupture : Rupture R) (dist : R)
    (target : Target R) (value : BandNonExceedance R) : Prop :=
  ∃ realization ∈ ctx.realizations, target.key.realization = realization.id ∧
    ∃ model, realization.model region = .ok model ∧
      bandNonExceedance ctx.cfg rupture dist model target = .ok value

theorem mem_given {new : List (Entry R)} {entry : Entry R}
    (hnew : gather (given ctx region targets rupture dist) ctx.realizations = .ok new) :
    entry ∈ new ↔
      ∃ target ∈ targets, entry.1 = target.key ∧ Gives ctx region rupture dist target entry.2 := by
  obtain ⟨hsucceeds, rfl⟩ := gather_eq_ok.1 hnew
  rw [List.mem_flatMap]
  constructor
  · rintro ⟨realization, hrealization, hmem⟩
    obtain ⟨part, hpart⟩ := hsucceeds realization hrealization
    rw [hpart, listed_ok] at hmem
    obtain ⟨model, hmodel, hmap⟩ := bind_eq_ok.1 hpart
    obtain ⟨target, htarget, hentry⟩ := (mem_of_mapM_eq_ok hmap).1 hmem
    obtain ⟨htarget, hid⟩ := List.mem_filter.1 htarget
    obtain ⟨value, hvalue, rfl⟩ := map_eq_ok.1 hentry
    exact ⟨target, htarget, rfl, realization, hrealization, by simpa using hid, model, hmodel,
      hvalue⟩
  · rintro ⟨target, htarget, hkey, realization, hrealization, hid, model, hmodel, hvalue⟩
    obtain ⟨part, hpart⟩ := hsucceeds realization hrealization
    refine ⟨realization, hrealization, ?_⟩
    rw [hpart, listed_ok]
    obtain ⟨model', hmodel', hmap⟩ := bind_eq_ok.1 hpart
    rw [hmodel, Except.ok.injEq] at hmodel'
    subst hmodel'
    refine (mem_of_mapM_eq_ok hmap).2 ⟨target, List.mem_filter.2 ⟨htarget, by simpa using hid⟩, ?_⟩
    rw [hvalue, ← hkey]
    rfl

/-! ## The contribution of a rupture -/

variable {trt : Nat} {c : Contribution R}

omit [NormalCdf R] in
/-- Where a rupture is seen from a site, without anything for a target. -/
def bare (site : Site R) (rupture : Rupture R) (trt : Nat) : Contribution R where
  mag := rupture.mag
  dist := rupture.distanceTo site.location
  lon := (rupture.closestPoint site.location).lon
  lat := (rupture.closestPoint site.location).lat
  trt := trt
  byTarget := []

theorem ofRupture_eq_ok :
    ofRupture ctx site targets region trt rupture = .ok c ↔
      ∃ new, gather (given ctx region targets rupture (rupture.distanceTo site.location))
          ctx.realizations = .ok new ∧
        c = { bare site rupture trt with byTarget := putAll [] new } := by
  simp only [ofRupture, bind_eq_ok, pure_eq_ok, foldlM_addRealization]
  constructor
  · rintro ⟨_, ⟨new, hnew, rfl⟩, rfl⟩
    exact ⟨new, hnew, rfl⟩
  · rintro ⟨new, hnew, rfl⟩
    exact ⟨_, ⟨new, hnew, rfl⟩, rfl⟩

theorem level_of_gives {dist : R} {target : Target R} {value : BandNonExceedance R}
    (hgives : Gives ctx region rupture dist target value) : value.level = target.level := by
  obtain ⟨_, _, _, _, _, hvalue⟩ := hgives
  simp only [bandNonExceedance, bind_eq_ok, pure_eq_ok] at hvalue
  obtain ⟨_, _, _, _, _, _, rfl⟩ := hvalue
  rfl

variable [KeyRules R]

/-- What a contribution has for a target was given for it. -/
theorem gives_of_forTarget? (hc : ofRupture ctx site targets region trt rupture = .ok c)
    {key : TargetKey R} {value : BandNonExceedance R} (hvalue : c.forTarget? key = some value) :
    ∃ target ∈ targets, target.key = key ∧
      Gives ctx region rupture (rupture.distanceTo site.location) target value := by
  obtain ⟨new, hnew, rfl⟩ := ofRupture_eq_ok.1 hc
  rcases valueFor_putAll_of_some hvalue with hmem | hnil
  · obtain ⟨target, htarget, hkey, hgives⟩ := (mem_given hnew).1 hmem
    exact ⟨target, htarget, hkey.symm, hgives⟩
  · simp [valueFor] at hnil

/-- A contribution has something for every target of the site. -/
theorem exists_forTarget? (htargets : ctx.targets site = .ok targets)
    (hc : ofRupture ctx site targets region trt rupture = .ok c) {target : Target R}
    (htarget : target ∈ targets) : ∃ value, c.forTarget? target.key = some value := by
  obtain ⟨_, _, _, _, realization, hrealization, hasks⟩ :=
    (SiteContext.mem_targets htargets).1 htarget
  obtain ⟨new, hnew, rfl⟩ := ofRupture_eq_ok.1 hc
  refine exists_valueFor_putAll (.inl ?_)
  obtain ⟨part, hpart⟩ := (gather_eq_ok.1 hnew).1 realization hrealization
  obtain ⟨model, hmodel, hmap⟩ := bind_eq_ok.1 hpart
  have hid : target.key.realization = realization.id := by rw [hasks.key]
  obtain ⟨entry, hentry⟩ := succeeds_mapM.1 ⟨part, hmap⟩ target
    (List.mem_filter.2 ⟨htarget, by simpa using hid⟩)
  obtain ⟨value, hvalue, rfl⟩ := map_eq_ok.1 hentry
  exact ⟨value, (mem_given hnew).2
    ⟨target, htarget, rfl, realization, hrealization, hid, model, hmodel, hvalue⟩⟩

/-- Where realizations are told apart by their numbers, a contribution has for a target exactly what
the model of its realization gives. -/
theorem forTarget?_eq_some (htargets : ctx.targets site = .ok targets)
    (hnumbered : ∀ a ∈ ctx.realizations, ∀ b ∈ ctx.realizations, a.id = b.id → a = b)
    (hc : ofRupture ctx site targets region trt rupture = .ok c) {target : Target R}
    (htarget : target ∈ targets) {value : BandNonExceedance R} :
    c.forTarget? target.key = some value ↔
      Gives ctx region rupture (rupture.distanceTo site.location) target value := by
  have hforth : ∀ value, c.forTarget? target.key = some value →
      Gives ctx region rupture (rupture.distanceTo site.location) target value := by
    intro value hvalue
    obtain ⟨other, hother, hkey, hgives⟩ := gives_of_forTarget? hc hvalue
    rwa [SiteContext.eq_of_key htargets hother htarget hkey] at hgives
  refine ⟨hforth value, fun hgives => ?_⟩
  -- there is a value, and the realization and its model leave no choice which
  obtain ⟨present, hpresent⟩ := exists_forTarget? htargets hc htarget
  rw [hpresent]
  obtain ⟨a, ha, hid, model, hmodel, hvalue⟩ := hgives
  obtain ⟨b, hb, hid', model', hmodel', hvalue'⟩ := hforth present hpresent
  rw [hnumbered b hb a ha (hid'.symm.trans hid), hmodel, Except.ok.injEq] at hmodel'
  rw [← hmodel', hvalue] at hvalue'
  exact congrArg some (Except.ok.inj hvalue').symm

end SeismicHazard.Contribution

end
