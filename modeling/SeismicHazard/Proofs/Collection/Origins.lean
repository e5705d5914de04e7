import SeismicHazard.Collection
import SeismicHazard.Proofs.Failure

/-!
# Where contributions and failures come from

A contribution shows one rupture that a source keeps at a site, and holds what the rupture gives for
every target. A failure on the way there has its cause in one source: in its ruptures, its region,
or what models and occurrence say about one of the ruptures that it keeps.
-/

namespace SeismicHazard

variable {R : Type} [Scalar R]

/-- A rupture that a source has near a place. -/
structure Source.Keeps (source : Source R) (place : Point R) (maximumDistance : R)
    (rupture : Rupture R) : Prop where
  source_near : source.isFar place maximumDistance = false
  generated : ∃ ruptures, source.ruptures = .ok ruptures ∧ rupture ∈ ruptures
  near : rupture.distanceTo place ≤ maximumDistance

theorem TargetKey.same_self (key : TargetKey R) : key.same key = true := by
  simp [TargetKey.same]

namespace Contribution

/-! ## Entries that are put -/

section Put

variable {entries : List (TargetKey R × BandNonExceedance R)} {key other : TargetKey R}
  {value : BandNonExceedance R}

theorem forall_put {P : BandNonExceedance R → Prop} (hvalue : P value)
    (hentries : ∀ entry ∈ entries, P entry.2) : ∀ entry ∈ put key value entries, P entry.2 := by
  induction entries with
  | nil => simpa [put] using hvalue
  | cons head rest ih =>
      rw [List.forall_mem_cons] at hentries
      unfold put
      split
      next => exact List.forall_mem_cons.2 ⟨hvalue, hentries.2⟩
      next => exact List.forall_mem_cons.2 ⟨hentries.1, ih hentries.2⟩

/-- Entries have something for a target. -/
def Covers (entries : List (TargetKey R × BandNonExceedance R)) (key : TargetKey R) : Prop :=
  ∃ entry ∈ entries, key.same entry.1 = true

theorem Covers.cons (head : TargetKey R × BandNonExceedance R) (h : Covers entries key) :
    Covers (head :: entries) key := by
  obtain ⟨entry, hentry, hsame⟩ := h
  exact ⟨entry, List.mem_cons_of_mem _ hentry, hsame⟩

theorem covers_put_self (key : TargetKey R) (value : BandNonExceedance R)
    (entries : List (TargetKey R × BandNonExceedance R)) : Covers (put key value entries) key := by
  induction entries with
  | nil => exact ⟨(key, value), List.mem_singleton_self _, key.same_self⟩
  | cons head rest ih =>
      unfold put
      split
      next hsame => exact ⟨(head.1, value), List.mem_cons_self, hsame⟩
      next => exact ih.cons head

/-- What is put later takes no key away. -/
theorem Covers.put (h : Covers entries other) : Covers (put key value entries) other := by
  induction entries with
  | nil =>
      obtain ⟨entry, hentry, _⟩ := h
      cases hentry
  | cons head rest ih =>
      obtain ⟨entry, hentry, hsame⟩ := h
      unfold Contribution.put
      split
      next =>
        rcases List.mem_cons.1 hentry with rfl | hrest
        · exact ⟨(entry.1, value), List.mem_cons_self, hsame⟩
        · exact ⟨entry, List.mem_cons_of_mem _ hrest, hsame⟩
      next =>
        rcases List.mem_cons.1 hentry with rfl | hrest
        · exact ⟨entry, List.mem_cons_self, hsame⟩
        · exact (ih ⟨entry, hrest, hsame⟩).cons head

end Put

end Contribution

/-! ## Causes -/

section Causes

variable [NormalCdf R] (ctx : SiteContext R) (site : Site R) (targets : List (Target R))

/-- What a rupture gives for a target: the non-exceedances by the model that a realization has for
the region of its source. -/
def GivesBy (source : Source R) (rupture : Rupture R) (realization : Realization R)
    (target : Target R) (value : BandNonExceedance R) : Prop :=
  ∃ model, realization.model source.region = .ok model ∧
    Contribution.bandNonExceedance ctx.cfg rupture (rupture.distanceTo site.location) model target =
      .ok value

/-- What a rupture gives for a target by any of the realizations. -/
def Gives (source : Source R) (rupture : Rupture R) (target : Target R)
    (value : BandNonExceedance R) : Prop :=
  ∃ realization ∈ ctx.realizations, GivesBy ctx site source rupture realization target value

/-- What is wrong with a source: that it cannot generate its ruptures, that its region is not
declared or has no model, or that for a rupture it keeps a model, the bands of epsilon or the
occurrence fail. -/
inductive Cause (source : Source R) : Error R → Prop
  | ruptures {e : Error R} (near : source.isFar site.location ctx.cfg.maximumDistance = false)
      (failed : source.ruptures = .error e) : Cause source e
  | region {e : Error R} {rupture : Rupture R}
      (kept : source.Keeps site.location ctx.cfg.maximumDistance rupture)
      (failed : ctx.regions.indexOf source.region = .error e) : Cause source e
  | model {e : Error R} {rupture : Rupture R} {realization : Realization R}
      (kept : source.Keeps site.location ctx.cfg.maximumDistance rupture)
      (listed : realization ∈ ctx.realizations)
      (failed : realization.model source.region = .error e) : Cause source e
  | prediction {e : Error R} {rupture : Rupture R} {realization : Realization R}
      {model : GroundMotionModel R} {target : Target R}
      (kept : source.Keeps site.location ctx.cfg.maximumDistance rupture)
      (listed : realization ∈ ctx.realizations)
      (known : realization.model source.region = .ok model) (wanted : target ∈ targets)
      (failed : model.predict rupture.mag (rupture.distanceTo site.location) target.key.imt =
        .error e) : Cause source e
  | bands {e : Error R} {rupture : Rupture R} {realization : Realization R}
      {model : GroundMotionModel R} {target : Target R} {prediction : Prediction R}
      (kept : source.Keeps site.location ctx.cfg.maximumDistance rupture)
      (listed : realization ∈ ctx.realizations)
      (known : realization.model source.region = .ok model) (wanted : target ∈ targets)
      (predicted : model.predict rupture.mag (rupture.distanceTo site.location) target.key.imt =
        .ok prediction)
      (failed : Bands.exceedances prediction target.level ctx.cfg.truncationLevel
        ctx.cfg.epsilonBins = .error e) : Cause source e
  | occurrence {e : Error R} {rupture : Rupture R} {poe : R}
      (kept : source.Keeps site.location ctx.cfg.maximumDistance rupture)
      (failed : rupture.occurrence.noExceedance poe = .error e) : Cause source e

/-- A contribution that shows a rupture of a source, with what it gives for every target. -/
structure Contribution.Shows (source : Source R) (rupture : Rupture R) (c : Contribution R) :
    Prop where
  mag : c.mag = rupture.mag
  dist : c.dist = rupture.distanceTo site.location
  closest : (⟨c.lon, c.lat⟩ : Point R) = rupture.closestPoint site.location
  trt : c.trt < ctx.regions.size
  given : ∀ entry ∈ c.byTarget, ∃ target ∈ targets, Gives ctx site source rupture target entry.2
  covers : ∀ realization ∈ ctx.realizations, ∀ target ∈ targets,
    target.key.realization = realization.id → Contribution.Covers c.byTarget target.key ∧
      ∃ value, GivesBy ctx site source rupture realization target value

end Causes

namespace Contribution

/-! ## From a rupture to its contribution -/

section Shows

variable [NormalCdf R] {ctx : SiteContext R} {site : Site R} {targets : List (Target R)}
  {source : Source R} {rupture : Rupture R}

/-- Everything that goes wrong for a target has its cause in the source. -/
theorem ends_bandNonExceedance {realization : Realization R} {model : GroundMotionModel R}
    {target : Target R} (hkept : source.Keeps site.location ctx.cfg.maximumDistance rupture)
    (hlisted : realization ∈ ctx.realizations)
    (hknown : realization.model source.region = .ok model) (htarget : target ∈ targets) :
    Ends (Cause ctx site targets source) (fun _ => True)
      (bandNonExceedance ctx.cfg rupture (rupture.distanceTo site.location) model target) := by
  apply (Ends.of (P := fun _ => True)
    (fun e he => .prediction hkept hlisted hknown htarget he) fun _ _ => trivial).bind
  intro prediction hprediction _
  apply (Ends.of (P := fun _ => True)
    (fun e he => .bands hkept hlisted hknown htarget hprediction he) fun _ _ => trivial).bind
  intro poes _ _
  apply (Ends.mapM (Q := fun _ => True) fun poe _ =>
    .of (fun e he => .occurrence hkept he) fun _ _ => trivial).bind
  intro pnes _ _
  trivial

/-- Entries of what a rupture gives for targets: nothing else is among them, and no target that is
done is left out. -/
structure Filled (ctx : SiteContext R) (site : Site R) (targets : List (Target R))
    (source : Source R) (rupture : Rupture R) (done : Realization R → Target R → Prop)
    (entries : List (TargetKey R × BandNonExceedance R)) : Prop where
  given : ∀ entry ∈ entries, ∃ target ∈ targets, Gives ctx site source rupture target entry.2
  covers : ∀ realization target, done realization target → Covers entries target.key ∧
    ∃ value, GivesBy ctx site source rupture realization target value

theorem Filled.mono {done done' : Realization R → Target R → Prop}
    {entries : List (TargetKey R × BandNonExceedance R)}
    (h : Filled ctx site targets source rupture done entries)
    (hdone : ∀ realization target, done' realization target → done realization target) :
    Filled ctx site targets source rupture done' entries where
  given := h.given
  covers realization target hdone' := h.covers realization target (hdone _ _ hdone')

/-- One more target is done when its value is put. -/
theorem Filled.put {done : Realization R → Target R → Prop}
    {entries : List (TargetKey R × BandNonExceedance R)} {realization : Realization R}
    {target : Target R} {value : BandNonExceedance R}
    (h : Filled ctx site targets source rupture done entries) (htarget : target ∈ targets)
    (hlisted : realization ∈ ctx.realizations)
    (hgives : GivesBy ctx site source rupture realization target value) :
    Filled ctx site targets source rupture
      (fun ρ other => done ρ other ∨ ρ = realization ∧ other = target)
      (Contribution.put target.key value entries) where
  given := forall_put
    (P := fun value => ∃ target ∈ targets, Gives ctx site source rupture target value)
    ⟨target, htarget, realization, hlisted, hgives⟩ h.given
  covers ρ other hdone := by
    rcases hdone with hdone | ⟨rfl, rfl⟩
    · obtain ⟨hcovers, hvalue⟩ := h.covers ρ other hdone
      exact ⟨hcovers.put, hvalue⟩
    · exact ⟨covers_put_self _ _ _, value, hgives⟩

/-- One more target is done, unless there is a cause in the source. -/
theorem ends_putTarget {realization : Realization R} {model : GroundMotionModel R}
    {target : Target R} {done : Realization R → Target R → Prop}
    {entries : List (TargetKey R × BandNonExceedance R)}
    (hkept : source.Keeps site.location ctx.cfg.maximumDistance rupture)
    (hlisted : realization ∈ ctx.realizations)
    (hknown : realization.model source.region = .ok model) (htarget : target ∈ targets)
    (hentries : Filled ctx site targets source rupture done entries) :
    Ends (Cause ctx site targets source)
      (Filled ctx site targets source rupture fun ρ other =>
        done ρ other ∨ ρ = realization ∧ other = target)
      (do
        let value ← bandNonExceedance ctx.cfg rupture (rupture.distanceTo site.location) model
          target
        return Contribution.put target.key value entries) := by
  apply (ends_bandNonExceedance hkept hlisted hknown htarget).bind
  intro value hvalue _
  exact hentries.put htarget hlisted ⟨model, hknown, hvalue⟩

/-- All targets of one more realization are done, unless there is a cause in the source. -/
theorem ends_addRealization {realization : Realization R} {done : Realization R → Target R → Prop}
    {entries : List (TargetKey R × BandNonExceedance R)}
    (hkept : source.Keeps site.location ctx.cfg.maximumDistance rupture)
    (hlisted : realization ∈ ctx.realizations)
    (hentries : Filled ctx site targets source rupture done entries) :
    Ends (Cause ctx site targets source)
      (Filled ctx site targets source rupture fun ρ target => done ρ target ∨
        ρ = realization ∧ target ∈ targets ∧ target.key.realization = realization.id)
      (addRealization ctx source.region targets rupture (rupture.distanceTo site.location) entries
        realization) := by
  apply (Ends.of (P := fun _ => True)
    (fun e he => .model hkept hlisted he) fun _ _ => trivial).bind
  intro model hmodel _
  -- the targets of the realization are put one after the other
  have hown : Ends (Cause ctx site targets source)
      (Filled ctx site targets source rupture fun ρ target => done ρ target ∨
        ρ = realization ∧
          target ∈ targets.filter fun target => target.key.realization == realization.id)
      ((targets.filter fun target => target.key.realization == realization.id).foldlM
        (fun entries target => do
          let value ← bandNonExceedance ctx.cfg rupture (rupture.distanceTo site.location) model
            target
          return Contribution.put target.key value entries) entries) := by
    apply Ends.foldlM (motive := fun before entries =>
      Filled ctx site targets source rupture (fun ρ target => done ρ target ∨
        ρ = realization ∧ target ∈ before) entries)
    · exact hentries.mono fun _ _ hdone => hdone.resolve_right fun h => List.not_mem_nil h.2
    · intro before target after acc hsplit hacc
      have htarget : target ∈ targets := by
        apply List.mem_of_mem_filter (p := fun target => target.key.realization == realization.id)
        simp [hsplit]
      apply (ends_putTarget hkept hlisted hmodel htarget hacc).mono
      intro next hnext
      apply hnext.mono
      intro ρ other hdone
      rcases hdone with hdone | ⟨hρ, hmem⟩
      · exact .inl (.inl hdone)
      · rcases List.mem_append.1 hmem with hbefore | hlast
        · exact .inl (.inr ⟨hρ, hbefore⟩)
        · exact .inr ⟨hρ, List.mem_singleton.1 hlast⟩
  apply hown.mono
  intro final hfinal
  apply hfinal.mono
  intro ρ target hdone
  exact hdone.imp_right fun ⟨hρ, htarget, hid⟩ =>
    ⟨hρ, List.mem_filter.2 ⟨htarget, beq_iff_eq.2 hid⟩⟩

/-- The contribution of a rupture that is kept shows it, unless there is a cause in the source. -/
theorem ends_ofRupture (hkept : source.Keeps site.location ctx.cfg.maximumDistance rupture)
    {trt : Nat} (htrt : trt < ctx.regions.size) :
    Ends (Cause ctx site targets source) (Shows ctx site targets source rupture)
      (ofRupture ctx site targets source.region trt rupture) := by
  have hfilled : Ends (Cause ctx site targets source)
      (Filled ctx site targets source rupture fun ρ target =>
        ρ ∈ ctx.realizations ∧ target ∈ targets ∧ target.key.realization = ρ.id)
      (ctx.realizations.foldlM (addRealization ctx source.region targets rupture
        (rupture.distanceTo site.location)) []) := by
    apply Ends.foldlM (motive := fun (before : List (Realization R)) entries =>
      Filled ctx site targets source rupture (fun ρ target =>
        ρ ∈ before ∧ target ∈ targets ∧ target.key.realization = ρ.id) entries)
    · exact ⟨fun _ hentry => absurd hentry List.not_mem_nil,
        fun _ _ hdone => absurd hdone.1 List.not_mem_nil⟩
    · intro before realization after entries hsplit hentries
      have hlisted : realization ∈ ctx.realizations := by simp [hsplit]
      apply (ends_addRealization hkept hlisted hentries).mono
      intro next hnext
      apply hnext.mono
      rintro ρ target ⟨hρ, htarget, hid⟩
      rcases List.mem_append.1 hρ with hbefore | hlast
      · exact .inl ⟨hbefore, htarget, hid⟩
      · obtain rfl := List.mem_singleton.1 hlast
        exact .inr ⟨rfl, htarget, hid⟩
  apply hfilled.bind
  intro byTarget _ hbyTarget
  exact ⟨rfl, rfl, rfl, htrt, hbyTarget.given, fun ρ hρ target htarget hid =>
    hbyTarget.covers ρ target ⟨hρ, htarget, hid⟩⟩

end Shows

end Contribution

end SeismicHazard
