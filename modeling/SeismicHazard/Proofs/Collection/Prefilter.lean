import SeismicHazard.Proofs.Collection.Nearby
import SeismicHazard.Proofs.Failure
import SeismicHazard.Proofs.Numeric.PartialReal

/-!
# Leaving out sources

A source that is farther away as a whole than the maximum distance is left out before its ruptures
are generated. As long as the distance of a source bounds those of its ruptures, nothing is lost:
the ruptures near a site are those that a filter over the ruptures of all sources leaves. What a
source that is left out fails with is never seen.
-/

noncomputable section

namespace SeismicHazard

open Scalar

variable {R : Type} [Scalar R]

namespace Source

/-- The distance of a source is at most that of each of its ruptures. One that is no number promises
nothing. -/
def Bounds (source : Source R) (place : Point R) : Prop :=
  ∀ ruptures, source.ruptures = .ok ruptures → ∀ rupture ∈ ruptures,
    source.distanceTo place ≤ rupture.distanceTo place ∨ isNaN (source.distanceTo place) = true

/-- A source may have ruptures within a distance: it is not farther away as a whole. Where one of
the two distances is no number it is not known to be. -/
def Reaches (source : Source R) (place : Point R) (maximumDistance : R) : Prop :=
  source.distanceTo place ≤ maximumDistance ∨ isNaN (source.distanceTo place) = true ∨
    isNaN maximumDistance = true

end Source

theorem PointSource.distanceTo_of_rupture {source : PointSource R} {mag rate : R}
    {rupture : Rupture R} (hrupture : source.rupture mag rate = .ok rupture) :
    rupture.distanceTo = source.location.distance := by
  unfold PointSource.rupture at hrupture
  split at hrupture
  next => rw [← Except.ok.inj hrupture]
  next => cases hrupture

/-- A point source is as far away as each of its ruptures. -/
theorem PointSource.bounds_toSource (source : PointSource R) (place : Point R) :
    source.toSource.Bounds place := by
  intro ruptures hruptures rupture hrupture
  obtain ⟨⟨mag, rate⟩, _, hmade⟩ := (mem_of_mapM_eq_ok hruptures).1 hrupture
  rw [PointSource.distanceTo_of_rupture hmade, isNaN, Bool.not_eq_true', decide_eq_false_iff_not]
  exact em _

omit [Scalar R] in
/-- Groups without the empty ones list the same ruptures. -/
theorem flatMap_ruptures_filter (groups : List (NearbyRuptures R)) :
    ((groups.filter fun group => !group.ruptures.isEmpty).flatMap fun group =>
        group.ruptures.map (group.source, ·)) =
      groups.flatMap fun group => group.ruptures.map (group.source, ·) := by
  induction groups with
  | nil => rfl
  | cons group rest ih =>
      rw [List.filter_cons, List.flatMap_cons, ← ih]
      cases hruptures : group.ruptures with
      | nil => simp
      | cons rupture others => simp [hruptures]

section Order

variable [OrderRules R] {source : Source R} {sources : List (Source R)} {site : Site R} {d : R}

namespace Source

theorem isFar_eq_false_iff : source.isFar site.location d = false ↔
    source.Reaches site.location d := by
  rw [isFar, decide_eq_false_iff_not, OrderRules.not_lt_iff, Reaches, or_comm (a := isNaN d = true)]

/-- A source that is out of reach has no rupture within the distance. -/
theorem Bounds.within_eq_nil (hbounds : source.Bounds site.location)
    (hfar : ¬ source.Reaches site.location d) : source.within site.location d = [] := by
  have hlt : d < source.distanceTo site.location := by
    rw [← isFar_eq_false_iff, Bool.not_eq_false] at hfar
    exact of_decide_eq_true hfar
  rw [within, List.filter_eq_nil_iff]
  intro rupture hrupture hnear
  cases hruptures : source.ruptures with
  | error e => simp [hruptures, listed] at hrupture
  | ok ruptures =>
      rw [hruptures, listed_ok] at hrupture
      rcases hbounds ruptures hruptures rupture hrupture with hle | hnan
      · exact OrderRules.not_le_of_lt_of_le hlt hle (of_decide_eq_true hnear)
      · exact OrderRules.not_lt_iff.2 (.inr (.inr hnan)) hlt

/-- What is near of a source is what it has within the distance. -/
theorem Bounds.nearby_eq (hbounds : source.Bounds site.location) :
    source.nearby site d = source.within site.location d := by
  unfold nearby
  split
  next hfar =>
    have hout : ¬ source.Reaches site.location d := by simp [← isFar_eq_false_iff, hfar]
    rw [hbounds.within_eq_nil hout]
  next => rfl

/-- A source in reach that cannot generate its ruptures is named. -/
theorem near?_eq_error {e : Error R} :
    source.near? site d = .error e ↔ source.Reaches site.location d ∧
      ∃ cause, source.ruptures = .error cause ∧ e = cause.inSource source.id := by
  rw [← isFar_eq_false_iff, near?]
  cases hfar : source.isFar site.location d with
  | true => simp
  | false =>
      cases hruptures : source.ruptures with
      | ok ruptures =>
          simp [rupturesNamed, Except.inSource, Except.mapError, hruptures, bind, Except.bind, pure,
            Except.pure]
      | error cause =>
          simp [rupturesNamed, Except.inSource, Except.mapError, hruptures, bind, Except.bind,
            eq_comm]

end Source

/-- The first source in reach that cannot generate its ruptures is reported. -/
theorem rupturesNear_eq_error {e : Error R} :
    rupturesNear sources site d = .error e ↔
      ∃ before source after, sources = before ++ source :: after ∧
        (∀ other ∈ before, other.Reaches site.location d → Succeeds other.ruptures) ∧
        source.Reaches site.location d ∧
        ∃ cause, source.ruptures = .error cause ∧ e = cause.inSource source.id := by
  have hgroups : rupturesNear sources site d = .error e ↔
      sources.mapM (fun source => source.near? site d) = .error e := by
    rw [rupturesNear, bind_eq_error, or_iff_left]
    rintro ⟨_, _, hpure⟩
    cases hpure
  rw [hgroups, mapM_eq_error]
  simp only [Source.succeeds_near?, Source.isFar_eq_false_iff, Source.near?_eq_error]

theorem rupturesNear_succeeds : Succeeds (rupturesNear sources site d) ↔
    ∀ source ∈ sources, source.Reaches site.location d → Succeeds source.ruptures := by
  simp only [succeeds_rupturesNear, Source.isFar_eq_false_iff]

/-- The groups are those of the sources that have ruptures within the distance. -/
theorem groups_of_rupturesNear (hbounds : ∀ source ∈ sources, source.Bounds site.location)
    {groups : List (NearbyRuptures R)} (hgroups : rupturesNear sources site d = .ok groups) :
    groups = (sources.map fun source => ⟨source, source.within site.location d⟩).filter
      fun group => !group.ruptures.isEmpty := by
  induction sources generalizing groups with
  | nil =>
      rw [rupturesNear_nil, Except.ok.injEq] at hgroups
      exact hgroups.symm
  | cons source rest ih =>
      rw [List.forall_mem_cons] at hbounds
      obtain ⟨group?, others, hgroup, hothers, rfl⟩ := rupturesNear_cons.1 hgroups
      obtain ⟨_, rfl⟩ := Source.near?_eq_ok.1 hgroup
      rw [hbounds.1.nearby_eq, ih hbounds.2 hothers, List.map_cons, List.filter_cons]
      cases hwithin : source.within site.location d <;> simp

/-- A failure in generating ruptures names a source, unless a precondition is broken. -/
theorem source_of_rupturesNear_error {e : Error R} (he : rupturesNear sources site d = .error e)
    (hfault : ∀ p, e.fault ≠ .broken p) : ∃ id, e.source = some id := by
  obtain ⟨_, source, _, _, _, _, cause, _, rfl⟩ := rupturesNear_eq_error.1 he
  rw [Error.fault_inSource] at hfault
  exact ⟨_, Error.source_inSource hfault⟩

/-- The ruptures near a site are those that a filter by distance leaves of the ruptures of all
sources, each under its own source, when the distances of the sources are bounds, as those of point
sources are. Only a source in reach that cannot generate its ruptures is a reason to fail, and the
first such source is named. -/
theorem rupturesNear_eq_filter (hbounds : ∀ source ∈ sources, source.Bounds site.location) :
    ((∃ e, rupturesNear sources site d = .error e) ↔
      ∃ source ∈ sources, source.Reaches site.location d ∧ ∃ e, source.ruptures = .error e) ∧
    (∀ e, rupturesNear sources site d = .error e ↔
      ∃ before source after, sources = before ++ source :: after ∧
        (∀ other ∈ before, other.Reaches site.location d → Succeeds other.ruptures) ∧
        source.Reaches site.location d ∧
        ∃ cause, source.ruptures = .error cause ∧ e = cause.inSource source.id) ∧
    (∀ e, rupturesNear sources site d = .error e → (∀ p, e.fault ≠ .broken p) →
      ∃ id, e.source = some id) ∧
    ((∀ source ∈ sources, source.Reaches site.location d → Succeeds source.ruptures) →
      ∃ groups, rupturesNear sources site d = .ok groups ∧
        groups.flatMap (fun group => group.ruptures.map (group.source, ·)) =
          (sources.flatMap fun source => (listed source.ruptures).map (source, ·)).filter
            (fun pair => decide (pair.2.distanceTo site.location ≤ d)) ∧
        (∀ group ∈ groups, group.ruptures ≠ []) ∧
        (groups.map NearbyRuptures.source).Sublist sources) ∧
    ∀ (source : PointSource R) (place : Point R), source.toSource.Bounds place := by
  refine ⟨?_, fun e => rupturesNear_eq_error, fun e => source_of_rupturesNear_error,
    fun hruptures => ?_, PointSource.bounds_toSource⟩
  · rw [← not_succeeds_iff, rupturesNear_succeeds]
    push Not
    simp only [not_succeeds_iff]
  obtain ⟨groups, hgroups⟩ := rupturesNear_succeeds.2 hruptures
  have hof := groups_of_rupturesNear hbounds hgroups
  refine ⟨groups, hgroups, ?_, fun group hgroup => ?_, ?_⟩
  · rw [hof, flatMap_ruptures_filter, List.flatMap_map, List.filter_flatMap]
    refine List.flatMap_congr fun source _ => ?_
    rw [List.filter_map]
    rfl
  · rw [hof] at hgroup
    simpa using (List.mem_filter.1 hgroup).2
  · have hsublist := (List.filter_sublist (p := fun group => !group.ruptures.isEmpty)
      (l := sources.map fun source =>
        (⟨source, source.within site.location d⟩ : NearbyRuptures R))).map NearbyRuptures.source
    rw [hof]
    simpa [Function.comp_def] using hsublist

end Order

namespace Sample

open PartialReal

def originSite : Site PartialReal := ⟨0, ⟨real 0, real 0⟩⟩

/-- A rupture that is equally far from every place. -/
def steadyRupture (dist : ℝ) : Rupture PartialReal where
  mag := real 6
  distanceTo _ := real dist
  closestPoint place := place
  occurrence := .poissonian (real 1) (real 50)

/-- A source that cannot generate its ruptures. -/
def muteSource (distance : PartialReal) : Source PartialReal where
  id := "mute"
  region := "Crust"
  distanceTo _ := distance
  ruptures := .error (.geometry (.stated "no surface"))
  isParametric := true

/-- A source whose distance is no number, with a rupture near enough and one too far away. -/
def unplacedSource : Source PartialReal where
  id := "unplaced"
  region := "Crust"
  distanceTo _ := nan
  ruptures := .ok [steadyRupture 50, steadyRupture 150]
  isParametric := true

/-- A source at the maximum distance. -/
def limitSource : Source PartialReal where
  id := "limit"
  region := "Crust"
  distanceTo _ := real 100
  ruptures := .ok [steadyRupture 100]
  isParametric := true

/-- A source that is out of reach is left out with its failure, and one at the limit is not. -/
theorem far_source_left_out : OrderRules PartialReal ∧
    (∀ source ∈ [muteSource (real 200), unplacedSource, limitSource],
      source.Bounds originSite.location) ∧
    (∃ groups, rupturesNear [muteSource (real 200), unplacedSource, limitSource] originSite
        (real 100) = .ok groups ∧
      groups.flatMap (fun group => group.ruptures.map (group.source, ·)) =
        [(unplacedSource, steadyRupture 50), (limitSource, steadyRupture 100)]) ∧
    ∃ e, rupturesNear [limitSource, muteSource (real 100)] originSite (real 100) = .error e := by
  have hmute : ∀ distance, (muteSource distance).Bounds originSite.location :=
    fun distance ruptures hruptures => by cases hruptures
  have hunplaced : unplacedSource.Bounds originSite.location := fun _ _ _ _ => .inr rfl
  have hlimit : limitSource.Bounds originSite.location := by
    intro ruptures hruptures rupture hrupture
    obtain rfl := Except.ok.inj hruptures
    obtain rfl := List.mem_singleton.1 hrupture
    exact .inl (real_le_real.2 le_rfl)
  have hbounds : ∀ source ∈ [muteSource (real 200), unplacedSource, limitSource],
      source.Bounds originSite.location := by
    simp [hmute, hunplaced, hlimit]
  have hbounds' : ∀ source ∈ [limitSource, muteSource (real 100)],
      source.Bounds originSite.location := by
    simp [hmute, hlimit]
  refine ⟨inferInstance, hbounds, ?_, ?_⟩
  · obtain ⟨_, _, _, hsucceeds, _⟩ := rupturesNear_eq_filter (d := real 100) hbounds
    obtain ⟨groups, hgroups, hlisted, _⟩ := hsucceeds (by
      norm_num [Source.Reaches, muteSource, unplacedSource, limitSource])
    refine ⟨groups, hgroups, ?_⟩
    rw [hlisted]
    norm_num [muteSource, unplacedSource, limitSource, listed, steadyRupture, List.filter_cons]
  · obtain ⟨hfails, _⟩ := rupturesNear_eq_filter (d := real 100) hbounds'
    refine hfails.2 ⟨muteSource (real 100), by simp, .inl (real_le_real.2 le_rfl), _, rfl⟩

end Sample

end SeismicHazard

end
