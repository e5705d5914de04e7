import SeismicHazard.Proofs.Outcome
import SeismicHazard.Source.Nearby

/-!
# Ruptures near a site

What is near a site is decided source by source and rupture by rupture: the source is not farther
away as a whole than the maximum distance, and the rupture is within it.
-/

namespace SeismicHazard

theorem inSource_eq_ok {R α : Type} {id : String} {x : Except (Error R) α} {a : α} :
    Except.inSource id x = .ok a ↔ x = .ok a := by
  cases x with
  | error e => simp [Except.inSource, Except.mapError]
  | ok b => simp [Except.inSource, Except.mapError]

variable {R : Type} [Scalar R] {source : Source R} {sources rest : List (Source R)} {site : Site R}
  {d : R}

namespace Source

/-- The ruptures of a source within a distance; none when it cannot generate them. -/
def within (source : Source R) (place : Point R) (maximumDistance : R) : List (Rupture R) :=
  (listed source.ruptures).filter fun rupture =>
    decide (rupture.distanceTo place ≤ maximumDistance)

/-- The ruptures of a source near a site; none when it is left out as a whole. -/
def nearby (source : Source R) (site : Site R) (maximumDistance : R) : List (Rupture R) :=
  if source.isFar site.location maximumDistance then []
  else source.within site.location maximumDistance

/-- A rupture near a site is one of the source. -/
theorem mem_ruptures_of_mem_nearby {rupture : Rupture R} (hnear : rupture ∈ source.nearby site d) :
    rupture ∈ listed source.ruptures := by
  unfold nearby at hnear
  split at hnear
  next => simp at hnear
  next => exact (List.mem_filter.1 hnear).1

/-- A source that is not left out has to generate its ruptures. -/
theorem near?_eq_ok {group? : Option (NearbyRuptures R)} :
    source.near? site d = .ok group? ↔
      (source.isFar site.location d = false → Succeeds source.ruptures) ∧
        group? =
          if source.nearby site d = [] then none else some ⟨source, source.nearby site d⟩ := by
  rw [near?, nearby]
  cases source.isFar site.location d with
  | true => simp [@eq_comm _ none]
  | false =>
      simp only [Bool.false_eq_true, if_false, bind_eq_ok, rupturesNamed, inSource_eq_ok,
        pure_eq_ok, forall_const, List.isEmpty_iff]
      constructor
      · rintro ⟨ruptures, hruptures, rfl⟩
        exact ⟨⟨ruptures, hruptures⟩, by rw [within, hruptures, listed_ok]⟩
      · rintro ⟨⟨ruptures, hruptures⟩, rfl⟩
        exact ⟨ruptures, hruptures, by rw [within, hruptures, listed_ok]⟩

theorem succeeds_near? : Succeeds (source.near? site d) ↔
    (source.isFar site.location d = false → Succeeds source.ruptures) := by
  simp [Succeeds, near?_eq_ok]

end Source

theorem succeeds_rupturesNear : Succeeds (rupturesNear sources site d) ↔
    ∀ source ∈ sources, source.isFar site.location d = false → Succeeds source.ruptures := by
  rw [rupturesNear, succeeds_bind]
  simp only [succeeds_pure, and_true]
  rw [← Succeeds, succeeds_mapM]
  simp only [Source.succeeds_near?]

theorem rupturesNear_nil : rupturesNear [] site d = .ok [] := rfl

theorem rupturesNear_cons {groups : List (NearbyRuptures R)} :
    rupturesNear (source :: rest) site d = .ok groups ↔
      ∃ group? others, source.near? site d = .ok group? ∧ rupturesNear rest site d = .ok others ∧
        groups = group?.toList ++ others := by
  simp only [rupturesNear, List.mapM_cons, bind_eq_ok, pure_eq_ok]
  constructor
  · rintro ⟨_, ⟨group?, hgroup, rest?, hrest, rfl⟩, rfl⟩
    refine ⟨group?, _, hgroup, ⟨rest?, hrest, rfl⟩, ?_⟩
    cases group? with
    | none => rfl
    | some group => rfl
  · rintro ⟨group?, _, hgroup, ⟨rest?, hrest, rfl⟩, rfl⟩
    refine ⟨_, ⟨group?, hgroup, rest?, hrest, rfl⟩, ?_⟩
    cases group? with
    | none => rfl
    | some group => rfl

theorem rupturesNear_eq_ok {groups : List (NearbyRuptures R)}
    (hgroups : rupturesNear sources site d = .ok groups) :
    groups.flatMap NearbyRuptures.ruptures = sources.flatMap (·.nearby site d) := by
  induction sources generalizing groups with
  | nil =>
      rw [rupturesNear_nil, Except.ok.injEq] at hgroups
      rw [← hgroups]
      rfl
  | cons source rest ih =>
      obtain ⟨group?, others, hgroup, hothers, rfl⟩ := rupturesNear_cons.1 hgroups
      obtain ⟨_, rfl⟩ := Source.near?_eq_ok.1 hgroup
      rw [List.flatMap_append, ih hothers, List.flatMap_cons]
      congr 1
      split
      next hnil => rw [hnil]; rfl
      next => simp

end SeismicHazard
