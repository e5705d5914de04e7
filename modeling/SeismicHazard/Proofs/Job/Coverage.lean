import SeismicHazard.Proofs.Edges.Coverage
import SeismicHazard.Proofs.Job.Existence

/-!
# Bins that enclose ruptures

Every rupture near a site has a cell between the edges of its branch there, whose bins enclose it as
far as the edges reach.
-/

noncomputable section

namespace SeismicHazard

open Binning Longitude

namespace Job

open Collection

variable {job : Job ℝ} {branch : Branch ℝ} {site : Site ℝ}

theorem mem_nearbyOf_of_near {near : Source ℝ × Rupture ℝ}
    (hnear : near ∈ nearbyRuptures branch.sources site job.cfg.maximumDistance) :
    near.2 ∈ job.nearbyOf branch site := by
  obtain ⟨source, hsource, hnear⟩ := List.mem_flatMap.1 hnear
  obtain ⟨rupture, hrupture, rfl⟩ := List.mem_map.1 hnear
  exact List.mem_flatMap.2 ⟨source, hsource, hrupture⟩

/-- The closest point of a rupture near a site lies at a longitude. -/
def HasClosestAt (job : Job ℝ) (branch : Branch ℝ) (site : Site ℝ) (lon : ℝ) : Prop :=
  ∃ rupture ∈ job.nearbyOf branch site, (rupture.closestPoint site.location).lon = lon

theorem hasClosestAt_iff {lon : ℝ} : job.HasClosestAt branch site lon ↔
    ∃ x ∈ (job.nearbyOf branch site).map (seenFrom site), x.2.lon = lon := by
  simp [HasClosestAt, seenFrom]

variable [NormalCdf ℝ] {run : Run ℝ}

/-- Every rupture near a site has a cell, whose bins enclose it exactly where the edges that are
stored reach to it. Where the numbers of branch and site are not shared with others, the edges
reach to it in magnitude, distance and latitude as far as there are 64-bit indices. In longitude,
with bins of at most a quarter of a turn, they reach to it unless closest points lie at both ends
of the range. When they do, the edges reach around the antimeridian alone. -/
theorem runWith_coverage {schedule : List (Task ℝ) → Schedule (Task ℝ)}
    (hcomplete : Schedule.Complete schedule) (hrun : job.runWith schedule = .ok run) :
    ∀ branch ∈ job.branches, ∀ site ∈ job.sites, ∀ edges,
      run.edges.get? ⟨branch.id, site.id⟩ = some edges →
    ∀ near ∈ nearbyRuptures branch.sources site job.cfg.maximumDistance,
      ∀ trt < branch.regions.size,
    let dist := near.2.distanceTo site.location
    let closest := near.2.closestPoint site.location
    let width := job.cfg.coordinateBinWidth
    ∃ k, Arrangement.cell edges (offsets edges.lon) branch.regions.size
        (Contribution.bare site near.2 trt) = .ok k ∧
      edges.Locates k near.2.mag dist closest ∧
      ((∀ other ∈ job.branches, other.id = branch.id → other = branch) →
        (∀ other ∈ job.sites, other.id = site.id → other = site) →
        edges.Reaches job.cfg near.2.mag dist closest ∧
        ∀ west, edges.lon.head? = some west → width ≤ 90 →
          (¬(job.HasClosestAt branch site (-180) ∧ job.HasClosestAt branch site 180) →
            turn (closest.lon - west) ≤ span edges.lon) ∧
          (job.HasClosestAt branch site (-180) → job.HasClosestAt branch site 180 →
            (turn (closest.lon - west) ≤ span edges.lon ↔
              turn (closest.lon + Edges.halfTurn width) ≤ Edges.endsSpan width))) := by
  have h := ran_of_runWith hcomplete hrun
  have hcfg := accepted_of_validate h.valid
  intro branch hbranch site hsite edges hedges near hnear trt htrt dist closest width
  obtain ⟨b, hb, s, hs, hkey, hof⟩ := edgesOf?_of_get? h.edges hedges
  obtain ⟨spread, mags, hspread, hmags, hbuilt⟩ := built_of_edgesOf? hof
  obtain ⟨k, hk, hlocates⟩ := hbuilt.exists_cell hcfg (c := Contribution.bare site near.2 trt) htrt
  refine ⟨k, hk, hlocates, fun hown hown' => ?_⟩
  obtain ⟨hid, hid'⟩ := EdgeKey.mk.inj hkey
  obtain rfl := hown b hb hid.symm
  obtain rfl := hown' s hs hid'.symm
  have hspread := SiteBounds.of_ofList hspread
  have hmem : near.2 ∈ job.nearbyOf b s := mem_nearbyOf_of_near hnear
  have hseen : seenFrom s near.2 ∈ (job.nearbyOf b s).map (seenFrom s) := List.mem_map_of_mem hmem
  obtain ⟨hlow, hhigh⟩ := MagRange.encloses_ofList hmags (mag_mem_branchMags hmem)
  refine ⟨hbuilt.reaches hcfg hspread hseen hlow hhigh, fun west hwest hquarter => ?_⟩
  rw [hasClosestAt_iff, hasClosestAt_iff]
  constructor
  · intro hends
    exact hbuilt.turn_le_span hcfg hquarter hspread hends hseen hwest
  · intro hwestmost heastmost
    exact hbuilt.turn_le_span_of_ends hcfg hquarter hspread hwestmost heastmost hwest closest.lon

end Job

namespace Sample

/-- The one rupture of a source lies in a bin that reaches around its closest point. -/
theorem rupture_enclosed :
    ∃ run k, (job [1 / 10] 1 [source "A" 1, source "B" 2]).runWith
        Executor.sequential.schedule = .ok run ∧
      run.edges.get? ⟨0, 0⟩ = some edges ∧
      Arrangement.cell edges (offsets edges.lon) 1
        (Contribution.bare ⟨0, ⟨0, 0⟩⟩ (rupture 1) 0) = .ok k ∧
      edges.Locates k (11 / 2) 15 ⟨1 / 2, 1 / 2⟩ ∧ turn (1 / 2 - 0) ≤ span edges.lon := by
  have hcomplete := Schedule.complete_executor (τ := Task ℝ) .sequential
  obtain ⟨run, hrun⟩ : ∃ run, (job [1 / 10] 1 [source "A" 1, source "B" 2]).runWith
      Executor.sequential.schedule = .ok run :=
    exists_run (by simp) (by norm_num) Nat.one_pos zero_le_one zero_le_two hcomplete
  have hedges : run.edges.get? ⟨0, 0⟩ = some edges := by
    have htable := (Job.ran_of_runWith hcomplete hrun).edges
    rw [job_edges, Except.ok.injEq] at htable
    rw [← htable, SortedMap.get?_insert, if_pos rfl]
  have hnear : (source "A" 1, rupture 1) ∈
      Collection.nearbyRuptures [source "A" 1, source "B" 2] ⟨0, ⟨0, 0⟩⟩ 200 := by
    simp [Collection.nearbyRuptures, nearby_source]
  obtain ⟨k, hk, hlocates, hown⟩ := Job.runWith_coverage hcomplete hrun _ List.mem_cons_self
    ⟨0, ⟨0, 0⟩⟩ List.mem_cons_self edges hedges _ hnear 0 Nat.one_pos
  obtain ⟨_, hlon⟩ := hown (fun other hother _ => List.mem_singleton.1 hother)
    (fun other hother _ => List.mem_singleton.1 hother)
  have hquarter : (1 : ℝ) ≤ 90 := by norm_num
  refine ⟨run, k, hrun, hedges, hk, hlocates, (hlon 0 rfl hquarter).1 ?_⟩
  rintro ⟨_, q, hq, hends⟩
  have hseen : q ∈ [rupture 1, rupture 2] := by
    simpa [Job.nearbyOf, branch, job, cfg, nearby_source] using hq
  have hhalf : (q.closestPoint ⟨0, 0⟩).lon = 1 / 2 := by
    rcases List.mem_cons.1 hseen with rfl | hseen
    · rfl
    · rw [List.mem_singleton.1 hseen]
      rfl
  rw [hhalf] at hends
  norm_num at hends

end Sample

end SeismicHazard

end
