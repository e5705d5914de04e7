import SeismicHazard.Proofs.Collection.Multiplicity
import SeismicHazard.Proofs.Job.Runs

/-!
# Cells of a run

A cell of a matrix is the product, over the sites with the number of its key, of what the branch
counts with there, taken as often as the key is asked for.
-/

noncomputable section

namespace SeismicHazard

namespace Job

open Share

variable [NormalCdf ℝ] {job : Job ℝ} {run : Run ℝ}

namespace Ran

variable {branch : Branch ℝ} {site : Site ℝ} {realization : Realization ℝ}

/-- What the sources of a branch count with at all sites. -/
def branchShares (job : Job ℝ) (edges : EdgeTable ℝ) (branch : Branch ℝ) : List (Share ℝ) :=
  branch.sources.flatMap fun source => job.sites.flatMap fun site =>
    listed (job.shares edges branch source site)

theorem under_branchShares_of_not_mem {edges : EdgeTable ℝ} {key : ResultKey ℝ}
    (hother : key.realization ∉ branch.realizations.map Realization.id) :
    under key (branchShares job edges branch) = [] := by
  rw [List.eq_nil_iff_forall_not_mem]
  intro s hs
  obtain ⟨hmem, rfl⟩ := mem_under.1 hs
  obtain ⟨source, _, hs⟩ := List.mem_flatMap.1 hmem
  obtain ⟨site, _, hs⟩ := List.mem_flatMap.1 hs
  obtain ⟨_, _, _, hframed⟩ := framed_of_mem hs
  obtain ⟨realization, hrealization, hid⟩ := hframed.realization
  exact hother (hid ▸ List.mem_map_of_mem hrealization)

/-- Under a key there is nothing from other branches than the one of its realization. -/
theorem under_allShares (h : Ran job run) (hbranch : branch ∈ job.branches)
    (hrealization : realization ∈ branch.realizations) {key : ResultKey ℝ}
    (hkey : key.realization = realization.id) :
    under key (job.allShares run.edges) = under key (branchShares job run.edges branch) := by
  have hnodup := nodup_of_validate h.valid
  have hmem : key.realization ∈ branch.realizations.map Realization.id :=
    hkey ▸ List.mem_map_of_mem hrealization
  obtain ⟨before, after, hsplit⟩ := List.append_of_mem hbranch
  rw [hsplit, List.flatMap_append, List.flatMap_cons] at hnodup
  obtain ⟨_, hrest, hbefore⟩ := List.nodup_append'.1 hnodup
  obtain ⟨_, _, hafter⟩ := List.nodup_append'.1 hrest
  -- branches without the realization of the key have nothing under it
  have hnone : ∀ branches : List (Branch ℝ),
      key.realization ∉ (branches.flatMap fun b => b.realizations.map Realization.id) →
      under key (branches.flatMap (branchShares job run.edges)) = [] := by
    intro branches hnot
    rw [under_flatMap, List.flatMap_eq_nil_iff]
    exact fun b hb => under_branchShares_of_not_mem fun h => hnot (List.mem_flatMap.2 ⟨b, hb, h⟩)
  have hall : job.allShares run.edges = job.branches.flatMap (branchShares job run.edges) := rfl
  rw [hall, hsplit, List.flatMap_append, List.flatMap_cons, under_append, under_append,
    hnone before fun h => hbefore h (List.mem_append_left _ hmem),
    hnone after fun h => hafter hmem h, List.nil_append, List.append_nil]

/-- At another site than the one of the key there is nothing under it. -/
theorem under_siteShares_of_ne {edges : EdgeTable ℝ} {key : ResultKey ℝ} {sources : List (Source ℝ)}
    (hother : site.id ≠ key.site) :
    under key (sources.flatMap fun source =>
      listed (job.shares edges branch source site)) = [] := by
  rw [List.eq_nil_iff_forall_not_mem]
  intro s hs
  obtain ⟨hmem, rfl⟩ := mem_under.1 hs
  obtain ⟨source, _, hs⟩ := List.mem_flatMap.1 hmem
  obtain ⟨_, _, _, hframed⟩ := framed_of_mem hs
  exact hother hframed.site_eq.symm

/-- A cell is the product over the sites with the number of the key, taken as often as the key is
asked for. -/
theorem product_under_allShares (h : Ran job run) (hbranch : branch ∈ job.branches)
    (hrealization : realization ∈ branch.realizations) {edges : BinEdges ℝ} {number : Nat}
    (hedges : run.edges.get? ⟨branch.id, number⟩ = some edges) (key : TargetKey ℝ)
    (hid : key.realization = realization.id)
    (hknown : ∃ curve, job.curves.get? ⟨number, key.realization, key.imt⟩ = some curve) (c : Cell)
    (eps : Nat) :
    product (under ⟨number, key.realization, key.poe, key.imt, branch.regions.names⟩
        (job.allShares run.edges)) c eps =
      (((job.sites.filter fun site => decide (site.id = number)).map fun site =>
        product (branch.sources.flatMap
          (Collection.once site (job.context branch edges) key)) c eps).prod) ^
        (job.context branch edges).multiplicity key := by
  -- site by site, instead of source by source
  have hperm : (branchShares job run.edges branch).Perm (job.sites.flatMap fun site =>
      branch.sources.flatMap fun source => listed (job.shares run.edges branch source site)) :=
    flatMap_comm_perm _ _ _
  have hcountable := h.countable branch hbranch
  rw [h.under_allShares hbranch hrealization hid, product_perm (under_perm hperm _)]
  generalize job.sites = sites at hcountable ⊢
  induction sites with
  | nil => simp [under, product]
  | cons site rest ih =>
      rw [List.flatMap_cons, under_append, product_append,
        ih fun source hsource s hs => hcountable source hsource s (List.mem_cons_of_mem _ hs)]
      by_cases hsite : site.id = number
      · subst hsite
        have hsources : ∀ source ∈ branch.sources,
            Succeeds (Collection.shares site (job.context branch edges) source) := by
          intro source hsource
          have hsucceeds := hcountable source hsource site List.mem_cons_self
          rwa [shares_of_some hedges] at hsucceeds
        rw [List.filter_cons_of_pos (by simp), List.map_cons, List.prod_cons, mul_pow]
        simp only [shares_of_some hedges]
        congr 1
        exact Collection.product_under_sources hsources hknown c eps
      · rw [under_siteShares_of_ne hsite, List.filter_cons_of_neg (by simpa using hsite)]
        simp [product]

end Ran

end Job

end SeismicHazard

end
