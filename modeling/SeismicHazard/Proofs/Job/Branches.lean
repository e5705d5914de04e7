import SeismicHazard.Job
import SeismicHazard.Proofs.Collection.Coherence

/-!
# Branches of an accepted job

No realization of an accepted job stands twice, neither in two branches nor in one. A realization
therefore tells the branch of a result, and what different sources of a job count with under a
common key fits together, even when the names of regions, branches or sites are repeated.
-/

noncomputable section

namespace SeismicHazard.Job

open Share

variable {R : Type} [Scalar R] {job : Job R}

omit [Scalar R] in
theorem addRealizations_eq_ok {seen final : List Nat} {realizations : List (Realization R)}
    (hfinal : addRealizations seen realizations = .ok final) :
    final = (realizations.map Realization.id).reverse ++ seen ∧ (seen.Nodup → final.Nodup) := by
  refine step_of_foldlM (motive := fun (before : List (Realization R)) acc =>
    acc = (before.map Realization.id).reverse ++ seen ∧ (seen.Nodup → acc.Nodup)) hfinal
    ⟨rfl, id⟩ ?_
  rintro before realization after acc next _ ⟨hacc, hnodup⟩ hnext
  split at hnext
  next => simp at hnext
  next hfresh =>
    rw [← Except.ok.inj hnext]
    refine ⟨by simp [hacc], fun hseen => List.nodup_cons.2 ⟨?_, hnodup hseen⟩⟩
    simpa using hfresh

omit [Scalar R] in
theorem validateBranch_eq_ok {seen final : List Nat} {branch : Branch R}
    (hfinal : validateBranch seen branch = .ok final) :
    final = (branch.realizations.map Realization.id).reverse ++ seen ∧
      (seen.Nodup → final.Nodup) := by
  unfold validateBranch at hfinal
  split at hfinal
  next => simp at hfinal
  next => exact addRealizations_eq_ok hfinal

/-- The realizations of an accepted job all have numbers of their own. -/
theorem nodup_of_validate (hvalid : job.validate = .ok ()) :
    (job.branches.flatMap fun branch => branch.realizations.map Realization.id).Nodup := by
  obtain ⟨_, _, hvalid⟩ := bind_eq_ok.1 hvalid
  obtain ⟨final, hfinal, _⟩ := bind_eq_ok.1 hvalid
  obtain ⟨hperm, hnodup⟩ := step_of_foldlM (motive := fun (before : List (Branch R)) acc =>
    acc.Perm (before.flatMap fun branch => branch.realizations.map Realization.id) ∧ acc.Nodup)
    hfinal ⟨.refl _, .nil⟩ (by
      rintro before branch after acc next _ ⟨hperm, hnodup⟩ hnext
      obtain ⟨rfl, hnext⟩ := validateBranch_eq_ok hnext
      refine ⟨?_, hnext hnodup⟩
      rw [List.flatMap_append, List.flatMap_singleton]
      exact ((List.reverse_perm _).append hperm).trans List.perm_append_comm)
  exact hperm.nodup_iff.1 hnodup

/-- A realization belongs to one branch only. -/
theorem eq_of_realization (hvalid : job.validate = .ok ()) {b b' : Branch R} {ρ ρ' : Realization R}
    (hb : b ∈ job.branches) (hb' : b' ∈ job.branches) (hρ : ρ ∈ b.realizations)
    (hρ' : ρ' ∈ b'.realizations) (hid : ρ.id = ρ'.id) : b = b' ∧ ρ = ρ' := by
  obtain ⟨hwithin, hacross⟩ := List.nodup_flatMap.1 (nodup_of_validate hvalid)
  have hbranch : b = b' := by
    by_contra hne
    have hsymm : Std.Symm (Function.onFun List.Disjoint fun branch : Branch R =>
        branch.realizations.map Realization.id) := ⟨fun _ _ h => h.symm⟩
    apply hacross.forall hb hb' hne (List.mem_map_of_mem hρ)
    exact hid ▸ List.mem_map_of_mem hρ'
  subst hbranch
  exact ⟨rfl, List.inj_on_of_nodup_map (hwithin b hb) hρ hρ' hid⟩

variable [NormalCdf R] {edges : EdgeTable R}

/-- What a source of a branch counts with at a site; nothing where there are no edges. -/
def shares (job : Job R) (edges : EdgeTable R) (branch : Branch R) (source : Source R)
    (site : Site R) : Except (Error R) (List (Share R)) :=
  match edges.get? ⟨branch.id, site.id⟩ with
  | none => .ok []
  | some siteEdges => Collection.shares site (job.context branch siteEdges) source

theorem shares_of_none {branch : Branch R} {site : Site R}
    (hnone : edges.get? ⟨branch.id, site.id⟩ = none) (source : Source R) :
    job.shares edges branch source site = .ok [] := by
  rw [shares, hnone]

theorem shares_of_some {branch : Branch R} {site : Site R} {siteEdges : BinEdges R}
    (hsome : edges.get? ⟨branch.id, site.id⟩ = some siteEdges) (source : Source R) :
    job.shares edges branch source site =
      Collection.shares site (job.context branch siteEdges) source := by
  rw [shares, hsome]

/-- What all sources of a job count with. -/
def allShares (job : Job R) (edges : EdgeTable R) : List (Share R) :=
  job.branches.flatMap fun branch => branch.sources.flatMap fun source =>
    job.sites.flatMap fun site => listed (job.shares edges branch source site)

theorem mem_allShares {s : Share R} :
    s ∈ job.allShares edges ↔ ∃ branch ∈ job.branches, ∃ source ∈ branch.sources,
      ∃ site ∈ job.sites, s ∈ listed (job.shares edges branch source site) := by
  simp only [allShares, List.mem_flatMap]

variable [KeyRules R]

theorem framed_of_mem {branch : Branch R} {source : Source R} {site : Site R} {s : Share R}
    (hs : s ∈ listed (job.shares edges branch source site)) :
    s.Fits ∧ ∃ siteEdges, edges.get? ⟨branch.id, site.id⟩ = some siteEdges ∧
      Collection.Framed site (job.context branch siteEdges) s := by
  cases hget : edges.get? ⟨branch.id, site.id⟩ with
  | none => simp [shares_of_none hget] at hs
  | some siteEdges =>
      rw [shares_of_some hget] at hs
      obtain ⟨hframed, hfits⟩ := Collection.framed_of_mem_shares hs
      exact ⟨hfits, siteEdges, rfl, hframed⟩

theorem fits_of_mem_allShares {s : Share R} (hs : s ∈ job.allShares edges) : s.Fits := by
  obtain ⟨_, _, _, _, _, _, hs⟩ := mem_allShares.1 hs
  exact (framed_of_mem hs).1

/-- Under a common key everything that a job counts has one shape and one level. -/
theorem coherent_allShares (hvalid : job.validate = .ok ()) : Coherent (job.allShares edges) := by
  intro s hs t ht hkey
  obtain ⟨b, hb, _, _, site, _, hs⟩ := mem_allShares.1 hs
  obtain ⟨b', hb', _, _, site', _, ht⟩ := mem_allShares.1 ht
  obtain ⟨_, e, he, hframe⟩ := framed_of_mem hs
  obtain ⟨_, e', he', hframe'⟩ := framed_of_mem ht
  obtain ⟨ρ, hρ, hid⟩ := hframe.realization
  obtain ⟨ρ', hρ', hid'⟩ := hframe'.realization
  -- the key tells the site and, by its realization, the branch, and so the edges
  have hsite : site.id = site'.id := by rw [← hframe.site_eq, ← hframe'.site_eq, hkey]
  obtain ⟨rfl, _⟩ := eq_of_realization hvalid hb hb' hρ hρ' (by rw [← hid, ← hid', hkey])
  rw [hsite, he', Option.some.injEq] at he
  subst he
  exact hframe.agree hframe' hkey

end SeismicHazard.Job

end
