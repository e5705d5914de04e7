import SeismicHazard.Proofs.Collection.Safety
import SeismicHazard.Proofs.Edges.Safety

/-!
# Jobs without internal failures

A job whose parts fit together is run without internal failures: it is refused for its settings, or
its edges cannot be built, or a number stands against a collection. The keys of results tell the
branch and the site, hence the edges and the shape, so that merging never fails.
-/

noncomputable section

namespace SeismicHazard

theorem Config.safe_validate (cfg : Config ℝ) : Safe (fun _ => cfg.Accepted) cfg.validate := by
  have hfault : ∀ fault, cfg.fault? = some fault → (Fault.config fault).isInternal = false := by
    intro fault hsome
    unfold fault? at hsome
    split at hsome
    next => exact Option.some.inj hsome ▸ rfl
    next =>
      split_ifs at hsome
      · exact Option.some.inj hsome ▸ rfl
      · exact Option.some.inj hsome ▸ rfl
      · exact Option.some.inj hsome ▸ rfl
      · exact Option.some.inj hsome ▸ rfl
      · split at hsome
        next => exact Option.some.inj hsome ▸ rfl
        next => exact Option.some.inj hsome ▸ rfl
      · split at hsome
        next => exact Option.some.inj hsome ▸ rfl
        next => simp at hsome
  unfold validate
  cases hnone : cfg.fault? with
  | none => exact fault?_eq_none.1 hnone
  | some fault => exact hfault fault hnone

namespace Job

variable {job : Job ℝ}

/-- The parts of every branch fit together, all sources are parametric, and no realization stands
twice. -/
structure Sound (job : Job ℝ) : Prop where
  parametric : ∀ branch ∈ job.branches, ∀ source ∈ branch.sources, source.isParametric = true
  numbered : (job.branches.flatMap fun branch => branch.realizations.map Realization.id).Nodup
  fits : ∀ branch ∈ job.branches,
    FitTogether job.cfg branch.regions branch.realizations branch.sources

/-! ## Before the run -/

theorem exists_addRealizations {seen : List Nat} {realizations : List (Realization ℝ)}
    (hnodup : (realizations.map Realization.id ++ seen).Nodup) :
    ∃ final, addRealizations seen realizations = .ok final := by
  induction realizations generalizing seen with
  | nil => exact ⟨seen, rfl⟩
  | cons realization rest ih =>
      rw [List.map_cons, List.cons_append, ← List.nodup_middle] at hnodup
      have hfresh : ¬ seen.contains realization.id = true := by
        have hnodup' := (List.nodup_append.1 hnodup).2.1
        simpa using (List.nodup_cons.1 hnodup').1
      obtain ⟨final, hfinal⟩ := ih hnodup
      refine ⟨final, ?_⟩
      rw [addRealizations, List.foldlM_cons, if_neg hfresh]
      exact hfinal

theorem Sound.safe_validate (h : job.Sound) : Safe (fun _ => job.cfg.Accepted) job.validate := by
  have hbranches : Safe (fun seen : List Nat =>
      seen.Perm (job.branches.flatMap fun branch => branch.realizations.map Realization.id))
      (job.branches.foldlM validateBranch []) := by
    apply Ends.foldlM (motive := fun (before : List (Branch ℝ)) (seen : List Nat) =>
      seen.Perm (before.flatMap fun branch => branch.realizations.map Realization.id)) (.refl _)
    intro before branch after seen hsplit hseen
    have hall : (branch.realizations.map Realization.id ++ seen).Perm
        ((before ++ [branch]).flatMap fun branch => branch.realizations.map Realization.id) := by
      rw [List.flatMap_append, List.flatMap_singleton]
      exact List.perm_append_comm.trans (hseen.append_right _)
    have hnodup : (branch.realizations.map Realization.id ++ seen).Nodup := by
      have hnumbered := h.numbered
      rw [hsplit, List.append_cons, List.flatMap_append] at hnumbered
      exact hall.nodup_iff.2 (List.nodup_append.1 hnumbered).1
    have hparametric : branch.sources.find? (fun source => !source.isParametric) = none := by
      rw [List.find?_eq_none]
      intro source hsource
      simp [h.parametric branch (by simp [hsplit]) source hsource]
    obtain ⟨final, hfinal⟩ := exists_addRealizations hnodup
    have hbranch : validateBranch seen branch = .ok final := by
      rw [validateBranch, hparametric]
      exact hfinal
    refine .of_succeeds ⟨final, hbranch, ?_⟩
    rw [(addRealizations_eq_ok hfinal).1]
    exact ((List.reverse_perm _).append_right _).trans hall
  apply job.cfg.safe_validate.bind
  intro _ _ haccepted
  apply hbranches.bind
  intro _ _ _
  exact haccepted

theorem Sound.safe_edges (h : job.Sound) : Safe (fun _ => True) job.edges := by
  apply Ends.foldlM (motive := fun _ _ => True) trivial
  intro before branch after table hsplit _
  have hruptures := (h.fits branch (by simp [hsplit])).ruptures
  have hmags : Safe (fun _ => True) (magRange branch) := by
    apply (Ends.mapM fun source hsource => (hruptures source hsource).inSource source.id).bind
    intro _ _ _
    trivial
  apply hmags.bind
  intro mags _ _
  have hsite : ∀ site ∈ job.sites, Safe (fun _ => True) (do
      let edges? ← job.edgesAt? branch mags site
      return (site.id, edges?)) := by
    intro site _
    have hedges : Safe (fun _ => True) (job.edgesAt? branch mags site) := by
      unfold edgesAt?
      split
      next => trivial
      next =>
        have hbounds : Safe (fun _ => True) (siteBounds branch.sources site job.cfg) := by
          apply (safe_rupturesNear hruptures site job.cfg.maximumDistance).bind
          intro _ _ _
          trivial
        apply hbounds.bind
        intro bounds _ _
        exact BinEdges.safe_ofBounds? bounds mags job.cfg
    exact hedges.bind fun _ _ _ => trivial
  exact (Ends.mapM hsite).bind fun _ _ _ => trivial

/-! ## The run -/

variable {edges : EdgeTable ℝ}

/-- The shape that goes with a key: its realization tells the branch, and the edges are those that
are stored for the branch and the site of the key. -/
def Frame (job : Job ℝ) (edges : EdgeTable ℝ) (key : ResultKey ℝ) (shape : Shape) : Prop :=
  ∃ branch ∈ job.branches, (∃ ρ ∈ branch.realizations, key.realization = ρ.id) ∧
    ∃ e, edges.get? ⟨branch.id, key.site⟩ = some e ∧ e.shape branch.regions.size = .ok shape

theorem oneFrame (hvalid : job.validate = .ok ()) : OneFrame (job.Frame edges) := by
  rintro key s t ⟨b, hb, ⟨ρ, hρ, hid⟩, e, he, hs⟩ ⟨b', hb', ⟨ρ', hρ', hid'⟩, e', he', ht⟩
  obtain ⟨rfl, _⟩ := eq_of_realization hvalid hb hb' hρ hρ' (hid.symm.trans hid')
  rw [he', Option.some.injEq] at he
  rw [← he, ht, Except.ok.injEq] at hs
  exact hs.symm

variable [NormalCdf ℝ]

theorem Sound.safe_work (h : job.Sound) (hvalid : job.validate = .ok ())
    (hedges : job.edges = .ok edges) {task : Task ℝ} (htask : task ∈ job.tasks edges) :
    Safe (Results.Shaped (job.Frame edges)) (job.work edges task) := by
  have hcfg := accepted_of_validate hvalid
  obtain ⟨branch, hbranch, _, chunk, hchunk, rfl⟩ := mem_tasks.1 htask
  have hfits : FitTogether job.cfg branch.regions branch.realizations chunk :=
    (h.fits branch hbranch).mono fun source hsource =>
      (mem_of_mem_chunks hcfg.sourcesPerTask).2 ⟨chunk, hchunk, hsource⟩
  apply Ends.foldlM (motive := fun _ results => Results.Shaped (job.Frame edges) results) .empty
  intro before site after results hsplit hresults
  unfold addSite
  cases he : edges.get? ⟨branch.id, site.id⟩ with
  | none => exact hresults
  | some e =>
      obtain ⟨_, _, _, _, _, hof⟩ := edgesOf?_of_get? hedges he
      obtain ⟨_, _, _, _, hbuilt⟩ := built_of_edgesOf? hof
      have hcollect : Safe (Results.Shaped (job.Frame edges))
          (Collection.collect chunk site (job.context branch e)) := by
        apply Collection.safe_collect hcfg hbuilt hfits (oneFrame hvalid)
        intro key hrealization shape hshape
        exact ⟨branch, hbranch, hrealization, e, he, hshape⟩
      apply hcollect.bind
      intro part _ hpart
      exact .of_succeeds (hresults.merge (oneFrame hvalid) hpart)

/-- A job whose parts fit together has no internal failure, and every matrix of a run has the shape
that goes with its key. -/
theorem Sound.safe_runWith (h : job.Sound) {schedule : List (Task ℝ) → Schedule (Task ℝ)}
    (hcomplete : Schedule.Complete schedule) :
    Safe (fun run => run.results.Shaped (job.Frame run.edges)) (job.runWith schedule) := by
  apply h.safe_validate.bind
  intro _ hvalid _
  apply h.safe_edges.bind
  intro edges hedges _
  have hresults : Safe (Results.Shaped (job.Frame edges))
      ((schedule (job.tasks edges)).run (job.work edges)) := by
    apply Schedule.ends_run (oneFrame hvalid)
    intro task htask
    exact h.safe_work hvalid hedges ((hcomplete _).mem_iff.1 htask)
  apply hresults.bind
  intro results _ hshaped
  exact hshaped

end Job

end SeismicHazard

end
