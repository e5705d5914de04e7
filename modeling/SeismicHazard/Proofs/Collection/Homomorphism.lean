import SeismicHazard.Proofs.Collection.Sample

/-!
# Collecting is a homomorphism

Collecting from some sources comes to counting the shares of each of them. Since all shares of one
context fit together, putting two lists of sources one after the other is merging what is collected
from each, and the order of the sources leaves no trace.
-/

noncomputable section

namespace SeismicHazard

namespace Collection

open Share

variable {R : Type} [Scalar R] [NormalCdf R] {ctx : SiteContext R} {site : Site R}
  {sources : List (Source R)}

/-- What sources count with at a site, source after source. -/
def counted (site : Site R) (ctx : SiteContext R) (sources : List (Source R)) : List (Share R) :=
  sources.flatMap fun source => listed (shares site ctx source)

@[simp] theorem counted_append (xs ys : List (Source R)) :
    counted site ctx (xs ++ ys) = counted site ctx xs ++ counted site ctx ys :=
  List.flatMap_append

theorem counted_perm {xs ys : List (Source R)} (hperm : xs.Perm ys) :
    (counted site ctx xs).Perm (counted site ctx ys) :=
  hperm.flatMap_right _

theorem framed_of_mem_counted [KeyRules R] {s : Share R} (hs : s ∈ counted site ctx sources) :
    Framed site ctx s ∧ s.Fits := by
  obtain ⟨_, _, hs⟩ := List.mem_flatMap.1 hs
  exact framed_of_mem_shares hs

theorem coherent_counted [KeyRules R] : Coherent (counted site ctx sources) := by
  intro s hs t ht hkey
  exact (framed_of_mem_counted hs).1.agree (framed_of_mem_counted ht).1 hkey

/-- Everything that a collection needs: the targets of the site, and the shares of every source. -/
structure Collectable (site : Site R) (ctx : SiteContext R) (sources : List (Source R)) : Prop where
  targets : Succeeds (ctx.targets site)
  shares : ∀ source ∈ sources, Succeeds (shares site ctx source)

theorem collectable_append {xs ys : List (Source R)} :
    Collectable site ctx (xs ++ ys) ↔ Collectable site ctx xs ∧ Collectable site ctx ys := by
  constructor
  · rintro ⟨htargets, hshares⟩
    obtain ⟨hxs, hys⟩ := List.forall_mem_append.1 hshares
    exact ⟨⟨htargets, hxs⟩, htargets, hys⟩
  · rintro ⟨⟨htargets, hxs⟩, _, hys⟩
    exact ⟨htargets, List.forall_mem_append.2 ⟨hxs, hys⟩⟩

theorem Collectable.perm {xs ys : List (Source R)} (h : Collectable site ctx xs)
    (hperm : xs.Perm ys) : Collectable site ctx ys where
  targets := h.targets
  shares source hsource := h.shares source (hperm.mem_iff.2 hsource)

variable [KeyRules R] [ProbabilityRules R]

theorem exists_collect (h : Collectable site ctx sources) :
    ∃ r, collect sources site ctx = .ok r ∧ r.Counts (counted site ctx sources) :=
  counts_collect h.targets h.shares coherent_counted

/-- Where a collection succeeds everything is there that it needs, and its results count the shares
of its sources. -/
theorem counts_of_collect {r : Results R} (hcollect : collect sources site ctx = .ok r) :
    Collectable site ctx sources ∧ r.Counts (counted site ctx sources) := by
  obtain ⟨htargets, hshares⟩ := succeeds_of_collect hcollect
  obtain ⟨r', hr', hcounted⟩ := exists_collect ⟨htargets, hshares⟩
  rw [hcollect, Except.ok.injEq] at hr'
  exact ⟨⟨htargets, hshares⟩, hr' ▸ hcounted⟩

theorem succeeds_collect_iff :
    Succeeds (collect sources site ctx) ↔ Collectable site ctx sources :=
  ⟨fun ⟨_, hr⟩ => (counts_of_collect hr).1, fun h => (exists_collect h).imp fun _ hr => hr.1⟩

/-- What is collected from two lists of sources can be merged, and then counts what is collected
from both of them together. -/
theorem merge_of_collect {xs ys : List (Source R)} {a b : Results R}
    (ha : collect xs site ctx = .ok a) (hb : collect ys site ctx = .ok b) :
    ∃ merged together, a.merge b = .ok merged ∧ collect (xs ++ ys) site ctx = .ok together ∧
      merged.SameFactors together := by
  obtain ⟨hxs, hacounts⟩ := counts_of_collect ha
  obtain ⟨hys, hbcounts⟩ := counts_of_collect hb
  have hcoherent : Coherent (counted site ctx xs ++ counted site ctx ys) := by
    rw [← counted_append]
    exact coherent_counted
  have hfits : ∀ s ∈ counted site ctx xs ++ counted site ctx ys, s.Fits := by
    rw [← counted_append]
    exact fun s hs => (framed_of_mem_counted hs).2
  obtain ⟨merged, hmerged, hcounts⟩ := hacounts.merge hbcounts hcoherent hfits
  obtain ⟨together, htogether, hcounts'⟩ := exists_collect (collectable_append.2 ⟨hxs, hys⟩)
  rw [counted_append] at hcounts'
  exact ⟨merged, together, hmerged, htogether, hcounts.sameFactors hcounts'⟩

/-- Sources in another order have results that multiply the same factors. -/
theorem collect_perm {xs ys : List (Source R)} (hperm : xs.Perm ys) {a b : Results R}
    (ha : collect xs site ctx = .ok a) (hb : collect ys site ctx = .ok b) : a.SameFactors b :=
  ((counts_of_collect ha).2.perm (counted_perm hperm)).sameFactors (counts_of_collect hb).2

/-- Collecting takes lists of sources to results as concatenation goes to merging: it succeeds on a
concatenation exactly when it does on both parts, and on sources in one order exactly when it does
in another. What it then has multiplies the same factors as the merge of the parts, and where
products do not round it is that merge, in every order of the sources. -/
theorem collect_append (site : Site R) (ctx : SiteContext R) (xs ys : List (Source R)) :
    (Succeeds (collect (xs ++ ys) site ctx) ↔
        Succeeds (collect xs site ctx) ∧ Succeeds (collect ys site ctx)) ∧
      (∀ a b, collect xs site ctx = .ok a → collect ys site ctx = .ok b →
        ∃ merged together, a.merge b = .ok merged ∧ collect (xs ++ ys) site ctx = .ok together ∧
          merged.SameFactors together ∧ (ExactRules R → together = merged)) ∧
      ∀ sources, sources.Perm (xs ++ ys) →
        (Succeeds (collect sources site ctx) ↔ Succeeds (collect (xs ++ ys) site ctx)) ∧
        (∀ a b, collect sources site ctx = .ok a → collect (xs ++ ys) site ctx = .ok b →
          a.SameFactors b) ∧
        (ExactRules R →
          (collect sources site ctx).toOption = (collect (xs ++ ys) site ctx).toOption) := by
  refine ⟨?_, fun a b ha hb => ?_, fun sources hperm => ?_⟩
  · simp only [succeeds_collect_iff]
    exact collectable_append
  · obtain ⟨merged, together, hmerged, htogether, hsame⟩ := merge_of_collect ha hb
    exact ⟨merged, together, hmerged, htogether, hsame, fun _ => hsame.eq.symm⟩
  · have hsucceeds : Succeeds (collect sources site ctx) ↔
        Succeeds (collect (xs ++ ys) site ctx) := by
      simp only [succeeds_collect_iff]
      exact ⟨fun h => h.perm hperm, fun h => h.perm hperm.symm⟩
    refine ⟨hsucceeds, fun a b ha hb => collect_perm hperm ha hb, fun _ => ?_⟩
    apply toOption_eq
    · intro a ha
      obtain ⟨b, hb⟩ := hsucceeds.1 ⟨a, ha⟩
      rw [hb, (collect_perm hperm ha hb).eq]
    · intro b hb
      obtain ⟨a, ha⟩ := hsucceeds.2 ⟨b, hb⟩
      rw [ha, (collect_perm hperm ha hb).eq]

end Collection

namespace Sample

open Collection PartialReal

/-- Sources with magnitudes have results, with a matrix for the target. -/
theorem exists_collect_partialSources (mean : ℝ) {sources : List (Source PartialReal)}
    (hsome : sources ≠ [])
    (hsources : ∀ source ∈ sources, ∃ id mag, source = partialSource id (real mag)) :
    ∃ r m, collect sources partialSite (partialContext (real mean)) = .ok r ∧
      r.get? partialKey = some m := by
  have hshares : ∀ source ∈ sources,
      Succeeds (shares partialSite (partialContext (real mean)) source) := by
    intro source hsource
    obtain ⟨id, mag, rfl⟩ := hsources source hsource
    exact succeeds_shares_partialSource id mag mean
  obtain ⟨r, hr, hcounts⟩ := exists_collect ⟨⟨_, partialContext_targets⟩, hshares⟩
  obtain ⟨source, hsource⟩ := List.exists_mem_of_ne_nil _ hsome
  obtain ⟨ss, hss⟩ := hshares source hsource
  obtain ⟨id, mag, rfl⟩ := hsources source hsource
  obtain ⟨s, hs, hkey⟩ :=
    exists_mem_shares hss partialContext_targets List.mem_cons_self (mem_nearby_partialSource _ _)
  obtain ⟨m, hm⟩ := (hcounts.some_iff _).2
    ⟨s, List.mem_flatMap.2 ⟨_, hsource, by rwa [hss, listed_ok]⟩, hkey⟩
  exact ⟨r, m, hr, hm⟩

/-- A source whose magnitude is no number has no results. -/
theorem not_succeeds_collect_partialSource (id : String) :
    ¬ Succeeds (collect [partialSource id nan] partialSite (partialContext (real 0))) := by
  intro hcollect
  have hshares := (succeeds_collect_iff.1 hcollect).shares _ List.mem_cons_self
  rw [succeeds_shares_iff (List.cons_ne_nil _ _) partialContext_targets
    realization_partialContext] at hshares
  obtain ⟨_, _, _, hcell⟩ := (hshares.2 _ (mem_nearby_partialSource _ _)).cell
  obtain ⟨_, _, hmag, _⟩ := Arrangement.cell_eq_ok.1 hcell
  have hnumber : Scalar.isNaN nan = false := (Binning.succeeds_bin.1 ⟨_, hmag⟩).1
  exact Bool.false_ne_true (hnumber.symm.trans isNaN_nan)

/-- Two sources with magnitudes are collected together as they are one by one, in either order. A
source whose magnitude is no number is refused next to another one as it is alone. -/
theorem appended_collect :
    (∃ a b merged m,
      collect [partialSource "A" (real 5)] partialSite (partialContext (real 0)) = .ok a ∧
      collect [partialSource "B" (real 6)] partialSite (partialContext (real 0)) = .ok b ∧
      a.merge b = .ok merged ∧
      collect [partialSource "A" (real 5), partialSource "B" (real 6)] partialSite
        (partialContext (real 0)) = .ok merged ∧
      collect [partialSource "B" (real 6), partialSource "A" (real 5)] partialSite
        (partialContext (real 0)) = .ok merged ∧
      merged.get? partialKey = some m) ∧
    ¬ Succeeds (collect [partialSource "B" nan] partialSite (partialContext (real 0))) ∧
    ¬ Succeeds (collect [partialSource "A" (real 5), partialSource "B" nan] partialSite
        (partialContext (real 0))) := by
  have hmeasured : ∀ (id : String) (mag : ℝ), ∃ r,
      collect [partialSource id (real mag)] partialSite (partialContext (real 0)) = .ok r := by
    intro id mag
    obtain ⟨r, _, hr, _⟩ := exists_collect_partialSources 0 (List.cons_ne_nil _ _)
      (List.forall_mem_singleton.2 ⟨id, mag, rfl⟩)
    exact ⟨r, hr⟩
  obtain ⟨a, ha⟩ := hmeasured "A" 5
  obtain ⟨b, hb⟩ := hmeasured "B" 6
  obtain ⟨_, hmerges, horders⟩ := collect_append partialSite (partialContext (real 0))
    [partialSource "A" (real 5)] [partialSource "B" (real 6)]
  obtain ⟨merged, _, hmerged, htogether, _, hequal⟩ := hmerges a b ha hb
  obtain rfl := hequal inferInstance
  obtain ⟨hsucceeds, _, hoptions⟩ := horders _ (.swap _ _ _)
  obtain ⟨swapped, hswapped⟩ := hsucceeds.2 ⟨_, htogether⟩
  have hsame := hoptions inferInstance
  rw [hswapped, htogether] at hsame
  obtain rfl := Option.some.inj hsame
  obtain ⟨r, m, hr, hm⟩ := exists_collect_partialSources 0
    (List.cons_ne_nil (partialSource "A" (real 5)) [partialSource "B" (real 6)])
    (List.forall_mem_cons.2 ⟨⟨_, _, rfl⟩, List.forall_mem_singleton.2 ⟨_, _, rfl⟩⟩)
  obtain rfl := Except.ok.inj (htogether.symm.trans hr)
  obtain ⟨hsucceeds, _⟩ := collect_append partialSite (partialContext (real 0))
    [partialSource "A" (real 5)] [partialSource "B" nan]
  exact ⟨⟨a, b, _, m, ha, hb, hmerged, htogether, hswapped, hm⟩,
    not_succeeds_collect_partialSource "B",
    fun hcollect => not_succeeds_collect_partialSource "B" (hsucceeds.1 hcollect).2⟩

end Sample

end SeismicHazard

end
