import Mathlib.Data.List.Perm.Basic
import SeismicHazard.Proofs.Collection.Nearby
import SeismicHazard.Proofs.Collection.Tally

/-!
# Collecting source by source

Every source is located, contributes and is counted on its own. Collecting the contributions of a
list of sources succeeds exactly when it does so for each of them, and the results count what the
sources have separately. No trace is left of which sources were collected together.
-/

noncomputable section

namespace SeismicHazard

/-- Two lists can be gone through in either order of nesting. -/
theorem flatMap_comm_perm {α β δ : Type} (f : α → β → List δ) (xs : List α) (ys : List β) :
    (xs.flatMap fun x => ys.flatMap (f x)).Perm (ys.flatMap fun y => xs.flatMap (f · y)) := by
  induction xs with
  | nil => simp
  | cons x rest ih =>
      simp only [List.flatMap_cons]
      exact (ih.append_left _).trans (List.flatMap_append_perm ys (f x) _)

variable {R : Type} [Scalar R] [NormalCdf R]

namespace Contribution

variable {ctx : SiteContext R} {site : Site R} {targets : List (Target R)}

theorem ofGroups_append {xs ys : List (NearbyRuptures R)} {contributions : List (Contribution R)} :
    ofGroups ctx site targets (xs ++ ys) = .ok contributions ↔
      ∃ us vs, ofGroups ctx site targets xs = .ok us ∧ ofGroups ctx site targets ys = .ok vs ∧
        contributions = us ++ vs := by
  simp only [ofGroups, bind_eq_ok, pure_eq_ok, mapM_append_eq_ok]
  constructor
  · rintro ⟨_, ⟨us, vs, hus, hvs, rfl⟩, rfl⟩
    exact ⟨_, _, ⟨us, hus, rfl⟩, ⟨vs, hvs, rfl⟩, List.flatten_append⟩
  · rintro ⟨_, _, ⟨us, hus, rfl⟩, ⟨vs, hvs, rfl⟩, rfl⟩
    exact ⟨_, ⟨us, vs, hus, hvs, rfl⟩, List.flatten_append⟩

theorem ofGroups_nil : ofGroups ctx site targets [] = .ok [] := rfl

theorem ofGroups_singleton {group : NearbyRuptures R} {contributions : List (Contribution R)} :
    ofGroups ctx site targets [group] = .ok contributions ↔
      ofSource ctx site targets group = .ok contributions := by
  simp [ofGroups]

end Contribution

namespace Collection

open Share

variable {ctx : SiteContext R} {site : Site R} {targets : List (Target R)}

/-! ## Placing the contributions of a source -/

/-- The contribution of a rupture with its cell. -/
def place (site : Site R) (ctx : SiteContext R) (targets : List (Target R)) (region : String)
    (trt : Nat) (rupture : Rupture R) : Except (Error R) (Placed R) := do
  let contribution ← Contribution.ofRupture ctx site targets region trt rupture
  let cell ← Arrangement.cell ctx.edges (Binning.offsets ctx.edges.lon) ctx.regions.size
    contribution
  return (contribution, cell)

/-- The placed contributions of a source. -/
def placedOf (site : Site R) (ctx : SiteContext R) (targets : List (Target R))
    (source : Source R) : Except (Error R) (List (Placed R)) := do
  match ← source.near? site ctx.cfg.maximumDistance with
  | none => return []
  | some group => do
      let trt ← ctx.regions.indexOf group.source.region
      group.ruptures.mapM (place site ctx targets group.source.region trt)

/-- The contributions of some groups, and their cells, are the placed ones. -/
def Places (site : Site R) (ctx : SiteContext R) (targets : List (Target R))
    (groups : List (NearbyRuptures R)) (placed : List (Placed R)) : Prop :=
  ∃ contributions cells, Contribution.ofGroups ctx site targets groups = .ok contributions ∧
    Arrangement.cells contributions ctx.edges ctx.regions.size = .ok cells ∧
    placed = contributions.zip cells

theorem places_nil {placed : List (Placed R)} :
    Places site ctx targets [] placed ↔ placed = [] := by
  simp [Places, Contribution.ofGroups_nil, Arrangement.cells, pure, Except.pure]

theorem places_append {xs ys : List (NearbyRuptures R)} {placed : List (Placed R)} :
    Places site ctx targets (xs ++ ys) placed ↔
      ∃ us vs, Places site ctx targets xs us ∧ Places site ctx targets ys vs ∧
        placed = us ++ vs := by
  simp only [Places, Contribution.ofGroups_append]
  constructor
  · rintro ⟨_, _, ⟨us, vs, hus, hvs, rfl⟩, hcells, rfl⟩
    obtain ⟨ks, ls, hks, hls, rfl⟩ := mapM_append_eq_ok.1 hcells
    exact ⟨_, _, ⟨us, ks, hus, hks, rfl⟩, ⟨vs, ls, hvs, hls, rfl⟩,
      List.zip_append (mapM_eq_ok.1 hks).length_eq⟩
  · rintro ⟨_, _, ⟨us, ks, hus, hks, rfl⟩, ⟨vs, ls, hvs, hls, rfl⟩, rfl⟩
    exact ⟨_, _, ⟨us, vs, hus, hvs, rfl⟩, mapM_append_eq_ok.2 ⟨ks, ls, hks, hls, rfl⟩,
      (List.zip_append (mapM_eq_ok.1 hks).length_eq).symm⟩

theorem mapM_place {region : String} {trt : Nat} {ruptures : List (Rupture R)}
    {placed : List (Placed R)} :
    ruptures.mapM (place site ctx targets region trt) = .ok placed ↔
      ∃ contributions cells,
        ruptures.mapM (Contribution.ofRupture ctx site targets region trt) = .ok contributions ∧
        Arrangement.cells contributions ctx.edges ctx.regions.size = .ok cells ∧
        placed = contributions.zip cells := by
  simp only [Arrangement.cells]
  induction ruptures generalizing placed with
  | nil => simp [pure, Except.pure, eq_comm]
  | cons rupture rest ih =>
      simp only [List.mapM_cons, bind_eq_ok, pure_eq_ok, ih, place]
      constructor
      · rintro ⟨_, ⟨c, hc, k, hk, rfl⟩, _, ⟨cs, ks, hcs, hks, rfl⟩, rfl⟩
        refine ⟨c :: cs, k :: ks, ⟨c, hc, cs, hcs, rfl⟩, ?_, rfl⟩
        rw [List.mapM_cons]
        exact bind_eq_ok.2 ⟨k, hk, bind_eq_ok.2 ⟨ks, hks, rfl⟩⟩
      · rintro ⟨_, _, ⟨c, hc, cs, hcs, rfl⟩, hcells, rfl⟩
        rw [List.mapM_cons] at hcells
        obtain ⟨k, hk, hcells⟩ := bind_eq_ok.1 hcells
        obtain ⟨ks, hks, hcells⟩ := bind_eq_ok.1 hcells
        rw [← pure_eq_ok.1 hcells]
        exact ⟨(c, k), ⟨c, hc, k, hk, rfl⟩, cs.zip ks, ⟨cs, ks, hcs, hks, rfl⟩, rfl⟩

theorem placedOf_eq_ok {source : Source R} {placed : List (Placed R)} :
    placedOf site ctx targets source = .ok placed ↔
      ∃ group?, source.near? site ctx.cfg.maximumDistance = .ok group? ∧
        Places site ctx targets group?.toList placed := by
  rw [placedOf, bind_eq_ok]
  refine exists_congr fun group? => and_congr_right fun _ => ?_
  cases group? with
  | none => simp [places_nil, pure, Except.pure, eq_comm]
  | some group =>
      simp only [Places, Option.toList_some, Contribution.ofGroups_singleton,
        Contribution.ofSource, inSource_eq_ok, bind_eq_ok, mapM_place]
      constructor
      · rintro ⟨trt, htrt, cs, ks, hcs, hks, rfl⟩
        exact ⟨cs, ks, ⟨trt, htrt, hcs⟩, hks, rfl⟩
      · rintro ⟨cs, ks, ⟨trt, htrt, hcs⟩, hks, rfl⟩
        exact ⟨trt, htrt, cs, ks, hcs, hks, rfl⟩

/-- The sources of a list are placed one by one. -/
theorem placed_of_sources {sources : List (Source R)} {placed : List (Placed R)} :
    (∃ groups, rupturesNear sources site ctx.cfg.maximumDistance = .ok groups ∧
        Places site ctx targets groups placed) ↔
      ∃ parts, sources.mapM (placedOf site ctx targets) = .ok parts ∧ placed = parts.flatten := by
  induction sources generalizing placed with
  | nil => simp [rupturesNear_nil, places_nil, pure, Except.pure]
  | cons source rest ih =>
      simp only [List.mapM_cons, bind_eq_ok, pure_eq_ok, rupturesNear_cons, placedOf_eq_ok]
      constructor
      · rintro ⟨_, ⟨group?, others, hgroup, hothers, rfl⟩, hplaces⟩
        obtain ⟨us, vs, hus, hvs, rfl⟩ := places_append.1 hplaces
        obtain ⟨parts, hparts, rfl⟩ := ih.1 ⟨others, hothers, hvs⟩
        exact ⟨us :: parts, ⟨us, ⟨group?, hgroup, hus⟩, parts, hparts, rfl⟩, rfl⟩
      · rintro ⟨_, ⟨us, ⟨group?, hgroup, hus⟩, parts, hparts, rfl⟩, rfl⟩
        obtain ⟨others, hothers, hvs⟩ := ih.2 ⟨parts, hparts, rfl⟩
        exact ⟨_, ⟨group?, others, hgroup, hothers, rfl⟩, places_append.2 ⟨us, _, hus, hvs, rfl⟩⟩

/-! ## The shares of a source -/

/-- What a placed contribution counts with for all targets. -/
def sharesAt (site : Site R) (ctx : SiteContext R) (targets : List (Target R)) (placed : Placed R) :
    Except (Error R) (List (Share R)) :=
  gather (fun t => sharesFor site ctx t.key placed) targets

/-- What a source counts with at a site. Without targets nothing is looked at. -/
def shares (site : Site R) (ctx : SiteContext R) (source : Source R) :
    Except (Error R) (List (Share R)) := do
  let targets ← ctx.targets site
  if targets.isEmpty then return []
  else
    let placed ← placedOf site ctx targets source
    gather (sharesAt site ctx targets) placed

theorem shares_of_nil (htargets : ctx.targets site = .ok []) (source : Source R) :
    shares site ctx source = .ok [] := by
  rw [shares, htargets]
  rfl

theorem shares_eq_ok {source : Source R} {ss : List (Share R)} (hnonempty : targets ≠ [])
    (htargets : ctx.targets site = .ok targets) :
    shares site ctx source = .ok ss ↔
      ∃ placed, placedOf site ctx targets source = .ok placed ∧
        (∀ p ∈ placed, ∀ t ∈ targets, Succeeds (sharesFor site ctx t.key p)) ∧
        ss = placed.flatMap fun p => listed (sharesAt site ctx targets p) := by
  have hopen : shares site ctx source = (do
      let placed ← placedOf site ctx targets source
      gather (sharesAt site ctx targets) placed) := by
    rw [shares, htargets]
    exact if_neg (by simpa using hnonempty)
  simp only [hopen, bind_eq_ok, gather_eq_ok, sharesAt, succeeds_gather]

omit [NormalCdf R] in
theorem addTarget_nil {results : Results R} {target : Target R} {cells : List Cell} :
    addTarget site ctx [] cells results target = .ok results := rfl

/-- A collection with targets is a tally of placed contributions. That no rupture is near needs no
case of its own. -/
theorem collect_of_targets {sources : List (Source R)} {r : Results R} (hnonempty : targets ≠ [])
    (htargets : ctx.targets site = .ok targets) :
    collect sources site ctx = .ok r ↔
      ∃ groups, rupturesNear sources site ctx.cfg.maximumDistance = .ok groups ∧
        ∃ contributions, Contribution.ofGroups ctx site targets groups = .ok contributions ∧
        ∃ cells, Arrangement.cells contributions ctx.edges ctx.regions.size = .ok cells ∧
          targets.foldlM (addTarget site ctx contributions cells) SortedMap.empty = .ok r := by
  have hopen : collect sources site ctx = (do
      let groups ← rupturesNear sources site ctx.cfg.maximumDistance
      if groups.isEmpty then return SortedMap.empty
      let contributions ← Contribution.ofGroups ctx site targets groups
      let cells ← Arrangement.cells contributions ctx.edges ctx.regions.size
      targets.foldlM (addTarget site ctx contributions cells) SortedMap.empty) := by
    rw [collect, htargets]
    exact if_neg (by simpa using hnonempty)
  rw [hopen, bind_eq_ok]
  refine exists_congr fun groups => and_congr_right fun _ => ?_
  cases groups with
  | nil =>
      -- without contributions no target has a matrix
      have htally : targets.foldlM (addTarget site ctx [] []) SortedMap.empty
          = .ok SortedMap.empty := by
        clear hnonempty htargets hopen
        induction targets with
        | nil => rfl
        | cons t rest ih => rw [List.foldlM_cons, addTarget_nil]; exact ih
      simp [Contribution.ofGroups_nil, Arrangement.cells, pure, Except.pure, htally]
  | cons group others => simp [bind_eq_ok]

theorem succeeds_shares {sources : List (Source R)} (hnonempty : targets ≠ [])
    (htargets : ctx.targets site = .ok targets) :
    (∀ source ∈ sources, Succeeds (shares site ctx source)) ↔
      ∃ parts, sources.mapM (placedOf site ctx targets) = .ok parts ∧
        ∀ t ∈ targets, ∀ p ∈ parts.flatten, Succeeds (sharesFor site ctx t.key p) := by
  constructor
  · intro hsucceeds
    have hplaced : ∀ source ∈ sources, ∃ placed, placedOf site ctx targets source = .ok placed ∧
        ∀ p ∈ placed, ∀ t ∈ targets, Succeeds (sharesFor site ctx t.key p) := by
      intro source hsource
      obtain ⟨ss, hss⟩ := hsucceeds source hsource
      obtain ⟨placed, hplaced, hall, _⟩ := (shares_eq_ok hnonempty htargets).1 hss
      exact ⟨placed, hplaced, hall⟩
    obtain ⟨parts, hparts⟩ := succeeds_mapM.2 fun source hsource =>
      (hplaced source hsource).imp fun _ h => h.1
    refine ⟨parts, hparts, fun t ht p hp => ?_⟩
    obtain ⟨part, hpart, hp⟩ := List.mem_flatten.1 hp
    obtain ⟨source, hsource, hof⟩ := (mem_of_mapM_eq_ok hparts).1 hpart
    obtain ⟨placed, hplaced, hall⟩ := hplaced source hsource
    rw [hof, Except.ok.injEq] at hplaced
    exact hall p (hplaced ▸ hp) t ht
  · rintro ⟨parts, hparts, hall⟩ source hsource
    obtain ⟨placed, hplaced⟩ := succeeds_mapM.1 ⟨parts, hparts⟩ source hsource
    have hmem := (mem_of_mapM_eq_ok hparts).2 ⟨source, hsource, hplaced⟩
    exact ⟨_, (shares_eq_ok hnonempty htargets).2 ⟨placed, hplaced,
      fun p hp t ht => hall t ht p (List.mem_flatten.2 ⟨placed, hmem, hp⟩), rfl⟩⟩

/-- The shares of the sources are those of the targets, gone through in the other order. -/
theorem shares_perm {sources : List (Source R)} {parts : List (List (Placed R))}
    (hnonempty : targets ≠ []) (htargets : ctx.targets site = .ok targets)
    (hparts : sources.mapM (placedOf site ctx targets) = .ok parts)
    (hall : ∀ t ∈ targets, ∀ p ∈ parts.flatten, Succeeds (sharesFor site ctx t.key p)) :
    (sources.flatMap fun source => listed (shares site ctx source)).Perm
      (tallyShares site ctx parts.flatten targets) := by
  have hsource : ∀ source ∈ sources, listed (shares site ctx source) =
      (listed (placedOf site ctx targets source)).flatMap
        fun p => targets.flatMap fun t => listed (sharesFor site ctx t.key p) := by
    intro source hsource
    obtain ⟨placed, hplaced⟩ := succeeds_mapM.1 ⟨parts, hparts⟩ source hsource
    have hmem := (mem_of_mapM_eq_ok hparts).2 ⟨source, hsource, hplaced⟩
    have hsucceeds : ∀ p ∈ placed, ∀ t ∈ targets, Succeeds (sharesFor site ctx t.key p) :=
      fun p hp t ht => hall t ht p (List.mem_flatten.2 ⟨placed, hmem, hp⟩)
    rw [(shares_eq_ok hnonempty htargets).2 ⟨placed, hplaced, hsucceeds, rfl⟩, hplaced, listed_ok,
      listed_ok]
    exact List.flatMap_congr fun p hp => listed_gather (hsucceeds p hp)
  -- contribution by contribution, and target by target within each of them
  rw [List.flatMap_congr hsource, ← List.flatMap_assoc, ← flatten_of_mapM_eq_ok hparts]
  exact flatMap_comm_perm _ _ _

theorem succeeds_of_collect {sources : List (Source R)} {r : Results R}
    (hcollect : collect sources site ctx = .ok r) :
    Succeeds (ctx.targets site) ∧ ∀ source ∈ sources, Succeeds (shares site ctx source) := by
  obtain ⟨targets, htargets, _⟩ := bind_eq_ok.1 hcollect
  refine ⟨⟨targets, htargets⟩, ?_⟩
  by_cases hnonempty : targets = []
  · rw [hnonempty] at htargets
    exact fun source _ => ⟨[], shares_of_nil htargets source⟩
  · obtain ⟨groups, hgroups, contributions, hcontributions, cells, hcells, htally⟩ :=
      (collect_of_targets hnonempty htargets).1 hcollect
    obtain ⟨parts, hparts, hzip⟩ :=
      placed_of_sources.1 ⟨groups, hgroups, contributions, cells, hcontributions, hcells, rfl⟩
    have hall := succeeds_of_tally htally
    rw [hzip] at hall
    exact (succeeds_shares hnonempty htargets).2 ⟨parts, hparts, hall⟩

/-- Collecting from a list of sources comes to counting what each of them counts with. -/
theorem counts_collect [KeyRules R] [ProbabilityRules R] {sources : List (Source R)}
    (htargets : Succeeds (ctx.targets site))
    (hsources : ∀ source ∈ sources, Succeeds (shares site ctx source))
    (hcoherent : Coherent (sources.flatMap fun source => listed (shares site ctx source))) :
    ∃ r, collect sources site ctx = .ok r ∧
      r.Counts (sources.flatMap fun source => listed (shares site ctx source)) := by
  obtain ⟨targets, htargets⟩ := htargets
  by_cases hnonempty : targets = []
  · subst hnonempty
    have hnil : (sources.flatMap fun source => listed (shares site ctx source)) = [] := by
      simp [shares_of_nil htargets]
    refine ⟨SortedMap.empty, ?_, hnil ▸ .empty⟩
    rw [collect, htargets]
    rfl
  · obtain ⟨parts, hparts, hall⟩ := (succeeds_shares hnonempty htargets).1 hsources
    have hperm := shares_perm hnonempty htargets hparts hall
    obtain ⟨groups, hgroups, contributions, cells, hcontributions, hcells, hzip⟩ :=
      placed_of_sources.2 ⟨parts, hparts, rfl⟩
    rw [hzip] at hall hperm
    obtain ⟨r, hr, hcounts⟩ := counts_tally hall (hcoherent.mono fun s hs => hperm.mem_iff.2 hs)
    refine ⟨r, ?_, hcounts.perm hperm.symm⟩
    exact (collect_of_targets hnonempty htargets).2
      ⟨groups, hgroups, contributions, hcontributions, cells, hcells, hr⟩

end Collection

end SeismicHazard

end
