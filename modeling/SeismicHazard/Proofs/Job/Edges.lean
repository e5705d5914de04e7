import SeismicHazard.Job
import SeismicHazard.Proofs.Collection.Nearby
import SeismicHazard.Proofs.Edges.Bounds
import SeismicHazard.Proofs.Keys
import SeismicHazard.Proofs.SortedMap

/-!
# The first pass over a job

Edges follow from the magnitudes of all ruptures of a branch and from the bounds of its ruptures
near a site. The table of a job has edges for every branch and site that needs them, and only such
edges.
-/

noncomputable section

namespace SeismicHazard

namespace Job

variable {R : Type}

/-! ## Storing edges -/

/-- Puts the edges that were found at sites under the keys of a branch. -/
def putEdges (branch : Branch R) (table : EdgeTable R) (found : List (Nat × Option (BinEdges R))) :
    EdgeTable R :=
  found.foldl (fun table entry =>
    match entry.2 with
    | some edges => table.insert ⟨branch.id, entry.1⟩ edges
    | none => table) table

theorem foldl_eq_putEdges {branch : Branch R}
    {step : EdgeTable R → Nat × Option (BinEdges R) → EdgeTable R}
    (hnone : ∀ table site, step table (site, none) = table)
    (hsome : ∀ table site edges, step table (site, some edges) =
      table.insert ⟨branch.id, site⟩ edges)
    (table : EdgeTable R) (found : List (Nat × Option (BinEdges R))) :
    found.foldl step table = putEdges branch table found := by
  unfold putEdges
  congr
  funext table entry
  obtain ⟨site, edges?⟩ := entry
  cases edges? with
  | none => exact hnone table site
  | some edges => exact hsome table site edges

/-- The edges that are found under a key, in the order of the sites. -/
def foundUnder (branch : Branch R) (key : EdgeKey) (found : List (Nat × Option (BinEdges R))) :
    List (BinEdges R) :=
  found.filterMap fun entry => if key = ⟨branch.id, entry.1⟩ then entry.2 else none

theorem mem_foundUnder {branch : Branch R} {key : EdgeKey}
    {found : List (Nat × Option (BinEdges R))} {e : BinEdges R} :
    e ∈ foundUnder branch key found ↔ ∃ site, key = ⟨branch.id, site⟩ ∧ (site, some e) ∈ found := by
  simp only [foundUnder, List.mem_filterMap, Option.ite_none_right_eq_some]
  constructor
  · rintro ⟨⟨site, e?⟩, hmem, hkey, rfl⟩
    exact ⟨site, hkey, hmem⟩
  · rintro ⟨site, hkey, hmem⟩
    exact ⟨(site, some e), hmem, hkey, rfl⟩

/-- Of the edges found under a key the last ones stay. -/
theorem get?_putEdges (branch : Branch R) (table : EdgeTable R) (key : EdgeKey)
    (found : List (Nat × Option (BinEdges R))) :
    (putEdges branch table found).get? key =
      (foundUnder branch key found).getLast?.or (table.get? key) := by
  induction found using List.reverseRecOn with
  | nil => rfl
  | append_singleton before entry ih =>
      obtain ⟨site, e?⟩ := entry
      have hput : putEdges branch table (before ++ [(site, e?)]) =
          putEdges branch (putEdges branch table before) [(site, e?)] := List.foldl_append ..
      rw [hput, foundUnder, List.filterMap_append, ← foundUnder]
      cases e? with
      | none =>
          change (putEdges branch table before).get? key = _
          simp [ih]
      | some e =>
          change ((putEdges branch table before).insert ⟨branch.id, site⟩ e).get? key = _
          rw [SortedMap.get?_insert]
          split
          next hkey => simp [hkey]
          next hkey => simp [hkey, ih]

theorem get?_putEdges_eq_some {branch : Branch R} {table : EdgeTable R} {key : EdgeKey}
    {found : List (Nat × Option (BinEdges R))} {e : BinEdges R}
    (hget : (putEdges branch table found).get? key = some e) :
    table.get? key = some e ∨ ∃ site, key = ⟨branch.id, site⟩ ∧ (site, some e) ∈ found := by
  rw [get?_putEdges, Option.or_eq_some_iff] at hget
  rcases hget with hlast | ⟨_, htable⟩
  · exact .inr (mem_foundUnder.1 (List.mem_of_getLast? hlast))
  · exact .inl htable

theorem exists_get?_putEdges {branch : Branch R} {table : EdgeTable R} {key : EdgeKey}
    {found : List (Nat × Option (BinEdges R))}
    (hkey : (∃ e, table.get? key = some e) ∨
      ∃ site e, key = ⟨branch.id, site⟩ ∧ (site, some e) ∈ found) :
    ∃ e, (putEdges branch table found).get? key = some e := by
  rw [get?_putEdges]
  cases hlast : (foundUnder branch key found).getLast? with
  | some e => exact ⟨e, rfl⟩
  | none =>
      rcases hkey with ⟨e, htable⟩ | ⟨site, e, hkey, hmem⟩
      · exact ⟨e, htable⟩
      · have hfound := mem_foundUnder.2 ⟨site, hkey, hmem⟩
        rw [List.getLast?_eq_none_iff.1 hlast] at hfound
        simp at hfound

variable [Scalar R] {job : Job R}

/-! ## Edges of a branch at a site -/

/-- A rupture as it is seen from a site. -/
def seenFrom (site : Site R) (rupture : Rupture R) : R × Point R :=
  (rupture.distanceTo site.location, rupture.closestPoint site.location)

theorem siteBounds_eq_ok {sources : List (Source R)} {site : Site R} {cfg : Config R}
    {bounds : SiteBounds R} :
    siteBounds sources site cfg = .ok bounds ↔
      (∀ source ∈ sources, source.isFar site.location cfg.maximumDistance = false →
        Succeeds source.ruptures) ∧
      bounds = SiteBounds.ofList
        ((sources.flatMap (·.nearby site cfg.maximumDistance)).map (seenFrom site)) := by
  rw [siteBounds, bind_eq_ok, ← succeeds_rupturesNear, SiteBounds.ofList]
  constructor
  · rintro ⟨groups, hgroups, hbounds⟩
    refine ⟨⟨groups, hgroups⟩, ?_⟩
    rw [← rupturesNear_eq_ok hgroups, List.foldl_map]
    exact (pure_eq_ok.1 hbounds).symm
  · rintro ⟨⟨groups, hgroups⟩, rfl⟩
    refine ⟨groups, hgroups, ?_⟩
    rw [← rupturesNear_eq_ok hgroups, List.foldl_map]
    rfl

theorem magRange_eq_ok {branch : Branch R} {mags : Option (MagRange R)} :
    magRange branch = .ok mags ↔
      (∀ source ∈ branch.sources, Succeeds source.ruptures) ∧
      mags = MagRange.ofList
        ((branch.sources.flatMap fun source => listed source.ruptures).map Rupture.mag) := by
  have hnamed : ∀ source : Source R, (Succeeds source.rupturesNamed ↔ Succeeds source.ruptures) ∧
      listed source.rupturesNamed = listed source.ruptures := by
    intro source
    simp only [Source.rupturesNamed]
    cases hruptures : source.ruptures with
    | error e => simp [Except.inSource, Except.mapError, listed]
    | ok ruptures => simp [Except.inSource, Except.mapError]
  have hopen : magRange branch = (fun ruptures => MagRange.ofList (ruptures.map Rupture.mag)) <$>
      gather Source.rupturesNamed branch.sources := by
    simp only [magRange, gather, Functor.map_map]
    rfl
  rw [hopen, map_eq_ok]
  simp only [gather_eq_ok, (hnamed _).1, (hnamed _).2]
  constructor
  · rintro ⟨_, ⟨hall, rfl⟩, rfl⟩
    exact ⟨hall, rfl⟩
  · rintro ⟨hall, rfl⟩
    exact ⟨_, ⟨hall, rfl⟩, rfl⟩

/-- The edges of a branch at a site, if they are needed. -/
def edgesOf? (job : Job R) (branch : Branch R) (site : Site R) :
    Except (Error R) (Option (BinEdges R)) := do
  let mags ← magRange branch
  job.edgesAt? branch mags site

/-- The ruptures of a branch near a site. -/
def nearbyOf (job : Job R) (branch : Branch R) (site : Site R) : List (Rupture R) :=
  branch.sources.flatMap (·.nearby site job.cfg.maximumDistance)

/-- The magnitudes of a branch. -/
def branchMags (branch : Branch R) : List R :=
  (branch.sources.flatMap fun source => listed source.ruptures).map Rupture.mag

/-- Edges are built where there are curves and ruptures near the site. -/
theorem edgesOf?_eq_ok {branch : Branch R} {site : Site R} {edges? : Option (BinEdges R)}
    (hedges : job.edgesOf? branch site = .ok edges?) :
    (∀ source ∈ branch.sources, Succeeds source.ruptures) ∧
      if job.curves.hasSite site.id = true then
        BinEdges.ofBounds? (SiteBounds.ofList ((job.nearbyOf branch site).map (seenFrom site)))
          (MagRange.ofList (branchMags branch)) job.cfg = .ok edges?
      else edges? = none := by
  obtain ⟨mags, hmags, hedges⟩ := bind_eq_ok.1 hedges
  obtain ⟨hall, rfl⟩ := magRange_eq_ok.1 hmags
  refine ⟨hall, ?_⟩
  unfold edgesAt? at hedges
  cases hsite : job.curves.hasSite site.id with
  | false =>
      rw [hsite] at hedges
      exact (Except.ok.inj hedges).symm
  | true =>
      rw [hsite] at hedges
      obtain ⟨bounds, hbounds, hedges⟩ := bind_eq_ok.1 hedges
      obtain ⟨_, rfl⟩ := siteBounds_eq_ok.1 hbounds
      exact hedges

theorem mag_mem_branchMags {branch : Branch R} {site : Site R} {rupture : Rupture R}
    (hrupture : rupture ∈ job.nearbyOf branch site) : rupture.mag ∈ branchMags branch := by
  obtain ⟨source, hsource, hnear⟩ := List.mem_flatMap.1 hrupture
  exact List.mem_map_of_mem
    (List.mem_flatMap.2 ⟨source, hsource, Source.mem_ruptures_of_mem_nearby hnear⟩)

/-- Ruptures near a site have extremes, and so have the magnitudes of their branch. -/
theorem exists_extremes {branch : Branch R} {site : Site R}
    (hnonempty : job.nearbyOf branch site ≠ []) :
    ∃ s mags, SiteBounds.ofList ((job.nearbyOf branch site).map (seenFrom site)) = ⟨some s⟩ ∧
      MagRange.ofList (branchMags branch) = some mags := by
  obtain ⟨rupture, rest, hcons⟩ := List.exists_cons_of_ne_nil hnonempty
  have hseen : (job.nearbyOf branch site).map (seenFrom site) ≠ [] := by simpa using hnonempty
  obtain ⟨s, hs⟩ := SiteBounds.exists_spread hseen
  obtain ⟨mags, hmags⟩ := MagRange.exists_range
    (List.ne_nil_of_mem (mag_mem_branchMags (hcons ▸ List.mem_cons_self)))
  exact ⟨s, mags, hs, hmags⟩

/-- Edges that are built come from the extremes of the ruptures near the site and of the
magnitudes of the branch. -/
theorem built_of_edgesOf? {branch : Branch R} {site : Site R} {edges : BinEdges R}
    (hedges : job.edgesOf? branch site = .ok (some edges)) :
    ∃ s mags, SiteBounds.ofList ((job.nearbyOf branch site).map (seenFrom site)) = ⟨some s⟩ ∧
      MagRange.ofList (branchMags branch) = some mags ∧ BinEdges.Built s mags job.cfg edges := by
  obtain ⟨_, hbuilt⟩ := edgesOf?_eq_ok hedges
  split at hbuilt
  next hsite =>
    -- without ruptures near the site there are no bounds to build edges from
    have hnonempty : job.nearbyOf branch site ≠ [] := by
      intro hnil
      rw [hnil] at hbuilt
      have hnone := BinEdges.ofBounds?_empty.symm.trans hbuilt
      simp at hnone
    obtain ⟨s, mags, hs, hmags⟩ := exists_extremes hnonempty
    rw [hs, hmags] at hbuilt
    obtain ⟨e, he, hbuilt⟩ := BinEdges.ofBounds?_eq_ok.1 hbuilt
    rw [Option.some.inj he]
    exact ⟨s, mags, hs, hmags, hbuilt⟩
  next => simp at hbuilt

/-- Where there are curves and ruptures near the site, edges are needed. -/
theorem exists_edgesOf? {branch : Branch R} {site : Site R} {edges? : Option (BinEdges R)}
    (hedges : job.edgesOf? branch site = .ok edges?)
    (hsite : job.curves.hasSite site.id = true) (hnonempty : job.nearbyOf branch site ≠ []) :
    ∃ edges, edges? = some edges := by
  obtain ⟨_, hbuilt⟩ := edgesOf?_eq_ok hedges
  obtain ⟨s, mags, hs, hmags⟩ := exists_extremes hnonempty
  rw [if_pos hsite, hs, hmags] at hbuilt
  obtain ⟨e, he, _⟩ := BinEdges.ofBounds?_eq_ok.1 hbuilt
  exact ⟨e, he⟩

/-! ## The table of a job -/

theorem addEdges_eq_ok {table next : EdgeTable R} {branch : Branch R} :
    job.addEdges table branch = .ok next ↔ Succeeds (magRange branch) ∧
      ∃ found, job.sites.mapM (fun site => (site.id, ·) <$> job.edgesOf? branch site) = .ok found ∧
        next = putEdges branch table found := by
  simp only [addEdges, bind_eq_ok, pure_eq_ok]
  constructor
  · rintro ⟨mags, hmags, found, hfound, rfl⟩
    refine ⟨⟨mags, hmags⟩, found, ?_, foldl_eq_putEdges (fun _ _ => rfl) (fun _ _ _ => rfl) _ _⟩
    simp only [edgesOf?, hmags]
    exact hfound
  · rintro ⟨⟨mags, hmags⟩, found, hfound, rfl⟩
    refine ⟨mags, hmags, found, ?_, foldl_eq_putEdges (fun _ _ => rfl) (fun _ _ _ => rfl) _ _⟩
    simp only [edgesOf?, hmags] at hfound
    exact hfound

/-- Stored edges are those of a branch and a site of the job with the numbers of the key. -/
theorem edgesOf?_of_get? {table : EdgeTable R} (htable : job.edges = .ok table) {key : EdgeKey}
    {e : BinEdges R} (hget : table.get? key = some e) :
    ∃ branch ∈ job.branches, ∃ site ∈ job.sites, key = ⟨branch.id, site.id⟩ ∧
      job.edgesOf? branch site = .ok (some e) := by
  have hall := step_of_foldlM (motive := fun (before : List (Branch R)) (table : EdgeTable R) =>
    ∀ e, table.get? key = some e → ∃ branch ∈ before, ∃ site ∈ job.sites,
      key = ⟨branch.id, site.id⟩ ∧ job.edgesOf? branch site = .ok (some e)) htable (by simp) ?_
  · exact hall e hget
  intro before branch after table next _ hbefore hnext e hget
  obtain ⟨_, found, hfound, rfl⟩ := addEdges_eq_ok.1 hnext
  rcases get?_putEdges_eq_some hget with hold | ⟨id, hkey, hmem⟩
  · obtain ⟨b, hb, hrest⟩ := hbefore e hold
    exact ⟨b, List.mem_append_left _ hb, hrest⟩
  · obtain ⟨site, hsite, hof⟩ := (mem_of_mapM_eq_ok hfound).1 hmem
    obtain ⟨e?, he, heq⟩ := map_eq_ok.1 hof
    obtain ⟨rfl, rfl⟩ := Prod.mk.inj heq
    exact ⟨branch, by simp, site, hsite, hkey, he⟩

/-- Edges that are needed are stored, or other ones under the same numbers. -/
theorem exists_get?_of_edgesOf? {table : EdgeTable R} (htable : job.edges = .ok table)
    {branch : Branch R} (hbranch : branch ∈ job.branches) {site : Site R}
    (hsite : site ∈ job.sites) :
    ∃ e?, job.edgesOf? branch site = .ok e? ∧
      ∀ e, e? = some e → ∃ e', table.get? ⟨branch.id, site.id⟩ = some e' := by
  have hall := step_of_foldlM (motive := fun (before : List (Branch R)) (table : EdgeTable R) =>
    ∀ branch ∈ before, ∃ e?, job.edgesOf? branch site = .ok e? ∧
      ∀ e, e? = some e → ∃ e', table.get? ⟨branch.id, site.id⟩ = some e') htable (by simp) ?_
  · exact hall branch hbranch
  intro before branch after table next _ hbefore hnext b hb
  obtain ⟨_, found, hfound, rfl⟩ := addEdges_eq_ok.1 hnext
  rcases List.mem_append.1 hb with hb | hb
  · obtain ⟨e?, he, hstored⟩ := hbefore b hb
    exact ⟨e?, he, fun e hsome => exists_get?_putEdges (.inl (hstored e hsome))⟩
  · rw [List.mem_singleton.1 hb]
    obtain ⟨pair, hpair⟩ := succeeds_mapM.1 ⟨found, hfound⟩ site hsite
    have hmem := (mem_of_mapM_eq_ok hfound).2 ⟨site, hsite, hpair⟩
    obtain ⟨e?, he, rfl⟩ := map_eq_ok.1 hpair
    refine ⟨e?, he, ?_⟩
    rintro e rfl
    exact exists_get?_putEdges (.inr ⟨site.id, e, rfl, hmem⟩)

end Job

end SeismicHazard

end
