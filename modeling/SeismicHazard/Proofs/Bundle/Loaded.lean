import SeismicHazard.Bundle.Load
import SeismicHazard.Proofs.Outcome

/-!
# What is loaded

A job that is loaded consists of what its arrays were read as, part by part. Names have been looked
up then: every source lies in a declared region, and every realization has a row of coefficients for
every region and measure. Realizations are numbered in order.
-/

namespace SeismicHazard

variable {R : Type} [Scalar R]

namespace Bundle

variable {bundle : Bundle R} {base : Config R} {stored : StoredJob R}

theorem load_eq_ok : bundle.load base = .ok stored ↔
    bundle.config base = .ok stored.cfg ∧
      (∃ names, bundle.names "meta_trt" = .ok names ∧
        Regions.ofNames (R := R) names = .ok stored.regions) ∧
      bundle.sites = .ok stored.sites ∧
      bundle.sources stored.regions.names stored.cfg.investigationTime = .ok stored.sources ∧
      bundle.realizations stored.regions.names stored.cfg.imts = .ok stored.realizations ∧
      bundle.curves stored.cfg stored.sites (stored.realizations.map StoredRealization.id) =
        .ok stored.curves := by
  simp only [load, bind_eq_ok, pure_eq_ok]
  constructor
  · rintro ⟨cfg, hcfg, names, hnames, regions, hregions, sites, hsites, sources, hsources,
      realizations, hrealizations, curves, hcurves, rfl⟩
    exact ⟨hcfg, ⟨names, hnames, hregions⟩, hsites, hsources, hrealizations, hcurves⟩
  · rintro ⟨hcfg, ⟨names, hnames, hregions⟩, hsites, hsources, hrealizations, hcurves⟩
    exact ⟨_, hcfg, names, hnames, _, hregions, _, hsites, _, hsources, _, hrealizations, _,
      hcurves, rfl⟩

/-! ## Sources -/

theorem mem_of_regionName? {regions : List String} {index : Int} {name : String}
    (hname : regionName? regions index = some name) : name ∈ regions := by
  unfold regionName? at hname
  split at hname
  next => simp at hname
  next => exact List.mem_of_getElem? hname

omit [Scalar R] in
theorem source_eq_ok {regions : List String} {timeSpan : R} {bins : List (R × R)}
    {row : SourceRow R} {number : Nat} {source : PointSource R} :
    bundle.source regions timeSpan bins row number = .ok source ↔
      ∃ region rates, regionName? regions row.region = some region ∧
        slice? bins row.places.1 row.places.2 = some rates ∧
        source = { id := s!"src-{number}", region, location := row.location, depth := row.depth,
                   rates, timeSpan } := by
  unfold Bundle.source
  cases regionName? regions row.region with
  | none => simp [fail]
  | some region =>
      cases slice? bins row.places.1 row.places.2 with
      | none => simp [fail]
      | some rates => simp [eq_comm]

omit [Scalar R] in
/-- Every source lies in a declared region, and its ruptures occur during the given time. -/
theorem mem_sources {regions : List String} {timeSpan : R} {sources : List (PointSource R)}
    (hsources : bundle.sources regions timeSpan = .ok sources) {source : PointSource R}
    (hsource : source ∈ sources) : source.region ∈ regions ∧ source.timeSpan = timeSpan := by
  obtain ⟨columns, _, hrows⟩ := bind_eq_ok.1 hsources
  obtain ⟨⟨row, number⟩, _, hof⟩ := (mem_of_mapM_eq_ok hrows).1 hsource
  obtain ⟨region, rates, hregion, _, rfl⟩ := source_eq_ok.1 hof
  exact ⟨mem_of_regionName? hregion, rfl⟩

/-! ## Realizations -/

theorem keys_rowsFor (table : Array R) (regions : Nat) (measures : List String) (r t : Nat) :
    (rowsFor table regions measures r t).map Prod.fst = measures := by
  rw [rowsFor, List.map_map]
  exact List.zipIdx_map_fst 0 measures

/-- Realizations are numbered in order, and each has a row for every region and measure. -/
theorem mem_realizations {regions measures : List String}
    {realizations : List (StoredRealization R)}
    (hrealizations : bundle.realizations regions measures = .ok realizations) :
    (realizations.map StoredRealization.id).Nodup ∧
      ∀ realization ∈ realizations, realization.rows.map Prod.fst = regions ∧
        ∀ rows ∈ realization.rows, rows.2.map Prod.fst = measures := by
  obtain ⟨⟨shape, table⟩, _, hrealizations⟩ := bind_eq_ok.1 hrealizations
  dsimp only at hrealizations
  split at hrealizations
  next => simp [fail, bind, Except.bind] at hrealizations
  next =>
    obtain ⟨weights, _, hrealizations⟩ := bind_eq_ok.1 hrealizations
    split at hrealizations
    next => simp [fail, bind, Except.bind] at hrealizations
    next =>
      rw [← pure_eq_ok.1 hrealizations]
      constructor
      · rw [List.map_map]
        change (weights.zipIdx.map Prod.snd).Nodup
        rw [List.zipIdx_map_snd]
        exact List.nodup_range'
      · intro realization hrealization
        obtain ⟨⟨weight, id⟩, _, rfl⟩ := List.mem_map.1 hrealization
        refine ⟨?_, fun rows hrows => ?_⟩
        · rw [List.map_map]
          exact List.zipIdx_map_fst 0 regions
        · obtain ⟨⟨region, t⟩, _, rfl⟩ := List.mem_map.1 hrows
          exact keys_rowsFor _ _ _ _ _

end Bundle

end SeismicHazard
