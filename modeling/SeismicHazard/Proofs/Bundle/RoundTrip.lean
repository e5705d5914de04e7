import SeismicHazard.Proofs.Bundle.Encoding
import SeismicHazard.Proofs.Bundle.Loaded
import SeismicHazard.Proofs.HazardCurve.Levels
import SeismicHazard.Proofs.Keys
import SeismicHazard.Proofs.SortedMap

/-!
# Loading what was stored

A job that is stored and loaded again is the same job. Each group of arrays is read back on its own:
names and magnitudes between their places, coefficients from their blocks, curves from the arrays
that have their numbers in their names.
-/

namespace SeismicHazard

/-! ## Reading single arrays -/

namespace Bundle

variable {R : Type} {bundle : Bundle R} {name group : String}

theorem numbers_eq_ok {values : List R} (hfound : bundle.find? name = some (.ofNumbers values)) :
    bundle.numbers name = .ok values := by
  rw [numbers, read, hfound]
  rfl

theorem longs_eq_ok {values : List Int} (hfound : bundle.find? name = some (.ofLongs values)) :
    bundle.longs name = .ok values := by
  rw [longs, read, hfound]
  rfl

theorem ints_eq_ok {n : Nat} {values : List Int}
    (hfound : bundle.find? name = some ⟨[n], .ints values⟩) : bundle.ints name = .ok values := by
  rw [ints, read, hfound]
  rfl

theorem bytes_eq_ok {values : List UInt8}
    (hfound : bundle.find? name = some (.ofBytes values)) : bundle.bytes name = .ok values := by
  rw [bytes, read, hfound]
  rfl

/-- Packed names are read back, empty ones included. -/
theorem names_eq_ok {names : List String}
    (hdata : bundle.find? s!"{group}_data" = some (.ofBytes (names.map Text.toBytes).flatten))
    (hplaces : bundle.find? s!"{group}_indptr" =
      some (.ofLongs (places 0 (names.map Text.toBytes)))) :
    bundle.names group = .ok names := by
  unfold Bundle.names
  refine bind_eq_ok.2 ⟨_, bytes_eq_ok hdata, bind_eq_ok.2 ⟨_, longs_eq_ok hplaces, ?_⟩⟩
  have hslices := forall₂_slice? [] (names.map Text.toBytes)
  rw [List.forall₂_map_right_iff, List.nil_append, List.length_nil] at hslices
  apply mapM_eq_ok.2
  apply hslices.imp
  intro place text hslice
  simp [Bundle.name, hslice]

end Bundle

theorem Regions.firstRepeated?_eq_none {seen names : List String} (hnodup : names.Nodup)
    (hfresh : ∀ name ∈ names, name ∉ seen) : firstRepeated? seen names = none := by
  induction names generalizing seen with
  | nil => rfl
  | cons name rest ih =>
      obtain ⟨hname, hrest⟩ := List.nodup_cons.1 hnodup
      rw [firstRepeated?, if_neg (hfresh name List.mem_cons_self)]
      apply ih hrest
      intro other hother hseen
      rcases List.mem_cons.1 hseen with rfl | hseen
      · exact hname hother
      · exact hfresh other (List.mem_cons_of_mem _ hother) hseen

theorem Regions.ofNames_of_nodup {R : Type} {names : List String} (hnodup : names.Nodup) :
    ofNames (R := R) names = .ok ⟨names, hnodup⟩ := by
  have hnone : firstRepeated? [] names = none := firstRepeated?_eq_none hnodup (by simp)
  unfold ofNames
  split
  next => rfl
  next hsome => simp [hnone] at hsome

theorem HazardCurve.ofPoints_eq_ok {R : Type} [Scalar R] {levels poes : List R}
    {scale : InterpolationScale} (haccepted : fault? levels poes scale = none) :
    ofPoints levels poes scale = .ok ⟨levels, poes, scale, haccepted⟩ := by
  unfold ofPoints
  split
  next => rfl
  next hfault => simp [haccepted] at hfault

namespace JobDescription

variable {R : Type} [Scalar R] {d : JobDescription R} (path : String)

/-! ## Settings, sites and sources -/

omit [Scalar R] in
theorem measures_store : (d.store path).measures = .ok d.measures := by
  unfold Bundle.measures
  refine bind_eq_ok.2 ⟨d.imts, Bundle.names_eq_ok (find?_fixed rfl) (find?_fixed rfl), ?_⟩
  rw [mapM_eq_ok, List.forall₂_iff_get]
  refine ⟨by simp [imts], fun k hk hk' => ?_⟩
  have hlevels : (d.store path).numbers (levelsName k) = .ok d.measures[k].2 := by
    apply Bundle.numbers_eq_ok
    rw [find?_levels, List.getElem?_eq_getElem hk', Option.map_some]
  simp only [List.get_eq_getElem, List.getElem_zipIdx, imts, List.getElem_map, Nat.zero_add]
  exact bind_eq_ok.2 ⟨_, hlevels, rfl⟩

omit [Scalar R] in
theorem config_store (base : Config R) : (d.store path).config base = .ok (d.config base) := by
  have htime : (d.store path).scalar "meta_investigation_time" = .ok d.investigationTime :=
    bind_eq_ok.2 ⟨[d.investigationTime], Bundle.numbers_eq_ok (find?_fixed rfl), rfl⟩
  unfold Bundle.config
  exact bind_eq_ok.2 ⟨_, htime, bind_eq_ok.2 ⟨_, Bundle.numbers_eq_ok (find?_fixed rfl),
    bind_eq_ok.2 ⟨_, measures_store path, rfl⟩⟩⟩

omit [Scalar R] in
theorem sites_store : (d.store path).sites = .ok d.numberedSites := by
  have hsites : (d.sites.map Point.lon).zip (d.sites.map Point.lat) =
      d.sites.map fun point => (point.lon, point.lat) := List.zip_map' ..
  unfold Bundle.sites
  refine bind_eq_ok.2 ⟨_, Bundle.numbers_eq_ok (find?_fixed rfl), ?_⟩
  refine bind_eq_ok.2 ⟨_, Bundle.numbers_eq_ok (find?_fixed rfl), ?_⟩
  simp only [List.length_map, bne_self_eq_false, Bool.false_eq_true, if_false, hsites,
    List.zipIdx_map, List.map_map]
  rfl

omit [Scalar R] in
theorem sourceColumns_store : (d.store path).sourceColumns = .ok d.columns := by
  unfold Bundle.sourceColumns
  refine bind_eq_ok.2 ⟨_, Bundle.numbers_eq_ok (find?_fixed rfl), ?_⟩
  refine bind_eq_ok.2 ⟨_, Bundle.numbers_eq_ok (find?_fixed rfl), ?_⟩
  refine bind_eq_ok.2 ⟨_, Bundle.numbers_eq_ok (find?_fixed rfl), ?_⟩
  refine bind_eq_ok.2 ⟨_, Bundle.ints_eq_ok (find?_fixed rfl), ?_⟩
  refine bind_eq_ok.2 ⟨_, Bundle.longs_eq_ok (find?_fixed rfl), ?_⟩
  refine bind_eq_ok.2 ⟨_, Bundle.numbers_eq_ok (find?_fixed rfl), ?_⟩
  refine bind_eq_ok.2 ⟨_, Bundle.numbers_eq_ok (find?_fixed rfl), ?_⟩
  simp only [columns, List.length_map, length_places, bne_self_eq_false, Bool.or_self,
    Bool.false_eq_true, if_false]
  rfl

omit [Scalar R] in
theorem sources_store (hdeclared : ∀ source ∈ d.sources, source.region ∈ d.regions) :
    (d.store path).sources d.regions d.investigationTime = .ok d.pointSources := by
  have hbins : d.columns.mags.zip d.columns.rates = d.bins := by
    simp [columns, List.zip_map']
  have hlength : d.columns.rows.length = d.sources.length := by
    simp [columns, Bundle.SourceColumns.rows]
  unfold Bundle.sources
  refine bind_eq_ok.2 ⟨d.columns, sourceColumns_store path, ?_⟩
  rw [hbins, mapM_eq_ok, List.forall₂_iff_get]
  refine ⟨by simp [pointSources, hlength], fun i hi hi' => ?_⟩
  have hrow : i < d.columns.rows.length := by simpa using hi
  have hsource : i < d.sources.length := hlength ▸ hrow
  have hregion : Bundle.regionName? d.regions d.columns.rows[i].region =
      some d.sources[i].region := by
    have hmem := hdeclared _ (List.getElem_mem hsource)
    simpa [columns, Bundle.SourceColumns.rows, Bundle.regionName?] using List.getElem?_idxOf hmem
  have hrates : slice? d.bins d.columns.rows[i].places.1 d.columns.rows[i].places.2 =
      some d.sources[i].rates := by
    have hslice := slice?_places (d.sources.map SourceDescription.rates) (i := i)
      (by simpa using hsource) (by simpa using hsource)
    simpa [columns, Bundle.SourceColumns.rows, bins] using hslice
  simp only [List.get_eq_getElem, List.getElem_zipIdx, pointSources, List.getElem_map,
    Nat.zero_add]
  refine Bundle.source_eq_ok.2 ⟨_, _, hregion, hrates, ?_⟩
  simp [columns, Bundle.SourceColumns.rows]

/-! ## Realizations -/

omit [Scalar R] in
/-- Where the coefficients of a realization, region and measure stand in the table. -/
theorem getElem?_table {r t k j : Nat} (hr : r < d.realizations) (ht : t < d.regions.length)
    (hk : k < d.measures.length) (hj : j < 5) :
    d.table[((r * d.regions.length + t) * d.measures.length + k) * 5 + j]? =
      (d.coefficients r t k).toList[j]? := by
  have hrow : ∀ r t k, (d.coefficients r t k).toList.length = 5 := fun _ _ _ => rfl
  have hmeasures : ∀ r t, ((List.range d.measures.length).flatMap fun k =>
      (d.coefficients r t k).toList).length = d.measures.length * 5 := by
    simp [List.length_flatMap, hrow]
  have hregions : ∀ r, ((List.range d.regions.length).flatMap fun t =>
      (List.range d.measures.length).flatMap fun k => (d.coefficients r t k).toList).length =
        d.regions.length * (d.measures.length * 5) := by
    simp [List.length_flatMap, hrow]
  have hplace : ((r * d.regions.length + t) * d.measures.length + k) * 5 + j =
      r * (d.regions.length * (d.measures.length * 5)) +
        (t * (d.measures.length * 5) + (k * 5 + j)) := by
    ring
  have hinner : k * 5 + j < d.measures.length * 5 := radix_lt hk hj
  rw [hplace, table, getElem?_blocks hregions hr (radix_lt ht hinner),
    getElem?_blocks (hmeasures r) ht hinner, getElem?_blocks (hrow r t) hk hj]

theorem coefficients_table {r t k : Nat} (hr : r < d.realizations) (ht : t < d.regions.length)
    (hk : k < d.measures.length) :
    Bundle.coefficients d.table.toArray
      (((r * d.regions.length + t) * d.measures.length + k) * 5) = d.coefficients r t k := by
  have hentry := fun j hj => getElem?_table hr ht hk (j := j) hj
  have hfirst := hentry 0 (by omega)
  rw [Nat.add_zero] at hfirst
  simp only [Bundle.coefficients, Array.getD_eq_getD_getElem?, List.getElem?_toArray, hfirst,
    hentry 1 (by omega), hentry 2 (by omega), hentry 3 (by omega), hentry 4 (by omega)]
  rfl

theorem rowsFor_table {r t : Nat} (hr : r < d.realizations) (ht : t < d.regions.length) :
    Bundle.rowsFor d.table.toArray d.regions.length d.imts r t = d.measureRows r t := by
  have himts : d.imts.length = d.measures.length := List.length_map ..
  apply List.map_congr_left
  rintro ⟨imt, k⟩ hk
  have hk : k < d.measures.length := himts ▸ List.snd_lt_of_mem_zipIdx hk
  rw [Prod.mk.injEq, himts]
  exact ⟨rfl, coefficients_table hr ht hk⟩

theorem weights_store (hd : d.WellFormed) :
    (d.store path).weights d.realizations = .ok d.allWeights := by
  have hhas : (d.store path).has "rlz_weights" = d.weights.isSome := by
    rw [Bundle.has, find?_weights, Option.isSome_map]
  unfold Bundle.weights
  rw [hhas]
  unfold allWeights
  cases hweights : d.weights with
  | some weights =>
      apply Bundle.numbers_eq_ok
      rw [find?_weights, hweights]
      rfl
  | none => exact bind_eq_ok.2 ⟨(), if_pos (hd.room hweights), rfl⟩

theorem WellFormed.length_allWeights (hd : d.WellFormed) :
    d.allWeights.length = d.realizations := by
  unfold allWeights
  cases hweights : d.weights with
  | some weights => exact hd.weights weights hweights
  | none => exact List.length_replicate

theorem realizations_store (hd : d.WellFormed) :
    (d.store path).realizations d.regions d.imts = .ok d.storedRealizations := by
  have hread : (d.store path).read "rlz_gmpe" 4 ArrayData.doubles? =
      .ok ([d.realizations, d.regions.length, d.measures.length, 5], d.table) := by
    rw [Bundle.read, find?_fixed rfl]
    rfl
  have himts : d.imts.length = d.measures.length := List.length_map ..
  unfold Bundle.realizations
  refine bind_eq_ok.2 ⟨_, hread, ?_⟩
  simp only [List.headD_cons, himts, bne_self_eq_false, Bool.false_eq_true, if_false]
  refine bind_eq_ok.2 ⟨_, weights_store path hd, ?_⟩
  simp only [hd.length_allWeights, bne_self_eq_false, Bool.false_eq_true, if_false]
  rw [pure_eq_ok]
  apply List.map_congr_left
  rintro ⟨weight, r⟩ hr
  have hr : r < d.realizations := hd.length_allWeights ▸ List.snd_lt_of_mem_zipIdx hr
  rw [StoredRealization.mk.injEq]
  refine ⟨rfl, rfl, List.map_congr_left ?_⟩
  rintro ⟨region, t⟩ ht
  rw [rowsFor_table hr (List.snd_lt_of_mem_zipIdx ht)]

/-- A realization predicts with its own coefficients, because names of regions and measures stand
for one of them each. -/
theorem predict_storedRealizations (hd : d.WellFormed) {realization : StoredRealization R}
    (hrealization : realization ∈ d.storedRealizations) {t : Nat} {region : String}
    (hregion : d.regions[t]? = some region) :
    ∃ model, realization.toRealization.model region = .ok model ∧
      ∀ k imt levels, d.measures[k]? = some (imt, levels) → ∀ mag distance,
        model.predict mag distance imt =
          (d.coefficients realization.id t k).predict mag distance := by
  obtain ⟨⟨weight, r⟩, _, rfl⟩ := List.mem_map.1 hrealization
  refine ⟨LogLinear.model (d.measureRows r t), ?_, ?_⟩
  · have hmodel : (StoredRealization.toRealization
        { id := r, weight, rows := d.regionRows r }).models.lookup region =
          some (LogLinear.model (d.measureRows r t)) := by
      apply lookup_numbered hd.regions (fun t => LogLinear.model (d.measureRows r t)) hregion
      rw [StoredRealization.toRealization, regionRows, List.map_map]
      exact .refl _
    rw [Realization.model, hmodel]
  · intro k imt levels hmeasure mag distance
    have hrow : (d.measureRows r t).reverse.lookup imt = some (d.coefficients r t k) :=
      lookup_numbered hd.imts (d.coefficients r t) (getElem?_imts hmeasure) (List.reverse_perm _)
    simp only [LogLinear.model, hrow]

/-! ## Curves -/

theorem IsCurve.accepted {levels poes : List R} (hcurve : IsCurve levels poes)
    (hincreasing : levels.IsChain (· < ·)) (hpositive : ∀ level ∈ levels, ¬ level ≤ 0)
    (scale : InterpolationScale) : HazardCurve.fault? levels poes scale = none := by
  obtain ⟨p, hp, _⟩ := hcurve.nonzero
  have hlength : 0 < levels.length := hcurve.length_eq ▸ List.length_pos_of_mem hp
  have hlevels : HazardCurve.allNeighbours (fun a b => decide (a < b)) levels = true := by
    simpa [HazardCurve.allNeighbours_iff] using hincreasing
  have hpoes : HazardCurve.allNeighbours (fun a b => !decide (a < b)) poes = true := by
    simpa [HazardCurve.allNeighbours_iff] using hcurve.decreasing
  have hprobabilities : poes.all Scalar.isProbability = true :=
    List.all_eq_true.2 hcurve.probabilities
  have hlowest : (levels.head?.any fun level => decide (level ≤ 0)) = false := by
    cases levels with
    | nil => rfl
    | cons lowest rest => simpa using hpositive lowest List.mem_cons_self
  have hnonempty : levels.isEmpty = false := by
    cases levels with
    | nil => simp at hlength
    | cons => rfl
  simp [HazardCurve.fault?, hnonempty, hcurve.length_eq, hlevels, hpoes, hprobabilities, hlowest]

omit [Scalar R] in
theorem ids_numberedSites : d.numberedSites.map Site.id = List.range d.sites.length := by
  rw [numberedSites, List.map_map, List.range_eq_range']
  exact List.zipIdx_map_snd 0 d.sites

theorem ids_storedRealizations (hd : d.WellFormed) :
    d.storedRealizations.map StoredRealization.id = List.range d.realizations := by
  rw [storedRealizations, List.map_map, List.range_eq_range', ← hd.length_allWeights]
  exact List.zipIdx_map_snd 0 d.allWeights

omit [Scalar R] in
/-- Curves are looked for under the numbers of all sites, realizations and measures. -/
theorem mem_curveSlots {base : Config R} {slot : CurveKey × Nat × List R} :
    slot ∈ Bundle.curveSlots (d.config base) d.numberedSites (List.range d.realizations) ↔
      slot.1.site < d.sites.length ∧ slot.1.realization < d.realizations ∧
        d.measures[slot.2.1]? = some (slot.1.imt, slot.2.2) := by
  have hsite : ∀ s, s < d.sites.length ↔ ∃ site ∈ d.numberedSites, site.id = s := by
    intro s
    rw [← List.mem_range, ← ids_numberedSites, List.mem_map]
  unfold Bundle.curveSlots
  constructor
  · intro hslot
    obtain ⟨site, hsites, hslot⟩ := List.mem_flatMap.1 hslot
    obtain ⟨r, hr, hslot⟩ := List.mem_flatMap.1 hslot
    obtain ⟨⟨⟨imt, levels⟩, k⟩, hk, rfl⟩ := List.mem_map.1 hslot
    exact ⟨(hsite _).2 ⟨site, hsites, rfl⟩, List.mem_range.1 hr,
      List.mk_mem_zipIdx_iff_getElem?.1 hk⟩
  · rintro ⟨hs, hr, hk⟩
    obtain ⟨site, hsites, hid⟩ := (hsite _).1 hs
    refine List.mem_flatMap.2 ⟨site, hsites, List.mem_flatMap.2 ⟨_, List.mem_range.2 hr, ?_⟩⟩
    refine List.mem_map.2 ⟨((slot.1.imt, slot.2.2), slot.2.1), ?_, ?_⟩
    · exact List.mk_mem_zipIdx_iff_getElem?.2 hk
    · rw [hid]

omit [Scalar R] in
theorem eq_of_measure (himts : d.imts.Nodup) {k k' : Nat} {imt : String} {levels levels' : List R}
    (hk : d.measures[k]? = some (imt, levels)) (hk' : d.measures[k']? = some (imt, levels')) :
    k = k' := by
  have himt : d.imts[k]? = some imt := getElem?_imts hk
  have hlt : k < d.imts.length := (List.getElem?_eq_some_iff.1 himt).1
  exact (List.getElem?_inj hlt himts).1 (himt.trans (getElem?_imts hk').symm)

theorem hasCurve_iff (himts : d.imts.Nodup) {scale : InterpolationScale} {key : CurveKey} {k : Nat}
    {levels : List R} (hs : key.site < d.sites.length) (hr : key.realization < d.realizations)
    (hk : d.measures[k]? = some (key.imt, levels)) {curve : HazardCurve R} :
    d.HasCurve scale key curve ↔ curve.levels = levels ∧ curve.scale = scale ∧
      d.curve? key.site key.realization k = some curve.poes := by
  constructor
  · intro hcurve
    obtain ⟨k', hk', hpoes⟩ := hcurve.measure
    obtain rfl : k = k' := eq_of_measure himts hk hk'
    rw [hk, Option.some.injEq, Prod.mk.injEq] at hk'
    exact ⟨hk'.2.symm, hcurve.scale_eq, hpoes⟩
  · rintro ⟨rfl, hscale, hpoes⟩
    exact ⟨hs, hr, ⟨k, hk, hpoes⟩, hscale⟩

theorem IsCurve.isAllZero {levels poes : List R} {scale : InterpolationScale}
    (hcurve : IsCurve levels poes) (haccepted : HazardCurve.fault? levels poes scale = none) :
    HazardCurve.isAllZero ⟨levels, poes, scale, haccepted⟩ = false := by
  obtain ⟨p, hp, hzero⟩ := hcurve.nonzero
  exact List.all_eq_false.2 ⟨p, hp, by simp [hzero]⟩

/-- The array of a slot, if there is one, is registered as a curve. -/
theorem addCurve_eq {scale : InterpolationScale} {key : CurveKey} {k : Nat} {levels : List R}
    (hslot : (key.site, key.realization, k) ∈ d.slots) (table : CurveTable R) :
    (d.store path).addCurve scale table (key, k, levels) =
      (d.curve? key.site key.realization k).elim (.ok table) fun poes =>
        table.register key <$> HazardCurve.ofPoints levels poes scale := by
  have hfound : (d.store path).find? (curveName (key.site, key.realization, k)) =
      (d.curve? key.site key.realization k).map StoredArray.ofNumbers := by
    rw [find?_curve, if_pos hslot]
  have hhas : (d.store path).has (curveName (key.site, key.realization, k)) =
      (d.curve? key.site key.realization k).isSome := by
    rw [Bundle.has, hfound, Option.isSome_map]
  have hadd : (d.store path).addCurve scale table (key, k, levels) =
      if (d.store path).has (curveName (key.site, key.realization, k)) then do
        let poes ← (d.store path).numbers (curveName (key.site, key.realization, k))
        let curve ← HazardCurve.ofPoints levels poes scale
        return table.register key curve
      else return table := rfl
  rw [hadd, hhas]
  cases hcurve : d.curve? key.site key.realization k with
  | none => rfl
  | some poes =>
      rw [hcurve] at hfound
      rw [Bundle.numbers_eq_ok hfound]
      rfl

/-- The array of a slot puts the curve that the job has there into a table. -/
theorem addCurve_store (hd : d.WellFormed) {scale : InterpolationScale} {key : CurveKey} {k : Nat}
    {levels : List R} (hs : key.site < d.sites.length) (hr : key.realization < d.realizations)
    (hk : d.measures[k]? = some (key.imt, levels)) {table : CurveTable R}
    (htable : ∀ curve, table.get? key = some curve → d.HasCurve scale key curve) :
    ∃ next, (d.store path).addCurve scale table (key, k, levels) = .ok next ∧
      ∀ key' curve, next.get? key' = some curve ↔
        if key' = key then d.HasCurve scale key curve else table.get? key' = some curve := by
  have hcurves : ∀ curve, d.HasCurve scale key curve ↔ _ := fun _ =>
    hasCurve_iff hd.imts hs hr hk
  have hslot : (key.site, key.realization, k) ∈ d.slots :=
    mem_slots.2 ⟨hs, hr, (List.getElem?_eq_some_iff.1 hk).1⟩
  rw [addCurve_eq path hslot]
  cases hcurve : d.curve? key.site key.realization k with
  | none =>
      refine ⟨table, rfl, fun key' curve => ?_⟩
      split
      next hkey =>
        subst hkey
        refine ⟨htable curve, fun hgiven => ?_⟩
        simp [((hcurves curve).1 hgiven).2.2] at hcurve
      next => rfl
  | some poes =>
      have hmem := List.mem_of_getElem? hk
      have hpoes : IsCurve levels poes := hd.curves _ _ _ _ _ _ hs hr hk hcurve
      have haccepted := hpoes.accepted (hd.increasing _ hmem) (hd.positive _ hmem) scale
      refine ⟨table.insert key ⟨levels, poes, scale, haccepted⟩, ?_, fun key' curve => ?_⟩
      · refine map_eq_ok.2 ⟨_, HazardCurve.ofPoints_eq_ok haccepted, ?_⟩
        rw [CurveTable.register, hpoes.isAllZero, if_neg Bool.false_ne_true]
      · rw [SortedMap.get?_insert]
        split
        next =>
          rw [hcurves, hcurve, Option.some.injEq, Option.some.injEq]
          constructor
          · rintro rfl
            exact ⟨rfl, rfl, rfl⟩
          · rintro ⟨rfl, rfl, rfl⟩
            rfl
        next => rfl

theorem curves_store (hd : d.WellFormed) (base : Config R) :
    ∃ table, (d.store path).curves (d.config base) d.numberedSites
        (d.storedRealizations.map StoredRealization.id) = .ok table ∧
      ∀ key curve, table.get? key = some curve ↔ d.HasCurve base.scale key curve := by
  rw [ids_storedRealizations hd]
  -- after some slots the table holds the curves that the job has there
  obtain ⟨table, htable, hcurves⟩ := foldlM_of_step
    (f := (d.store path).addCurve (d.config base).scale)
    (motive := fun (slots : List (CurveKey × Nat × List R)) (table : CurveTable R) =>
      ∀ key curve, table.get? key = some curve ↔
        key ∈ slots.map Prod.fst ∧ d.HasCurve base.scale key curve)
    (b := SortedMap.empty) (by simp) (by
      rintro done ⟨key, k, levels⟩ rest table hsplit htable
      obtain ⟨hs, hr, hk⟩ := mem_curveSlots.1 (hsplit ▸ List.mem_append_cons_self)
      obtain ⟨next, hnext, hfound⟩ := addCurve_store path hd hs hr hk fun curve hcurve =>
        ((htable key curve).1 hcurve).2
      refine ⟨next, hnext, fun key' curve => ?_⟩
      rw [hfound]
      split
      next hkey => simp [hkey]
      next hkey => simp [htable, hkey])
  refine ⟨table, htable, fun key curve => ?_⟩
  rw [hcurves, and_iff_right_iff_imp]
  intro hcurve
  obtain ⟨k, hk, _⟩ := hcurve.measure
  exact List.mem_map.2 ⟨(key, k, curve.levels),
    mem_curveSlots.2 ⟨hcurve.site, hcurve.realization, hk⟩, rfl⟩

/-! ## The whole job -/

/-- A job that is stored and loaded again is the described one. -/
theorem exists_load_archive (hd : d.WellFormed) (base : Config R) :
    ∃ stored, (InputFile.archive d.arrays).load path base = .ok stored ∧
      d.Describes base stored := by
  obtain ⟨table, htable, hcurves⟩ := curves_store path hd base
  refine ⟨{ cfg := d.config base, sites := d.numberedSites, regions := ⟨d.regions, hd.regions⟩,
            sources := d.pointSources, realizations := d.storedRealizations, curves := table },
    bind_eq_ok.2 ⟨d.store path, rfl, Bundle.load_eq_ok.2 ?_⟩, ?_⟩
  · exact ⟨config_store path base,
      ⟨d.regions, Bundle.names_eq_ok (find?_fixed rfl) (find?_fixed rfl),
        Regions.ofNames_of_nodup hd.regions⟩,
      sites_store path, sources_store path hd.declared, realizations_store path hd, htable⟩
  · exact
      { cfg := rfl, sites := rfl, regions := rfl, sources := rfl, realizations := rfl,
        models := fun _ hrealization _ _ => predict_storedRealizations hd hrealization,
        curves := hcurves }

end JobDescription

namespace Sample

open JobDescription

/-- Two regions, one of them without a name; a source with two rates and one with none; a curve for
one of the two realizations at the second site. -/
noncomputable def description : JobDescription ℝ where
  investigationTime := 50
  targets := [1 / 10]
  measures := [("PGA", [1, 2])]
  regions := ["", "Stable"]
  sites := [⟨0, 0⟩, ⟨40, 40⟩]
  sources := [⟨⟨0, 0⟩, 10, "Stable", [(5, 1 / 100), (6, 1 / 1000)]⟩, ⟨⟨1, 0⟩, 15, "", []⟩]
  realizations := 2
  coefficients r t _ := ⟨r, t, -1, 10, 1⟩
  weights := none
  curve? s r _ := if s = 1 ∧ r = 0 then some [1 / 2, 1 / 4] else none

theorem isCurve_description : IsCurve [1, 2] [(1 / 2 : ℝ), 1 / 4] where
  length_eq := rfl
  probabilities := by norm_num [Scalar.isProbability_exact]
  decreasing := by norm_num
  nonzero := by
    refine ⟨1 / 2, List.mem_cons_self, ?_⟩
    rw [← Bool.not_eq_true, Scalar.same_exact, Scalar.zero_exact]
    norm_num

theorem wellFormed_description : description.WellFormed where
  imts := List.nodup_singleton _
  regions := by simp [description]
  increasing := by simp [description]
  positive := by simp [description]
  declared := by simp [description]
  weights := by simp [description]
  room := by simp [description, maxNumbers, Scalar.maxLong]
  curves := by
    intro s r k imt levels poes _ _ hmeasure hpoes
    have hlevels : ("PGA", [1, 2]) = (imt, levels) :=
      (List.mem_singleton.1 (List.mem_of_getElem? hmeasure)).symm
    have hcurve : (if s = 1 ∧ r = 0 then some [(1 / 2 : ℝ), 1 / 4] else none) = some poes := hpoes
    split at hcurve
    next =>
      rw [← (Prod.mk.inj hlevels).2, ← Option.some.inj hcurve]
      exact isCurve_description
    next => simp at hcurve

/-- The sample is loaded as it was described. -/
theorem exists_load_description : description.WellFormed ∧
    ∃ stored, (InputFile.archive description.arrays).load "job.npz" Config.standard = .ok stored ∧
      description.Describes Config.standard stored :=
  ⟨wellFormed_description, exists_load_archive "job.npz" wellFormed_description _⟩

end Sample

end SeismicHazard
