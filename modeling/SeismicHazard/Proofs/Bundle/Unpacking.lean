import SeismicHazard.Proofs.Bundle.Loaded
import SeismicHazard.Proofs.Bundle.Packing
import SeismicHazard.Proofs.Sample

/-!
# What a loaded job keeps of its packed arrays

The names and the magnitudes that are found between successive places of a packed array stand in it
one behind another, so nothing in between is lost or used twice. What stands before the first place
or after the last one is left out, and so are the magnitudes without a rate, or the rates without a
magnitude, when there are more of them.
-/

namespace SeismicHazard

section Packed

variable {α : Type}

theorem slice?_eq_some {xs part : List α} {low high : Int} :
    slice? xs low high = some part ↔ (0 ≤ low ∧ low ≤ high ∧ high ≤ xs.length) ∧
      part = (xs.drop low.toNat).take (high - low).toNat := by
  unfold slice?
  split
  next hrange => simp [hrange, eq_comm]
  next hrange => simp [hrange]

/-- A part that was found in a list is followed there by what stands from its end on. -/
theorem drop_of_slice? {xs part : List α} {low high : Int}
    (hslice : slice? xs low high = some part) :
    low.toNat + part.length = high.toNat ∧ xs.drop low.toNat = part ++ xs.drop high.toNat := by
  obtain ⟨⟨hlow, hle, hhigh⟩, rfl⟩ := slice?_eq_some.1 hslice
  have hend : high.toNat = low.toNat + (high - low).toNat := by omega
  constructor
  · rw [List.length_take, List.length_drop]
    omega
  · rw [hend, ← List.drop_drop, List.take_append_drop]

/-- What stands between successive places, from one within the list on, are its parts one behind
another, and the places are those at which they begin. -/
theorem drop_of_forall₂_slice? {xs : List α} {start : Int} {rest : List Int}
    {parts : List (List α)} (hstart : 0 ≤ start)
    (hslices : List.Forall₂ (fun place part => slice? xs place.1 place.2 = some part)
      (delimiters (start :: rest)) parts) :
    start :: rest = places start.toNat parts ∧
      ∃ after, xs.drop start.toNat = parts.flatten ++ after := by
  induction rest generalizing start parts with
  | nil =>
      obtain rfl : parts = [] := List.forall₂_nil_left_iff.1 hslices
      exact ⟨by simp [places, hstart], _, rfl⟩
  | cons next rest ih =>
      obtain ⟨part, others, hslice, hothers, rfl⟩ := List.forall₂_cons_left_iff.1 hslices
      obtain ⟨⟨_, hle, _⟩, _⟩ := slice?_eq_some.1 hslice
      obtain ⟨hend, hdrop⟩ := drop_of_slice? hslice
      obtain ⟨hplaces, after, hafter⟩ := ih (hstart.trans hle) hothers
      refine ⟨?_, after, ?_⟩
      · rw [places, hend, ← hplaces, Int.toNat_of_nonneg hstart]
      · rw [hdrop, hafter, List.flatten_cons, List.append_assoc]

/-- Parts that were unpacked from a list. They stand in it one behind another, so that none of its
entries is in two of them, and all of its entries are in them exactly when the places begin at its
start and end at its end. Fewer than two places delimit no part. -/
structure Unpacked (xs : List α) (positions : List Int) (parts : List (List α)) : Prop where
  stands : positions.length ≤ 1 ∧ parts = [] ∨
    ∃ before after, xs = before ++ (parts.flatten ++ after) ∧
      positions = places before.length parts
  all_iff : parts.flatten = xs ↔
    xs = [] ∨ positions.head? = some 0 ∧ positions.getLast? = some (xs.length : Int)

@[simp] theorem head?_places (start : Nat) (parts : List (List α)) :
    (places start parts).head? = some (start : Int) := by
  cases parts <;> rfl

@[simp] theorem getLast?_places (start : Nat) (parts : List (List α)) :
    (places start parts).getLast? = some ((start + parts.flatten.length : Nat) : Int) := by
  induction parts generalizing start with
  | nil => simp [places]
  | cons part rest ih =>
      have hnonempty : places (start + part.length) rest ≠ [] :=
        List.ne_nil_of_length_pos (by simp)
      rw [places, List.getLast?_cons_of_ne_nil hnonempty, ih, List.flatten_cons,
        List.length_append, Nat.add_assoc]

/-- What is found between successive places stands in the list one behind another. -/
theorem stands_of_forall₂_slice? {xs : List α} {positions : List Int} {parts : List (List α)}
    (hslices : List.Forall₂ (fun place part => slice? xs place.1 place.2 = some part)
      (delimiters positions) parts) :
    positions.length ≤ 1 ∧ parts = [] ∨
      ∃ before after, xs = before ++ (parts.flatten ++ after) ∧
        positions = places before.length parts := by
  match positions, hslices with
  | [], hslices => exact .inl ⟨Nat.zero_le _, List.forall₂_nil_left_iff.1 hslices⟩
  | [_], hslices => exact .inl ⟨le_rfl, List.forall₂_nil_left_iff.1 hslices⟩
  | start :: next :: rest, hslices =>
      obtain ⟨part, _, hslice, _⟩ := List.forall₂_cons_left_iff.1 hslices
      obtain ⟨⟨hstart, hle, hnext⟩, _⟩ := slice?_eq_some.1 hslice
      obtain ⟨hplaces, after, hafter⟩ := drop_of_forall₂_slice? hstart hslices
      have hlength : (xs.take start.toNat).length = start.toNat := by
        rw [List.length_take]
        omega
      refine .inr ⟨xs.take start.toNat, after, ?_, ?_⟩
      · rw [← hafter, List.take_append_drop]
      · rw [hlength, hplaces]

/-- Fewer than two places delimit nothing, which is all of a list without entries only. -/
theorem flatten_eq_iff_of_few {xs : List α} {positions : List Int} (hfew : positions.length ≤ 1) :
    [] = xs ↔
      xs = [] ∨ positions.head? = some 0 ∧ positions.getLast? = some (xs.length : Int) := by
  constructor
  · exact fun h => .inl h.symm
  · rintro (rfl | ⟨hhead, hlast⟩)
    · rfl
    · -- a single place is both the first and the last
      match positions, hfew with
      | [place], _ =>
          simp only [List.head?_cons, Option.some.injEq, List.getLast?_singleton] at hhead hlast
          exact (List.length_eq_zero_iff.1 (by omega)).symm

/-- Parts one behind another are the whole list when nothing stands before or after them. -/
theorem flatten_eq_iff_of_places {before after : List α} {parts : List (List α)} :
    parts.flatten = before ++ (parts.flatten ++ after) ↔
      (places before.length parts).head? = some 0 ∧
        (places before.length parts).getLast? =
          some ((before ++ (parts.flatten ++ after)).length : Int) := by
  rw [head?_places, getLast?_places, Option.some.injEq, Option.some.injEq, List.length_append,
    List.length_append]
  constructor
  · intro h
    have hlength := congrArg List.length h
    rw [List.length_append, List.length_append] at hlength
    omega
  · rintro ⟨hhead, hlast⟩
    obtain rfl : before = [] := List.length_eq_zero_iff.1 (by omega)
    obtain rfl : after = [] := List.length_eq_zero_iff.1 (by omega)
    rw [List.nil_append, List.append_nil]

theorem unpacked_of_forall₂_slice? {xs : List α} {positions : List Int} {parts : List (List α)}
    (hslices : List.Forall₂ (fun place part => slice? xs place.1 place.2 = some part)
      (delimiters positions) parts) : Unpacked xs positions parts := by
  have hstands := stands_of_forall₂_slice? hslices
  refine ⟨hstands, ?_⟩
  rcases hstands with ⟨hfew, rfl⟩ | ⟨before, after, rfl, rfl⟩
  · exact flatten_eq_iff_of_few hfew
  · rw [flatten_eq_iff_of_places, iff_or_self]
    -- the places in an empty list are all at its start
    intro hnil
    rw [← flatten_eq_iff_of_places, hnil]
    exact (List.append_eq_nil_iff.1 (List.append_eq_nil_iff.1 hnil).2).1

end Packed

/-- A text is spelled by the bytes that it was read from. -/
theorem Text.toBytes_of_ofBytes {bytes : List UInt8} {text : String} (h : ofBytes bytes = .ok text) :
    toBytes text = bytes := by
  unfold ofBytes at h
  split at h
  next found hfound =>
    obtain rfl : found = text := Except.ok.inj h
    rw [String.fromUTF8?] at hfound
    split at hfound
    next => exact Option.some.inj hfound ▸ rfl
    next => simp at hfound
  next => simp at h

namespace Bundle

variable {R : Type} {bundle : Bundle R}

theorem name_eq_ok {group : String} {data : List UInt8} {place : Int × Int} {name : String}
    (hname : bundle.name group data place = .ok name) :
    slice? data place.1 place.2 = some (Text.toBytes name) := by
  unfold Bundle.name at hname
  split at hname
  next => simp [fail] at hname
  next bytes hslice =>
    split at hname
    next found hfound =>
      rw [← Except.ok.inj hname, Text.toBytes_of_ofBytes hfound, hslice]
    next => simp [fail] at hname

/-- Names are unpacked from the bytes of their group. -/
theorem unpacked_names {group : String} {names : List String}
    (hnames : bundle.names group = .ok names) :
    ∃ data positions, bundle.bytes s!"{group}_data" = .ok data ∧
      bundle.longs s!"{group}_indptr" = .ok positions ∧
      Unpacked data positions (names.map Text.toBytes) := by
  obtain ⟨data, hdata, hnames⟩ := bind_eq_ok.1 hnames
  obtain ⟨positions, hpositions, hnames⟩ := bind_eq_ok.1 hnames
  refine ⟨data, positions, hdata, hpositions, unpacked_of_forall₂_slice? ?_⟩
  rw [List.forall₂_map_right_iff]
  exact (mapM_eq_ok.1 hnames).imp fun _ _ => name_eq_ok

/-- The columns of a table of sources that was accepted. -/
structure SourceColumns.Aligned (columns : SourceColumns R) : Prop where
  lats : columns.lats.length = columns.lons.length
  depths : columns.depths.length = columns.lons.length
  regions : columns.regions.length = columns.lons.length
  places : columns.places.length = columns.lons.length + 1

theorem sourceColumns_eq_ok {columns : SourceColumns R}
    (hcolumns : bundle.sourceColumns = .ok columns) :
    bundle.longs "src_mfd_indptr" = .ok columns.places ∧
      bundle.numbers "src_mags" = .ok columns.mags ∧
      bundle.numbers "src_rates" = .ok columns.rates ∧ columns.Aligned := by
  simp only [sourceColumns, bind_eq_ok] at hcolumns
  obtain ⟨lons, _, lats, _, depths, _, regions, _, places, hplaces, mags, hmags, rates, hrates,
    hcolumns⟩ := hcolumns
  split at hcolumns
  next => simp [fail, bind, Except.bind] at hcolumns
  next hlengths =>
    rw [← pure_eq_ok.1 hcolumns]
    simp only [Bool.or_eq_true, bne_iff_ne, ne_eq, not_or, not_not] at hlengths
    obtain ⟨⟨⟨hlats, hdepths⟩, hregions⟩, hcount⟩ := hlengths
    exact ⟨hplaces, hmags, hrates, hlats, hdepths, hregions, hcount⟩

/-- Every row of a table of sources has two successive places. -/
theorem SourceColumns.Aligned.places_rows {columns : SourceColumns R} (h : columns.Aligned) :
    columns.rows.map SourceRow.places = delimiters columns.places := by
  have hcount : (delimiters columns.places).length = columns.lons.length := by
    rw [delimiters, List.length_zip, List.length_tail, h.places]
    omega
  have hregions : (columns.regions.zip (delimiters columns.places)).length =
      columns.lons.length := by
    rw [List.length_zip, hcount, h.regions, Nat.min_self]
  have hattributes : (columns.depths.zip
      (columns.regions.zip (delimiters columns.places))).length = columns.lons.length := by
    rw [List.length_zip, hregions, h.depths, Nat.min_self]
  have hpoints : ((columns.lons.zip columns.lats).map
      (fun place => Point.mk place.1 place.2)).length = columns.lons.length := by
    rw [List.length_map, List.length_zip, h.lats, Nat.min_self]
  -- each column is what is left of the table when the columns before it are dropped
  calc columns.rows.map SourceRow.places
      = (((((columns.lons.zip columns.lats).map (fun place => Point.mk place.1 place.2)).zip
          (columns.depths.zip (columns.regions.zip (delimiters columns.places)))).map
            Prod.snd).map Prod.snd).map Prod.snd := by
        simp only [rows, List.map_map]
        rfl
    _ = delimiters columns.places := by
        rw [List.map_snd_zip (by rw [hattributes, hpoints]),
          List.map_snd_zip (by rw [hregions, h.depths]),
          List.map_snd_zip (by rw [hcount, h.regions])]

/-- The magnitudes of the sources, each with its rate, are unpacked from the columns of both. -/
theorem unpacked_sources {regions : List String} {timeSpan : R} {sources : List (PointSource R)}
    (hsources : bundle.sources regions timeSpan = .ok sources) :
    ∃ mags rates positions, bundle.numbers "src_mags" = .ok mags ∧
      bundle.numbers "src_rates" = .ok rates ∧
      bundle.longs "src_mfd_indptr" = .ok positions ∧
      Unpacked (mags.zip rates) positions (sources.map PointSource.rates) := by
  obtain ⟨columns, hcolumns, hsources⟩ := bind_eq_ok.1 hsources
  obtain ⟨hplaces, hmags, hrates, haligned⟩ := sourceColumns_eq_ok hcolumns
  refine ⟨_, _, _, hmags, hrates, hplaces, unpacked_of_forall₂_slice? ?_⟩
  have hrows : columns.rows.zipIdx.map (fun entry => entry.1.places) =
      delimiters columns.places := by
    rw [← haligned.places_rows, ← List.zipIdx_map_fst 0 columns.rows, List.map_map]
    simp
  rw [← hrows, List.forall₂_map_left_iff, List.forall₂_map_right_iff]
  refine (mapM_eq_ok.1 hsources).imp fun entry source hsource => ?_
  obtain ⟨_, rates, _, hslice, rfl⟩ := source_eq_ok.1 hsource
  exact hslice

theorem names_of_measures {measures : List (String × List R)}
    (hmeasures : bundle.measures = .ok measures) :
    bundle.names "meta_imt" = .ok (measures.map Prod.fst) := by
  obtain ⟨names, hnames, hlevels⟩ := bind_eq_ok.1 hmeasures
  have hfst : List.Forall₂ (fun entry measure => entry.1 = measure.1) names.zipIdx measures := by
    refine (mapM_eq_ok.1 hlevels).imp fun entry measure hmeasure => ?_
    obtain ⟨levels, _, hpair⟩ := bind_eq_ok.1 hmeasure
    rw [← pure_eq_ok.1 hpair]
  have hsame : names.zipIdx.map Prod.fst = measures.map Prod.fst := by
    rw [← List.forall₂_eq_eq_eq, List.forall₂_map_left_iff, List.forall₂_map_right_iff]
    exact hfst
  rw [hnames, ← hsame, List.zipIdx_map_fst]

theorem names_of_config [Scalar R] {base cfg : Config R} (hcfg : bundle.config base = .ok cfg) :
    bundle.names "meta_imt" = .ok cfg.imts := by
  obtain ⟨_, _, hcfg⟩ := bind_eq_ok.1 hcfg
  obtain ⟨_, _, hcfg⟩ := bind_eq_ok.1 hcfg
  obtain ⟨measures, hmeasures, hcfg⟩ := bind_eq_ok.1 hcfg
  rw [← pure_eq_ok.1 hcfg]
  exact names_of_measures hmeasures

theorem names_ofNames {names : List String} {regions : Regions}
    (hregions : Regions.ofNames (R := R) names = .ok regions) : regions.names = names := by
  unfold Regions.ofNames at hregions
  split at hregions
  next => exact congrArg Regions.names (Except.ok.inj hregions).symm
  next => simp at hregions

/-- The names and the magnitudes of a loaded job are unpacked from the arrays of the bundle. They
are all there exactly when the places begin at the start of the array and end at its end. -/
theorem load_unpacks [Scalar R] {base : Config R} {stored : StoredJob R}
    (hload : bundle.load base = .ok stored) :
    (∃ data positions, bundle.bytes "meta_imt_data" = .ok data ∧
        bundle.longs "meta_imt_indptr" = .ok positions ∧
        Unpacked data positions (stored.cfg.imts.map Text.toBytes)) ∧
      (∃ data positions, bundle.bytes "meta_trt_data" = .ok data ∧
        bundle.longs "meta_trt_indptr" = .ok positions ∧
        Unpacked data positions (stored.regions.names.map Text.toBytes)) ∧
      ∃ mags rates positions, bundle.numbers "src_mags" = .ok mags ∧
        bundle.numbers "src_rates" = .ok rates ∧
        bundle.longs "src_mfd_indptr" = .ok positions ∧
        Unpacked (mags.zip rates) positions (stored.sources.map PointSource.rates) := by
  obtain ⟨hcfg, ⟨names, hnames, hregions⟩, _, hsources, _⟩ := load_eq_ok.1 hload
  rw [names_ofNames hregions]
  exact ⟨unpacked_names (names_of_config hcfg), unpacked_names hnames, unpacked_sources hsources⟩

end Bundle

namespace Sample

noncomputable section

/-- A bundle with three magnitudes and two rates, of which one source takes the second. -/
def lossyBundle : Bundle ℝ where
  path := "job.npz"
  arrays :=
    [("meta_investigation_time", .ofNumbers [50]), ("meta_poes_disagg", .ofNumbers [1 / 10]),
     ("meta_imt_data", .ofBytes [80, 71, 65]), ("meta_imt_indptr", .ofLongs [0, 3]),
     ("imt0_imls", .ofNumbers [1]),
     ("meta_trt_data", .ofBytes [67]), ("meta_trt_indptr", .ofLongs [0, 1]),
     ("site_lons", .ofNumbers [0]), ("site_lats", .ofNumbers [0]),
     ("src_lons", .ofNumbers [0]), ("src_lats", .ofNumbers [0]), ("src_depths", .ofNumbers [10]),
     ("src_trt", ⟨[1], .ints [0]⟩), ("src_mfd_indptr", .ofLongs [1, 2]),
     ("src_mags", .ofNumbers [5, 6, 7]), ("src_rates", .ofNumbers [1, 2]),
     ("rlz_gmpe", ⟨[1, 1, 1, 5], .doubles [0, 0, 0, 1, 1]⟩), ("rlz_weights", .ofNumbers [1])]

def lossyStored : StoredJob ℝ where
  cfg := cfg [1 / 10] 16
  sites := [⟨0, ⟨0, 0⟩⟩]
  regions := ⟨["C"], List.nodup_singleton _⟩
  sources := [⟨"src-0", "C", ⟨0, 0⟩, 10, [(6, 2)], 50⟩]
  realizations := [⟨0, 1, [("C", [("PGA", ⟨0, 0, 0, 1, 1⟩)])]⟩]
  curves := SortedMap.empty

/-- The sample is loaded, and the first rate is not in it. -/
theorem lossyBundle_unpacks :
    lossyBundle.load (cfg [1 / 10] 16) = .ok lossyStored ∧
      Unpacked [(5, 1), (6, (2 : ℝ))] [1, 2] (lossyStored.sources.map PointSource.rates) ∧
      (lossyStored.sources.map PointSource.rates).flatten ≠ [(5, 1), (6, 2)] := by
  have hload : lossyBundle.load (cfg [1 / 10] 16) = .ok lossyStored := rfl
  obtain ⟨_, _, mags, rates, positions, hmags, hrates, hpositions, hunpacked⟩ :=
    Bundle.load_unpacks hload
  obtain rfl : mags = [5, 6, 7] := (Except.ok.inj hmags).symm
  obtain rfl : rates = [1, 2] := (Except.ok.inj hrates).symm
  obtain rfl : positions = [1, 2] := (Except.ok.inj hpositions).symm
  refine ⟨hload, hunpacked, fun hall => ?_⟩
  have hspan := hunpacked.all_iff.1 hall
  simp at hspan

end

end Sample

end SeismicHazard
