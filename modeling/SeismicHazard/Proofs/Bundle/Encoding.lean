import Mathlib.Data.List.Basic
import Mathlib.Data.List.ProdSigma
import SeismicHazard.Proofs.Bundle.Description
import SeismicHazard.Proofs.Bundle.Packing

/-!
# Storing a job

The arrays that store a described job. Levels and curves stand in arrays whose names hold numbers.
No two of these names are equal, and they begin with other letters than the names of the remaining
arrays, so every array is found under its name.
-/

namespace SeismicHazard

/-! ## Look-ups in lists of named values -/

section Lookup

variable {α ι : Type}

theorem lookup_eq_some_of_mem {entries : List (String × α)}
    (hnodup : (entries.map Prod.fst).Nodup) {key : String} {a : α} (hmem : (key, a) ∈ entries) :
    entries.lookup key = some a := by
  induction entries with
  | nil => cases hmem
  | cons head rest ih =>
      obtain ⟨hhead, hrest⟩ := List.nodup_cons.1 hnodup
      rcases List.mem_cons.1 hmem with rfl | hmem
      · exact List.lookup_cons_self
      · have hne : key ≠ head.1 := fun heq => hhead (heq ▸ List.mem_map.2 ⟨_, hmem, rfl⟩)
        rw [List.lookup_cons, beq_eq_false_iff_ne.2 hne]
        exact ih hrest hmem

/-- Where names stand once, what is numbered like a name is found under it, in any order. -/
theorem lookup_numbered {names : List String} (hnodup : names.Nodup) (value : Nat → α) {i : Nat}
    {name : String} (hname : names[i]? = some name) {entries : List (String × α)}
    (hentries : entries.Perm (names.zipIdx.map fun (other, j) => (other, value j))) :
    entries.lookup name = some (value i) := by
  have hkeys : (names.zipIdx.map fun (other, j) => (other, value j)).map Prod.fst = names := by
    rw [List.map_map]
    exact List.zipIdx_map_fst 0 names
  apply lookup_eq_some_of_mem
  · rwa [(hentries.map Prod.fst).nodup_iff, hkeys]
  · apply hentries.mem_iff.2
    exact List.mem_map.2 ⟨(name, i), List.mk_mem_zipIdx_iff_getElem?.2 hname, rfl⟩

/-- The values that some slots have, each under the name of its slot. -/
def named (name : ι → String) (value? : ι → Option α) (slots : List ι) : List (String × α) :=
  slots.filterMap fun slot => (value? slot).map fun a => (name slot, a)

theorem exists_slot_of_mem_named {name : ι → String} {value? : ι → Option α} {slots : List ι}
    {entry : String × α} (hentry : entry ∈ named name value? slots) :
    ∃ slot, entry.1 = name slot := by
  obtain ⟨slot, _, hentry⟩ := List.mem_filterMap.1 hentry
  obtain ⟨a, _, rfl⟩ := Option.map_eq_some_iff.1 hentry
  exact ⟨slot, rfl⟩

/-- Where slots have names of their own, the value of a slot is found under its name. -/
theorem lookup_named [BEq ι] [LawfulBEq ι] {name : ι → String} (hname : Function.Injective name)
    (value? : ι → Option α) (slots : List ι) (slot : ι) :
    (named name value? slots).lookup (name slot) =
      if slot ∈ slots then value? slot else none := by
  unfold named
  induction slots with
  | nil => rfl
  | cons i rest ih =>
      by_cases hslot : slot = i
      · subst hslot
        rw [if_pos List.mem_cons_self]
        cases hvalue : value? slot with
        | none => simp [hvalue, ih]
        | some a => simp [hvalue]
      · have hne : (name slot == name i) = false :=
          beq_eq_false_iff_ne.2 fun heq => hslot (hname heq)
        cases hvalue : value? i with
        | none => simp [hvalue, ih, hslot]
        | some a => simp [hvalue, ih, hslot, List.lookup_cons, hne]

/-- A name is not among names that begin with other letters. -/
theorem lookup_eq_none_of_initial {entries : List (String × α)} {name : String}
    (hentries : ∀ entry ∈ entries, entry.1.toList.head? ≠ name.toList.head?) :
    entries.lookup name = none := by
  rw [List.lookup_eq_none_iff]
  intro entry hentry
  rw [bne_iff_ne]
  rintro rfl
  exact hentries entry hentry rfl

end Lookup

/-! ## Names with numbers -/

/-- The name of the array with the levels of a measure. -/
def levelsName (k : Nat) : String := s!"imt{k}_imls"

/-- The name of the array with the curve of a site, realization and measure. -/
def curveName (slot : Nat × Nat × Nat) : String :=
  s!"curve_s{slot.1}_r{slot.2.1}_i{slot.2.2}"

theorem toDigits_injective : Function.Injective (Nat.toDigits 10) :=
  Function.LeftInverse.injective (g := fun digits => Nat.ofDigitChars 10 digits 0) fun _ =>
    Nat.ofDigitChars_ten_toDigits

theorem toList_levelsName (k : Nat) :
    (levelsName k).toList = "imt".toList ++ (Nat.toDigits 10 k ++ "_imls".toList) := by
  have hparts : levelsName k = "imt" ++ Nat.repr k ++ "_imls" := rfl
  rw [hparts, String.toList_append, String.toList_append, Nat.toList_repr, List.append_assoc]

theorem toList_curveName (slot : Nat × Nat × Nat) :
    (curveName slot).toList = "curve_s".toList ++ (Nat.toDigits 10 slot.1 ++
      '_' :: 'r' :: (Nat.toDigits 10 slot.2.1 ++ '_' :: 'i' :: Nat.toDigits 10 slot.2.2)) := by
  have hparts : curveName slot =
      "curve_s" ++ Nat.repr slot.1 ++ "_r" ++ Nat.repr slot.2.1 ++ "_i" ++ Nat.repr slot.2.2 := rfl
  rw [hparts]
  simp [String.toList_append, Nat.toList_repr]

theorem levelsName_injective : Function.Injective levelsName := by
  intro k k' h
  have hchars := congrArg String.toList h
  rw [toList_levelsName, toList_levelsName, List.append_right_inj, List.append_left_inj] at hchars
  exact toDigits_injective hchars

/-- The digits of a number end where an underscore follows them. -/
theorem toDigits_append_inj {n n' : Nat} {rest rest' : List Char}
    (h : Nat.toDigits 10 n ++ '_' :: rest = Nat.toDigits 10 n' ++ '_' :: rest') :
    n = n' ∧ rest = rest' := by
  have hdigits : ∀ m, ∀ c ∈ Nat.toDigits 10 m, (c != '_') = true := by
    intro m c hc
    rw [bne_iff_ne]
    rintro rfl
    exact Nat.underscore_not_in_toDigits hc
  have hread : ∀ m (others : List Char),
      (Nat.toDigits 10 m ++ '_' :: others).takeWhile (· != '_') = Nat.toDigits 10 m := by
    intro m others
    rw [List.takeWhile_append_of_pos (hdigits m)]
    simp
  have hnumber : Nat.toDigits 10 n = Nat.toDigits 10 n' := by
    rw [← hread n rest, h, hread]
  rw [hnumber, List.append_right_inj] at h
  exact ⟨toDigits_injective hnumber, (List.cons.inj h).2⟩

theorem curveName_injective : Function.Injective curveName := by
  rintro ⟨s, r, k⟩ ⟨s', r', k'⟩ h
  have hchars := congrArg String.toList h
  rw [toList_curveName, toList_curveName, List.append_right_inj] at hchars
  obtain ⟨hsite, hchars⟩ := toDigits_append_inj hchars
  obtain ⟨hrealization, hchars⟩ := toDigits_append_inj (List.cons.inj hchars).2
  have hmeasure : k = k' := toDigits_injective (List.cons.inj hchars).2
  exact Prod.ext hsite (Prod.ext hrealization hmeasure)

theorem head?_levelsName (k : Nat) : (levelsName k).toList.head? = some 'i' := by
  simp [toList_levelsName]

theorem head?_curveName (slot : Nat × Nat × Nat) :
    (curveName slot).toList.head? = some 'c' := by
  simp [toList_curveName]

/-! ## Arrays -/

/-- The coefficients of a row in the order in which they are stored. -/
def LogLinear.toList {R : Type} (row : LogLinear R) : List R :=
  [row.c0, row.c1, row.c2, row.c3, row.sigma]

namespace JobDescription

variable {R : Type} (d : JobDescription R)

/-- The magnitudes and rates of all sources, source by source. -/
def bins : List (R × R) := (d.sources.map SourceDescription.rates).flatten

/-- The coefficients by realization, region and measure. -/
def table : List R :=
  (List.range d.realizations).flatMap fun r =>
    (List.range d.regions.length).flatMap fun t =>
      (List.range d.measures.length).flatMap fun k => (d.coefficients r t k).toList

/-- The columns of the table of sources. -/
def columns : Bundle.SourceColumns R where
  lons := d.sources.map fun source => source.location.lon
  lats := d.sources.map fun source => source.location.lat
  depths := d.sources.map SourceDescription.depth
  regions := d.sources.map fun source => (d.regions.idxOf source.region : Int)
  places := places 0 (d.sources.map SourceDescription.rates)
  mags := d.bins.map Prod.fst
  rates := d.bins.map Prod.snd

/-- The arrays that every job has under the same names. -/
def fixedArrays : List (String × StoredArray R) :=
  let imts := d.imts.map Text.toBytes
  let regions := d.regions.map Text.toBytes
  [("meta_investigation_time", .ofNumbers [d.investigationTime]),
   ("meta_poes_disagg", .ofNumbers d.targets),
   ("meta_imt_data", .ofBytes imts.flatten),
   ("meta_imt_indptr", .ofLongs (places 0 imts)),
   ("meta_trt_data", .ofBytes regions.flatten),
   ("meta_trt_indptr", .ofLongs (places 0 regions)),
   ("site_lons", .ofNumbers (d.sites.map Point.lon)),
   ("site_lats", .ofNumbers (d.sites.map Point.lat)),
   ("src_lons", .ofNumbers d.columns.lons),
   ("src_lats", .ofNumbers d.columns.lats),
   ("src_depths", .ofNumbers d.columns.depths),
   ("src_trt", ⟨[d.sources.length], .ints d.columns.regions⟩),
   ("src_mfd_indptr", .ofLongs d.columns.places),
   ("src_mags", .ofNumbers d.columns.mags),
   ("src_rates", .ofNumbers d.columns.rates),
   ("rlz_gmpe", ⟨[d.realizations, d.regions.length, d.measures.length, 5], .doubles d.table⟩)]

/-- The array with the weights, if there are any. -/
def weightArrays : List (String × StoredArray R) :=
  (d.weights.map fun weights => ("rlz_weights", .ofNumbers weights)).toList

/-- The arrays with the levels of the measures. -/
def levelArrays : List (String × StoredArray R) :=
  named levelsName (fun k => d.measures[k]?.map fun measure => .ofNumbers measure.2)
    (List.range d.measures.length)

/-- The numbers of every site, realization and measure. -/
def slots : List (Nat × Nat × Nat) :=
  List.range d.sites.length ×ˢ (List.range d.realizations ×ˢ List.range d.measures.length)

/-- The arrays with the curves that there are. -/
def curveArrays : List (String × StoredArray R) :=
  named curveName (fun slot => (d.curve? slot.1 slot.2.1 slot.2.2).map .ofNumbers) d.slots

/-- The arrays that store the job. -/
def arrays : List (String × StoredArray R) :=
  d.fixedArrays ++ (d.weightArrays ++ (d.levelArrays ++ d.curveArrays))

/-- The bundle with these arrays at a path. -/
def store (path : String) : Bundle R := ⟨path, d.arrays⟩

variable {d}

theorem mem_slots {s r k : Nat} :
    (s, r, k) ∈ d.slots ↔ s < d.sites.length ∧ r < d.realizations ∧ k < d.measures.length := by
  simp [slots, List.mem_product]

/-! ## Finding the arrays -/

theorem head?_fixedArrays {entry : String × StoredArray R} (hentry : entry ∈ d.fixedArrays) :
    entry.1.toList.head? ∈ [some 'm', some 's', some 'r'] := by
  have hnames : ∀ name ∈ d.fixedArrays.map Prod.fst,
      name.toList.head? ∈ [some 'm', some 's', some 'r'] := by
    simp [fixedArrays]
  exact hnames entry.1 (List.mem_map_of_mem hentry)

theorem head?_weightArrays {entry : String × StoredArray R} (hentry : entry ∈ d.weightArrays) :
    entry.1.toList.head? = some 'r' := by
  obtain ⟨weights, _, rfl⟩ := Option.map_eq_some_iff.1 (Option.mem_toList.1 hentry)
  simp

theorem head?_levelArrays {entry : String × StoredArray R} (hentry : entry ∈ d.levelArrays) :
    entry.1.toList.head? = some 'i' := by
  obtain ⟨k, hname⟩ := exists_slot_of_mem_named hentry
  rw [hname, head?_levelsName]

theorem head?_curveArrays {entry : String × StoredArray R} (hentry : entry ∈ d.curveArrays) :
    entry.1.toList.head? = some 'c' := by
  obtain ⟨slot, hname⟩ := exists_slot_of_mem_named hentry
  rw [hname, head?_curveName]

theorem find?_fixed {path name : String} {array : StoredArray R}
    (hfixed : d.fixedArrays.lookup name = some array) :
    (d.store path).find? name = some array := by
  rw [Bundle.find?, store, arrays, List.lookup_append, hfixed, Option.some_or]

theorem find?_weights (path : String) :
    (d.store path).find? "rlz_weights" = d.weights.map StoredArray.ofNumbers := by
  have hfixed : d.fixedArrays.lookup "rlz_weights" = none := rfl
  have hlevels : d.levelArrays.lookup "rlz_weights" = none :=
    lookup_eq_none_of_initial fun entry hentry => by simp [head?_levelArrays hentry]
  have hcurves : d.curveArrays.lookup "rlz_weights" = none :=
    lookup_eq_none_of_initial fun entry hentry => by simp [head?_curveArrays hentry]
  rw [Bundle.find?, store, arrays]
  simp only [List.lookup_append, hfixed, hlevels, hcurves, Option.none_or, Option.or_none]
  unfold weightArrays
  cases d.weights with
  | none => rfl
  | some weights => simp

theorem find?_levels (path : String) (k : Nat) :
    (d.store path).find? (levelsName k) =
      d.measures[k]?.map fun measure => StoredArray.ofNumbers measure.2 := by
  have hfixed : d.fixedArrays.lookup (levelsName k) = none :=
    lookup_eq_none_of_initial fun entry hentry heq => by
      simpa [heq, head?_levelsName] using head?_fixedArrays hentry
  have hweights : d.weightArrays.lookup (levelsName k) = none :=
    lookup_eq_none_of_initial fun entry hentry => by
      simp [head?_weightArrays hentry, head?_levelsName]
  have hcurves : d.curveArrays.lookup (levelsName k) = none :=
    lookup_eq_none_of_initial fun entry hentry => by
      simp [head?_curveArrays hentry, head?_levelsName]
  rw [Bundle.find?, store, arrays]
  simp only [List.lookup_append, hfixed, hweights, hcurves, Option.none_or, Option.or_none]
  rw [levelArrays, lookup_named levelsName_injective, ite_eq_left_iff, List.mem_range, not_lt]
  intro hbeyond
  rw [List.getElem?_eq_none hbeyond, Option.map_none]

theorem find?_curve (path : String) (slot : Nat × Nat × Nat) :
    (d.store path).find? (curveName slot) =
      if slot ∈ d.slots then (d.curve? slot.1 slot.2.1 slot.2.2).map StoredArray.ofNumbers
      else none := by
  have hfixed : d.fixedArrays.lookup (curveName slot) = none :=
    lookup_eq_none_of_initial fun entry hentry heq => by
      simpa [heq, head?_curveName] using head?_fixedArrays hentry
  have hweights : d.weightArrays.lookup (curveName slot) = none :=
    lookup_eq_none_of_initial fun entry hentry => by
      simp [head?_weightArrays hentry, head?_curveName]
  have hlevels : d.levelArrays.lookup (curveName slot) = none :=
    lookup_eq_none_of_initial fun entry hentry => by
      simp [head?_levelArrays hentry, head?_curveName]
  rw [Bundle.find?, store, arrays]
  simp only [List.lookup_append, hfixed, hweights, hlevels, Option.none_or]
  exact lookup_named curveName_injective _ d.slots slot

end JobDescription

end SeismicHazard
