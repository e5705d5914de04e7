import SeismicHazard.Archive
import SeismicHazard.Proofs.Bundle.Encoding
import SeismicHazard.Proofs.SortedMap

/-!
# The names in an archive

The arrays of a result share its number, and the edges of a branch and site share theirs. No two
arrays of an archive have the same name, since the digits of a number end at the underscore that
follows them.
-/

namespace SeismicHazard.Archive

/-- The name of an array of a result. -/
def resultName (n : Nat) (part : String) : String := s!"k{n}_{part}"

/-- The name of the array with the edges of an axis. -/
def edgesName (key : EdgeKey) (axis : String) : String :=
  s!"edges_b{key.branch}_s{key.site}_{axis}"

/-- The arrays that a result has. -/
def resultParts : List String :=
  "matrix" :: (Projection.all.map Projection.name ++ ["meta", "imt", "trts"])

/-- The axes that have edges. -/
def edgeAxes : List String := ["mag", "dist", "lon", "lat", "eps"]

theorem nodup_resultParts : resultParts.Nodup := by decide

theorem nodup_edgeAxes : edgeAxes.Nodup := by decide

theorem toList_resultName (n : Nat) (part : String) :
    (resultName n part).toList = 'k' :: (Nat.toDigits 10 n ++ '_' :: part.toList) := by
  have hparts : resultName n part = "k" ++ Nat.repr n ++ "_" ++ part := rfl
  rw [hparts]
  simp [String.toList_append, Nat.toList_repr]

theorem toList_edgesName (key : EdgeKey) (axis : String) :
    (edgesName key axis).toList = "edges_b".toList ++ (Nat.toDigits 10 key.branch ++
      '_' :: 's' :: (Nat.toDigits 10 key.site ++ '_' :: axis.toList)) := by
  have hparts : edgesName key axis =
      "edges_b" ++ Nat.repr key.branch ++ "_s" ++ Nat.repr key.site ++ "_" ++ axis := rfl
  rw [hparts]
  simp [String.toList_append, Nat.toList_repr]

theorem resultName_inj {n n' : Nat} {part part' : String}
    (h : resultName n part = resultName n' part') : n = n' ∧ part = part' := by
  have hchars := congrArg String.toList h
  rw [toList_resultName, toList_resultName] at hchars
  obtain ⟨hnumber, hpart⟩ := toDigits_append_inj (List.cons.inj hchars).2
  exact ⟨hnumber, String.toList_inj.1 hpart⟩

theorem edgesName_inj {key key' : EdgeKey} {axis axis' : String}
    (h : edgesName key axis = edgesName key' axis') : key = key' ∧ axis = axis' := by
  have hchars := congrArg String.toList h
  rw [toList_edgesName, toList_edgesName, List.append_right_inj] at hchars
  obtain ⟨hbranch, hchars⟩ := toDigits_append_inj hchars
  obtain ⟨hsite, haxis⟩ := toDigits_append_inj (List.cons.inj hchars).2
  obtain ⟨branch, site⟩ := key
  obtain ⟨branch', site'⟩ := key'
  exact ⟨congr (congrArg EdgeKey.mk hbranch) hsite, String.toList_inj.1 haxis⟩

theorem resultName_ne_edgesName (n : Nat) (part : String) (key : EdgeKey) (axis : String) :
    resultName n part ≠ edgesName key axis := by
  intro h
  have hchars := congrArg String.toList h
  rw [toList_resultName, toList_edgesName] at hchars
  simp at hchars

theorem resultName_ne_count (n : Nat) (part : String) : resultName n part ≠ "meta_num_keys" := by
  intro h
  have hchars := congrArg String.toList h
  rw [toList_resultName] at hchars
  simp at hchars

theorem edgesName_ne_count (key : EdgeKey) (axis : String) :
    edgesName key axis ≠ "meta_num_keys" := by
  intro h
  have hchars := congrArg String.toList h
  rw [toList_edgesName] at hchars
  simp at hchars

variable {R : Type} [Scalar R]

theorem resultArrays_eq (key : ResultKey R) (matrix : Matrix R) (n : Nat) :
    resultArrays key matrix n =
      (resultName n "matrix", ⟨matrix.shape.sizes, .doubles matrix.exceedances.toList⟩) ::
        (matrix.projections.map (fun (kind, g) => (resultName n kind.name, ofGrid g)) ++
          [(resultName n "meta", .ofNumbers
              [(key.site : R), (key.realization : R), key.poe.value, matrix.level]),
           (resultName n "imt", .ofBytes (Text.toBytes key.imt)),
           (resultName n "trts",
              .ofBytes (Text.toBytes (String.intercalate "\n" key.regions)))]) := by
  have hparts : ∀ part, resultName n part = "k" ++ Nat.repr n ++ ("_" ++ part) := by
    intro part
    rw [← String.append_assoc]
    rfl
  rw [hparts "matrix", hparts "meta", hparts "imt", hparts "trts"]
  rfl

theorem names_resultArrays (key : ResultKey R) (matrix : Matrix R) (n : Nat) :
    (resultArrays key matrix n).map Prod.fst = resultParts.map (resultName n) := by
  rw [resultArrays_eq]
  rfl

omit [Scalar R] in
theorem names_edgeArrays (key : EdgeKey) (edges : BinEdges R) :
    (edgeArrays key edges).map Prod.fst = edgeAxes.map (edgesName key) := rfl

/-- All names: the number of results, then result by result, then branch and site. -/
theorem names_ofRun (run : Run R) :
    (ofRun run).map Prod.fst = "meta_num_keys" ::
      (((List.range run.results.size).flatMap fun n => resultParts.map (resultName n)) ++
        run.edges.keys.flatMap fun key => edgeAxes.map (edgesName key)) := by
  have hresults : (run.results.entries.zipIdx.flatMap fun entry =>
      resultParts.map (resultName entry.2)) =
        (List.range run.results.size).flatMap fun n => resultParts.map (resultName n) := by
    rw [List.range_eq_range', SortedMap.size, ← List.zipIdx_map_snd 0 run.results.entries,
      List.flatMap_map]
  have hedges : (run.edges.entries.flatMap fun entry => edgeAxes.map (edgesName entry.1)) =
      run.edges.keys.flatMap fun key => edgeAxes.map (edgesName key) := by
    rw [SortedMap.keys, List.flatMap_map]
  rw [ofRun, List.map_append, List.map_cons, List.map_flatMap, List.map_flatMap, ← hresults,
    ← hedges, List.cons_append]
  exact congrArg₂ (fun results edges => "meta_num_keys" :: (results ++ edges))
    (List.flatMap_congr fun _ _ => names_resultArrays _ _ _)
    (List.flatMap_congr fun _ _ => names_edgeArrays _ _)

/-! ## No name twice -/

theorem nodup_flatMap_name {ι : Type} {slots : List ι} {parts : List String}
    {name : ι → String → String} (hslots : slots.Nodup) (hparts : parts.Nodup)
    (hname : ∀ i j part part', name i part = name j part' → i = j ∧ part = part') :
    (slots.flatMap fun i => parts.map (name i)).Nodup := by
  rw [List.nodup_flatMap]
  constructor
  · intro i _
    exact hparts.map fun part part' h => (hname i i part part' h).2
  · apply hslots.imp
    intro i j hne
    rw [Function.onFun, List.disjoint_left]
    intro n hi hj
    obtain ⟨part, _, rfl⟩ := List.mem_map.1 hi
    obtain ⟨part', _, h⟩ := List.mem_map.1 hj
    exact hne (hname j i part' part h).1.symm

theorem mem_flatMap_name {ι : Type} {slots : List ι} {parts : List String}
    {name : ι → String → String} {n : String} :
    (n ∈ slots.flatMap fun i => parts.map (name i)) ↔
      ∃ i ∈ slots, ∃ part ∈ parts, n = name i part := by
  simp only [List.mem_flatMap, List.mem_map, eq_comm]

/-- No two arrays of an archive have the same name. -/
theorem nodup_names (run : Run R) : ((ofRun run).map Prod.fst).Nodup := by
  rw [names_ofRun, List.nodup_cons, List.nodup_append', List.mem_append, List.disjoint_left]
  refine ⟨?_, ?_, ?_, ?_⟩
  · rintro (h | h)
    · obtain ⟨n, _, part, _, hname⟩ := mem_flatMap_name.1 h
      exact resultName_ne_count n part hname.symm
    · obtain ⟨key, _, axis, _, hname⟩ := mem_flatMap_name.1 h
      exact edgesName_ne_count key axis hname.symm
  · exact nodup_flatMap_name List.nodup_range nodup_resultParts fun _ _ _ _ => resultName_inj
  · exact nodup_flatMap_name run.edges.nodup_keys nodup_edgeAxes fun _ _ _ _ => edgesName_inj
  · intro name hresult hedges
    obtain ⟨n, _, part, _, rfl⟩ := mem_flatMap_name.1 hresult
    obtain ⟨key, _, axis, _, hname⟩ := mem_flatMap_name.1 hedges
    exact resultName_ne_edgesName n part key axis hname

/-! ## Finding the arrays -/

/-- What stands in an archive under a name is found under it. -/
theorem lookup_of_mem {run : Run R} {name : String} {array : StoredArray R}
    (hmem : (name, array) ∈ ofRun run) : (ofRun run).lookup name = some array :=
  lookup_eq_some_of_mem (nodup_names run) hmem

theorem lookup_eq_none {run : Run R} {name : String}
    (hname : name ∉ (ofRun run).map Prod.fst) : (ofRun run).lookup name = none := by
  rw [List.lookup_eq_none_iff]
  intro entry hentry
  rw [bne_iff_ne]
  rintro rfl
  exact hname (List.mem_map_of_mem hentry)

/-- Only the results of a run have arrays. -/
theorem lookup_resultName_eq_none {run : Run R} {n : Nat} (hn : run.results.size ≤ n)
    (part : String) : (ofRun run).lookup (resultName n part) = none := by
  apply lookup_eq_none
  rw [names_ofRun, List.mem_cons, List.mem_append, mem_flatMap_name, mem_flatMap_name]
  rintro (h | ⟨m, hm, _, _, hname⟩ | ⟨key, _, axis, _, hname⟩)
  · exact resultName_ne_count n part h
  · rw [(resultName_inj hname).1] at hn
    exact absurd (List.mem_range.1 hm) (not_lt.2 hn)
  · exact resultName_ne_edgesName n part key axis hname

/-- Only the branches and sites of a run have arrays. -/
theorem lookup_edgesName_eq_none {run : Run R} {key : EdgeKey} (hkey : key ∉ run.edges.keys)
    (axis : String) : (ofRun run).lookup (edgesName key axis) = none := by
  apply lookup_eq_none
  rw [names_ofRun, List.mem_cons, List.mem_append, mem_flatMap_name, mem_flatMap_name]
  rintro (h | ⟨n, _, part, _, hname⟩ | ⟨other, hother, _, _, hname⟩)
  · exact edgesName_ne_count key axis h
  · exact resultName_ne_edgesName n part key axis hname.symm
  · rw [(edgesName_inj hname).1] at hkey
    exact hkey hother

end SeismicHazard.Archive
