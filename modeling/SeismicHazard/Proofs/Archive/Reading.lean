import SeismicHazard.Proofs.Archive.Names
import SeismicHazard.Proofs.Job.Reference
import SeismicHazard.Proofs.Job.Regions
import SeismicHazard.Proofs.Numeric.Rules

/-!
# Reading an archive

An archive holds what a run found out. Its arrays give back the number of results, every result with
its key and all its projections, and the edges of every branch and site. The tectonic regions of a
key are stored as one text, a region a line: they are read back as the lines of their names, which
are the names themselves as long as no name has a line break.
-/

namespace SeismicHazard

/-! ## Lines -/

namespace Text

/-- The lines of a text, without the breaks that end them. -/
def lines (text : String) : List String := (text.toList.splitOn '\n').map String.ofList

theorem lines_intercalate {names : List String} (hne : names ≠ []) :
    lines (String.intercalate "\n" names) = names.flatMap lines := by
  induction names with
  | nil => exact absurd rfl hne
  | cons name rest ih =>
      cases rest with
      | nil => simp [lines]
      | cons next others =>
          have hrest := ih (List.cons_ne_nil next others)
          have hjoined : (String.intercalate "\n" (name :: next :: others)).toList =
              name.toList ++ '\n' :: (String.intercalate "\n" (next :: others)).toList := by
            simp only [String.toList_intercalate, List.map_cons, List.intercalate_cons_cons,
              List.append_assoc]
            rfl
          rw [lines, hjoined, List.splitOn_append_cons_self, List.map_append, List.flatMap_cons,
            ← hrest]
          rfl

theorem lines_eq_singleton {text : String} (hbreak : '\n' ∉ text.toList) :
    lines text = [text] := by
  rw [lines, List.splitOn_eq_singleton hbreak, List.map_singleton, String.ofList_toList]

/-- A text has one line more than it has line breaks. -/
theorem length_lines (text : String) : (lines text).length = text.toList.count '\n' + 1 := by
  rw [lines, List.length_map]
  induction text.toList with
  | nil => rfl
  | cons c rest ih =>
      rw [List.splitOn_cons_eq_if_modifyHead, List.count_cons]
      split
      next => rw [List.length_cons, ih]
      next => rw [List.length_modifyHead, ih, Nat.add_zero]

/-- Names have as many lines as there are names when they have no line breaks, and only then. -/
theorem length_flatMap_lines_eq_iff {names : List String} :
    (names.flatMap lines).length = names.length ↔ ∀ name ∈ names, '\n' ∉ name.toList := by
  have hlength : (names.flatMap lines).length =
      (names.map fun name => name.toList.count '\n').sum + names.length := by
    simp [List.length_flatMap, length_lines, List.sum_map_add]
  rw [hlength, Nat.add_eq_right, List.sum_eq_zero_iff, List.forall_mem_map]
  simp only [List.count_eq_zero]

/-- Names are read back from their lines when they have no line breaks, and only then. -/
theorem flatMap_lines_eq_iff {names : List String} :
    names.flatMap lines = names ↔ ∀ name ∈ names, '\n' ∉ name.toList := by
  constructor
  · exact fun heq => length_flatMap_lines_eq_iff.1 (congrArg List.length heq)
  · intro hbreaks
    rw [List.flatMap_congr fun name hname => lines_eq_singleton (hbreaks name hname),
      List.flatMap_singleton']

end Text

namespace Archive

variable {R : Type} [Scalar R]

/-! ## What can be read -/

/-- A result as an archive tells it. -/
structure StoredResult (R : Type) where
  key : ResultKey R
  level : R
  sizes : List Nat
  exceedances : List R

section Reading

variable (arrays : List (String × StoredArray R))

omit [Scalar R] in
/-- The numbers of an array. -/
def numbers? (name : String) : Option (List R) := do
  let array ← arrays.lookup name
  array.data.doubles?

omit [Scalar R] in
/-- The text of an array. -/
def text? (name : String) : Option String := do
  let array ← arrays.lookup name
  let bytes ← array.data.bytes?
  (Text.ofBytes bytes).toOption

omit [Scalar R] in
/-- The number of results. -/
def count? : Option Nat := do
  let array ← arrays.lookup "meta_num_keys"
  let counts ← array.data.longs?
  counts.head?.map Int.toNat

/-- Result number `n`, its regions being the lines of their text. -/
def result? (n : Nat) : Option (StoredResult R) := do
  let array ← arrays.lookup (resultName n "matrix")
  let exceedances ← array.data.doubles?
  let imt ← text? arrays (resultName n "imt")
  let regions ← text? arrays (resultName n "trts")
  match ← numbers? arrays (resultName n "meta") with
  | [site, realization, poe, level] =>
      some
        { key := ⟨Scalar.toCount site, Scalar.toCount realization, ⟨poe⟩, imt, Text.lines regions⟩
          level
          sizes := array.shape
          exceedances }
  | _ => none

omit [Scalar R] in
/-- A projection of result number `n`. -/
def projection? (n : Nat) (kind : Projection) : Option (StoredArray R) :=
  arrays.lookup (resultName n kind.name)

omit [Scalar R] in
/-- The edges of a branch at a site. -/
def edges? (key : EdgeKey) : Option (BinEdges R) := do
  let mag ← numbers? arrays (edgesName key "mag")
  let dist ← numbers? arrays (edgesName key "dist")
  let lon ← numbers? arrays (edgesName key "lon")
  let lat ← numbers? arrays (edgesName key "lat")
  let eps ← numbers? arrays (edgesName key "eps")
  some { mag, dist, lon, lat, eps }

end Reading

/-! ## What is read of a run -/

variable {run : Run R}

omit [Scalar R] in
theorem numbers?_eq_some {arrays : List (String × StoredArray R)} {name : String} {values : List R}
    (hfound : arrays.lookup name = some (.ofNumbers values)) :
    numbers? arrays name = some values := by
  rw [numbers?, hfound]
  rfl

omit [Scalar R] in
theorem text?_eq_some {arrays : List (String × StoredArray R)} {name text : String}
    (hfound : arrays.lookup name = some (.ofBytes (Text.toBytes text))) :
    text? arrays name = some text := by
  rw [text?, hfound]
  change (Text.ofBytes (Text.toBytes text)).toOption = some text
  rw [Text.ofBytes_toBytes]
  rfl

theorem count?_ofRun (run : Run R) : count? (ofRun run) = some run.results.size := rfl

section Result

variable {n : Nat} {key : ResultKey R} {matrix : Matrix R}

theorem lookup_of_mem_resultArrays (hentry : run.results.entries[n]? = some (key, matrix))
    {name : String} {array : StoredArray R} (hmem : (name, array) ∈ resultArrays key matrix n) :
    (ofRun run).lookup name = some array := by
  apply lookup_of_mem
  rw [ofRun, List.mem_append, List.mem_cons, List.mem_flatMap]
  exact .inl (.inr ⟨((key, matrix), n), List.mk_mem_zipIdx_iff_getElem?.2 hentry, hmem⟩)

/-- What is read of a result is the result, but for the lines of its regions. -/
theorem result?_ofRun [CountRules R] (hentry : run.results.entries[n]? = some (key, matrix))
    (hsite : key.site < 2 ^ 53) (hrealization : key.realization < 2 ^ 53)
    (hregions : key.regions ≠ []) :
    result? (ofRun run) n = some
      { key := { key with regions := key.regions.flatMap Text.lines }
        level := matrix.level
        sizes := matrix.shape.sizes
        exceedances := matrix.exceedances.toList } := by
  have hmatrix : (ofRun run).lookup (resultName n "matrix") =
      some ⟨matrix.shape.sizes, .doubles matrix.exceedances.toList⟩ :=
    lookup_of_mem_resultArrays hentry (by simp [resultArrays_eq])
  have hnumbers : numbers? (ofRun run) (resultName n "meta") =
      some [(key.site : R), (key.realization : R), key.poe.value, matrix.level] :=
    numbers?_eq_some (lookup_of_mem_resultArrays hentry (by simp [resultArrays_eq]))
  have himt : text? (ofRun run) (resultName n "imt") = some key.imt :=
    text?_eq_some (lookup_of_mem_resultArrays hentry (by simp [resultArrays_eq]))
  have htrts : text? (ofRun run) (resultName n "trts") =
      some (String.intercalate "\n" key.regions) :=
    text?_eq_some (lookup_of_mem_resultArrays hentry (by simp [resultArrays_eq]))
  have hids : Scalar.toCount (key.site : R) = key.site ∧
      Scalar.toCount (key.realization : R) = key.realization :=
    ⟨CountRules.toCount_natCast hsite, CountRules.toCount_natCast hrealization⟩
  rw [result?, hmatrix, hnumbers, himt, htrts]
  simp only [Option.bind_eq_bind, Option.bind_some, ArrayData.doubles?, hids,
    Text.lines_intercalate hregions]

/-- Only the results of a run are read. -/
theorem result?_eq_none (hn : run.results.size ≤ n) : result? (ofRun run) n = none := by
  rw [result?, lookup_resultName_eq_none hn]
  rfl

theorem projection?_ofRun (hentry : run.results.entries[n]? = some (key, matrix))
    (kind : Projection) :
    projection? (ofRun run) n kind = some (ofGrid (matrix.project kind)) := by
  have hkind : kind ∈ Projection.all := by cases kind <;> decide
  apply lookup_of_mem_resultArrays hentry
  rw [resultArrays_eq, List.mem_cons, List.mem_append]
  refine .inr (.inl (List.mem_map.2 ⟨(kind, matrix.project kind), ?_, rfl⟩))
  exact List.mem_map_of_mem hkind

end Result

theorem lookup_of_mem_edgeArrays {key : EdgeKey} {edges : BinEdges R}
    (hentry : (key, edges) ∈ run.edges.entries) {axis : String} {values : List R}
    (hmem : (axis, values) ∈ edges.axes) :
    (ofRun run).lookup (edgesName key axis) = some (.ofNumbers values) := by
  apply lookup_of_mem
  rw [ofRun, List.mem_append, List.mem_flatMap]
  exact .inr ⟨(key, edges), hentry, List.mem_map_of_mem hmem⟩

/-- The edges that are read are those of the run, and there are no others. -/
theorem edges?_ofRun (run : Run R) (key : EdgeKey) :
    edges? (ofRun run) key = run.edges.get? key := by
  cases hfound : run.edges.get? key with
  | none =>
      have hkey : key ∉ run.edges.keys := by
        intro hmem
        obtain ⟨⟨_, edges⟩, hentry, rfl⟩ := List.mem_map.1 hmem
        rw [(run.edges.get?_eq_some_iff).2 hentry] at hfound
        cases hfound
      rw [edges?, numbers?, lookup_edgesName_eq_none hkey]
      rfl
  | some edges =>
      have hentry := (run.edges.get?_eq_some_iff).1 hfound
      have hread : ∀ axis values, (axis, values) ∈ edges.axes →
          numbers? (ofRun run) (edgesName key axis) = some values :=
        fun _ _ hmem => numbers?_eq_some (lookup_of_mem_edgeArrays hentry hmem)
      rw [edges?, hread "mag" edges.mag (by simp [BinEdges.axes]),
        hread "dist" edges.dist (by simp [BinEdges.axes]),
        hread "lon" edges.lon (by simp [BinEdges.axes]),
        hread "lat" edges.lat (by simp [BinEdges.axes]),
        hread "eps" edges.eps (by simp [BinEdges.axes])]
      rfl

variable [NormalCdf R] [CountRules R] {job : Job R}

/-- No two arrays of the archive of a run have the same name, and the run is read back from them:
the number of its results, every result with its projections, and the edges of exactly its branches
and sites. The regions of a key are read as the lines of their names. There are as many names as the
regional axis has bins. The lines are the names exactly where no name has a line break, and exactly
there they are as many as the bins. -/
theorem read_ofRun {schedule : List (Task R) → Schedule (Task R)}
    (hrun : job.runWith schedule = .ok run)
    (hids : ∀ entry ∈ run.results.entries,
      entry.1.site < 2 ^ 53 ∧ entry.1.realization < 2 ^ 53) :
    ((ofRun run).map Prod.fst).Nodup ∧
    count? (ofRun run) = some run.results.size ∧
    (∀ n key matrix, run.results.entries[n]? = some (key, matrix) →
      result? (ofRun run) n = some
        { key := { key with regions := key.regions.flatMap Text.lines }
          level := matrix.level
          sizes := matrix.shape.sizes
          exceedances := matrix.exceedances.toList } ∧
      (∀ kind, projection? (ofRun run) n kind = some (ofGrid (matrix.project kind))) ∧
      key.regions.length = matrix.shape.trt ∧
      ((key.regions.flatMap Text.lines).length = matrix.shape.trt ↔
        ∀ name ∈ key.regions, '\n' ∉ name.toList) ∧
      (key.regions.flatMap Text.lines = key.regions ↔
        ∀ name ∈ key.regions, '\n' ∉ name.toList)) ∧
    (∀ n, run.results.size ≤ n → result? (ofRun run) n = none) ∧
    ∀ key, edges? (ofRun run) key = run.edges.get? key := by
  refine ⟨nodup_names run, count?_ofRun run, ?_, fun _ hn => result?_eq_none hn, edges?_ofRun run⟩
  intro n key matrix hentry
  have hmem : (key, matrix) ∈ run.results.entries := List.mem_of_getElem? hentry
  obtain ⟨hsite, hrealization⟩ := hids _ hmem
  have hlabels := Job.labels_runWith hrun _ hmem
  refine ⟨result?_ofRun hentry hsite hrealization hlabels.nonempty, projection?_ofRun hentry,
    hlabels.length, ?_, Text.flatMap_lines_eq_iff⟩
  rw [← hlabels.length, Text.length_flatMap_lines_eq_iff]

end Archive

namespace Sample

open Archive

/-- What is read of the results and the edges of two sources at the same place. -/
theorem two_sources_read :
    ∃ run n m, (job [1 / 10] 1 [source "A" 1, source "B" 2]).runWith
        Executor.sequential.schedule = .ok run ∧
      result? (ofRun run) n = some
        { key := ⟨0, 0, ⟨1 / 10⟩, "PGA", ["Crust"]⟩
          level := Matrix.level m
          sizes := m.shape.sizes
          exceedances := m.exceedances.toList } ∧
      edges? (ofRun run) ⟨0, 0⟩ = some edges := by
  have hcomplete := Schedule.complete_executor (τ := Task ℝ) .sequential
  obtain ⟨run, hrun⟩ : ∃ run, (job [1 / 10] 1 [source "A" 1, source "B" 2]).runWith
      Executor.sequential.schedule = .ok run :=
    exists_run (by simp) (by norm_num) Nat.one_pos zero_le_one zero_le_two hcomplete
  have hran := Job.ran_of_runWith hcomplete hrun
  have hedges : run.edges = SortedMap.empty.insert ⟨0, 0⟩ edges :=
    Except.ok.inj (hran.edges.symm.trans job_edges)
  have hids : ∀ entry ∈ run.results.entries,
      entry.1.site < 2 ^ 53 ∧ entry.1.realization < 2 ^ 53 := by
    rintro ⟨key, m⟩ hentry
    obtain ⟨_, hbranch, site, hsite, ρ, hρ, _, _, _, _, rfl, _⟩ :=
      (hran.exists_matrix_iff key).1 ⟨m, (run.results.get?_eq_some_iff).2 hentry⟩
    obtain rfl := List.mem_singleton.1 hbranch
    obtain rfl := List.mem_singleton.1 hsite
    obtain rfl := List.mem_singleton.1 hρ
    exact ⟨Nat.two_pow_pos 53, Nat.two_pow_pos 53⟩
  obtain ⟨m, hm⟩ := (hran.exists_matrix_iff ⟨0, 0, ⟨1 / 10⟩, "PGA", ["Crust"]⟩).2
    ⟨_, List.mem_cons_self, _, List.mem_cons_self, _, List.mem_cons_self, 1 / 10,
      List.mem_cons_self, "PGA", List.mem_cons_self, rfl, ⟨curve, by
        change (SortedMap.empty.insert _ curve).get? _ = some curve
        rw [SortedMap.get?_insert, if_pos rfl]⟩, by
      rw [Ne, ← Job.nearbyRuptures_eq_nil]
      change Collection.nearbyRuptures [source "A" 1, source "B" 2] ⟨0, ⟨0, 0⟩⟩ 200 ≠ []
      simp [Collection.nearbyRuptures, nearby_source]⟩
  obtain ⟨n, hn⟩ := List.getElem?_of_mem ((run.results.get?_eq_some_iff).1 hm)
  obtain ⟨-, -, hresults, -, hread⟩ := read_ofRun hrun hids
  obtain ⟨hresult, -, -, -, hlines⟩ := hresults n _ m hn
  refine ⟨run, n, m, hrun, ?_, ?_⟩
  · rwa [hlines.2 (by decide)] at hresult
  · rw [hread, hedges, SortedMap.get?_insert, if_pos rfl]

end Sample

end SeismicHazard
