import SeismicHazard.Bundle
import SeismicHazard.Job
import SeismicHazard.Matrix.Projection

/-!
# Result archives

The outcome of a disaggregation as named arrays. `meta_num_keys` is the number of results. For the
result with number `n`, in the order of the keys, there are `kn_matrix` with the exceedances, one
array for each projection, `kn_meta` with site, realization, probability and level, and `kn_imt` and
`kn_trts` with the measure and the tectonic regions, one region a line. The edges of each branch and
site follow.
-/

namespace SeismicHazard.Archive

variable {R : Type} [Scalar R]

/-- The values of a grid as an array. -/
def ofGrid (g : Grid R) : StoredArray R := ⟨g.sizes, .doubles g.values.toList⟩

/-- The arrays of result number `n`. -/
def resultArrays (key : ResultKey R) (matrix : Matrix R) (n : Nat) :
    List (String × StoredArray R) :=
  let numbers : List R :=
    [(key.site : R), (key.realization : R), key.poe.value, matrix.level]
  [(s!"k{n}_matrix", ⟨matrix.shape.sizes, .doubles matrix.exceedances.toList⟩)]
    ++ matrix.projections.map (fun (kind, g) => (s!"k{n}_{kind.name}", ofGrid g))
    ++ [(s!"k{n}_meta", .ofNumbers numbers),
        (s!"k{n}_imt", .ofBytes (Text.toBytes key.imt)),
        (s!"k{n}_trts", .ofBytes (Text.toBytes (String.intercalate "\n" key.regions)))]

/-- The arrays of the edges of a branch at a site. -/
def edgeArrays (key : EdgeKey) (edges : BinEdges R) : List (String × StoredArray R) :=
  edges.axes.map (fun (axis, values) =>
    (s!"edges_b{key.branch}_s{key.site}_{axis}", .ofNumbers values))

/-- The arrays of a run. -/
def ofRun (run : Run R) : List (String × StoredArray R) :=
  ("meta_num_keys", .ofLongs [(run.results.size : Int)])
    :: run.results.entries.zipIdx.flatMap (fun ((key, matrix), n) => resultArrays key matrix n)
    ++ run.edges.entries.flatMap (fun (key, edges) => edgeArrays key edges)

end SeismicHazard.Archive
