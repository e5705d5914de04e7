import Mathlib.Algebra.Order.BigOperators.Ring.Finset
import SeismicHazard.Proofs.Failure
import SeismicHazard.Proofs.Matrix.Built
import SeismicHazard.Proofs.Matrix.Collapse

/-!
# Projections as marginals

The projections of a matrix of probabilities. Each of them holds, for every choice of bins on the
axes that it keeps, the exceedance by at least one of the cells with these bins, as independent
events. The same rule leads from a projection to one onto fewer axes.
-/

noncomputable section

namespace SeismicHazard

/-! ## Unions of cells -/

/-- The bins of an index on all axes but epsilon. -/
def Index.cell (index : Index) : Cell :=
  ⟨index .mag, index .dist, index .lon, index .lat, index .trt⟩

/-- An index within a shape names one of its cells and epsilon bins. -/
theorem Shape.Within.holds_cell {s : Shape} {j : Index} (hj : s.Within Axis.all j) :
    s.holds (Index.cell j) = true ∧ j .eps < s.eps := by
  simp only [Shape.Within, Axis.all, List.forall_mem_cons] at hj
  obtain ⟨hmag, hdist, hlon, hlat, htrt, heps, _⟩ := hj
  exact ⟨Shape.holds_iff.2 ⟨hmag, hdist, hlon, hlat, htrt⟩, heps⟩

namespace Matrix

variable {m : Matrix ℝ}

/-- The exceedance by at least one of some cells, as independent events. -/
structure IsUnion (m : Matrix ℝ) (places : Finset Index) (poe : ℝ) : Prop where
  eq_prod : poe = 1 - ∏ j ∈ places, m.pne (Index.cell j) (j .eps)
  probability : 0 ≤ poe ∧ poe ≤ 1
  exceedanceAt_le : ∀ j ∈ places,
    ∃ single, m.exceedanceAt (Index.cell j) (j .eps) = .ok single ∧ single ≤ poe

theorem Lawful.isUnion (hm : m.Lawful) {places : Finset Index}
    (hplaces : ∀ j ∈ places, m.shape.Within Axis.all j) :
    m.IsUnion places (1 - ∏ j ∈ places, m.pne (Index.cell j) (j .eps)) := by
  have hholds : ∀ j ∈ places, m.shape.holds (Index.cell j) = true ∧ j .eps < m.shape.eps :=
    fun j hj => (hplaces j hj).holds_cell
  have hpne : ∀ j ∈ places, 0 ≤ m.pne (Index.cell j) (j .eps) ∧ m.pne (Index.cell j) (j .eps) ≤ 1 :=
    fun j hj => hm _ _ (hholds j hj).1 (hholds j hj).2
  refine ⟨rfl, ⟨?_, ?_⟩, fun j hj => ?_⟩
  · linarith [Finset.prod_le_one (fun j hj => (hpne j hj).1) fun j hj => (hpne j hj).2]
  · linarith [Finset.prod_nonneg fun j hj => (hpne j hj).1]
  · refine ⟨_, exceedanceAt_exact (hholds j hj).1 (hholds j hj).2, ?_⟩
    -- the other factors are at most one
    have hothers : ∏ k ∈ places.erase j, m.pne (Index.cell k) (k .eps) ≤ 1 :=
      Finset.prod_le_one (fun k hk => (hpne k (Finset.mem_of_mem_erase hk)).1)
        fun k hk => (hpne k (Finset.mem_of_mem_erase hk)).2
    rw [← Finset.mul_prod_erase places _ hj]
    linarith [mul_le_of_le_one_right (hpne j hj).1 hothers]

/-! ## The grid of a matrix -/

theorem grid_on (m : Matrix ℝ) : m.grid.On m.shape Axis.all where
  axes_eq := rfl
  size_eq := by
    rw [grid, m.size_eq]
    simp [Shape.size, Axis.all, Shape.along]
    ring
  nodup := by decide

theorem factor_grid (m : Matrix ℝ) (index : Index) :
    m.grid.factor index = m.pne (Index.cell index) (index .eps) := by
  have hposition :
      Grid.position m.grid.axes index = m.shape.index (Index.cell index) (index .eps) := by
    simp [Grid.position, grid, axes, Axis.all, Shape.along, Shape.index, Index.cell]
    ring
  rw [Grid.factor, Grid.at?, hposition, pne, Scalar.one_exact]
  rfl

end Matrix

namespace Projection

theorem nodup_collapsed (kind : Projection) : kind.collapsed.Nodup := by
  cases kind <;> decide

theorem collapsed_subset (kind : Projection) : kind.collapsed ⊆ Axis.all := by
  cases kind <;> decide

theorem diff_collapsed (kind : Projection) : Axis.all.diff kind.collapsed = kind.axes := by
  cases kind <;> decide

theorem toFinset_collapsed (kind : Projection) :
    kind.collapsed.toFinset = kind.axes.toFinsetᶜ := by
  cases kind <;> decide

end Projection

/-! ## Projections -/

namespace Matrix

variable {m : Matrix ℝ}

/-- The indices of the cells that a projection puts together, for bins on the axes that it keeps. -/
def fibre (m : Matrix ℝ) (kind : Projection) (index : Index) : Finset Index :=
  m.shape.span kind.axes.toFinsetᶜ index

/-- They are all indices of the matrix with these bins. -/
theorem mem_fibre {kind : Projection} {index j : Index} (hindex : m.shape.Within kind.axes index) :
    j ∈ m.fibre kind index ↔
      m.shape.Within Axis.all j ∧ ∀ axis ∈ kind.axes, j axis = index axis := by
  constructor
  · intro hj
    refine ⟨fun axis _ => ?_, fun axis hkept => (Shape.mem_span.1 hj).2 axis (by simpa using hkept)⟩
    exact Shape.lt_of_mem_span hj fun hkept => hindex axis (by simpa using hkept)
  · rintro ⟨hwithin, hagree⟩
    refine Shape.mem_span.2 ⟨fun axis _ => hwithin axis ?_, fun axis hkept => ?_⟩
    · cases axis <;> decide
    · exact hagree axis (by simpa using hkept)

theorem project_on (m : Matrix ℝ) (kind : Projection) :
    (m.project kind).On m.shape kind.axes := by
  obtain ⟨hon, _⟩ := m.grid_on.foldl_collapse kind.nodup_collapsed kind.collapsed_subset
  rw [kind.diff_collapsed] at hon
  exact ⟨hon.axes_eq, by rw [← hon.size_eq, project, Array.size_map], hon.nodup⟩

theorem at?_project {kind : Projection} {index : Index} (hindex : m.shape.Within kind.axes index) :
    (m.project kind).at? index =
      some (1 - ∏ j ∈ m.fibre kind index, m.pne (Index.cell j) (j .eps)) := by
  obtain ⟨hon, hfactor⟩ := m.grid_on.foldl_collapse kind.nodup_collapsed kind.collapsed_subset
  rw [kind.diff_collapsed] at hon hfactor
  have hvalue := hon.at?_eq hindex
  rw [hfactor index hindex, kind.toFinset_collapsed, Grid.at?] at hvalue
  rw [Grid.at?, project, Array.getElem?_map, hvalue, Option.map_some, Scalar.one_exact]
  simp only [factor_grid, fibre]

/-- Putting together what a projection onto more axes has put together already. -/
theorem prod_fibre {small large : Projection} (hsub : small.axes ⊆ large.axes) (index : Index)
    (f : Index → ℝ) :
    ∏ j ∈ m.fibre small index, f j =
      ∏ j ∈ m.shape.span (large.axes.toFinset \ small.axes.toFinset) index,
        ∏ k ∈ m.fibre large j, f k := by
  have hparts : small.axes.toFinsetᶜ =
      (large.axes.toFinset \ small.axes.toFinset) ∪ large.axes.toFinsetᶜ := by
    ext axis
    have hkept : axis ∈ small.axes → axis ∈ large.axes := @hsub axis
    simp only [Finset.mem_compl, Finset.mem_union, Finset.mem_sdiff, List.mem_toFinset]
    tauto
  have hdisjoint :
      Disjoint (large.axes.toFinset \ small.axes.toFinset) large.axes.toFinsetᶜ :=
    Finset.disjoint_left.2 fun axis hextra => by simpa using (Finset.mem_sdiff.1 hextra).1
  simp only [fibre]
  rw [hparts, Shape.prod_span_union hdisjoint]

end Matrix

/-! ## Room for projections -/

theorem extent_le_filter (sizes : List Nat) :
    extent sizes ≤ extent (sizes.filter (fun n => n != 0)) := by
  induction sizes with
  | nil => exact le_rfl
  | cons size rest ih =>
      by_cases hzero : size = 0
      · simp [hzero]
      · simpa [hzero] using Nat.mul_le_mul_left size ih

theorem extent_filter_mono {first second : List Nat} (hsub : first.Sublist second) :
    extent (first.filter (fun n => n != 0)) ≤ extent (second.filter (fun n => n != 0)) := by
  induction hsub with
  | slnil => exact le_rfl
  | cons size _ ih =>
      by_cases hzero : size = 0
      · simpa [hzero] using ih
      · simpa [hzero] using ih.trans (Nat.le_mul_of_pos_left _ (Nat.pos_of_ne_zero hzero))
  | cons_cons size _ ih =>
      by_cases hzero : size = 0
      · simpa [hzero] using ih
      · simpa [hzero] using Nat.mul_le_mul_left size ih

namespace Grid

theorem ends_reserveCollapsed (axes : List (Axis × Nat)) (gone : List Axis) :
    Ends (fun e : Error ℝ => e.fault = .broken .capacity) (fun _ => True)
      (reserveCollapsed axes gone) := by
  induction gone generalizing axes with
  | nil => trivial
  | cons axis rest ih => exact (ends_reserve _).bind fun _ _ _ => ih _

/-- There is room for what is left when there is room for the axes that have bins. -/
theorem reserveCollapsed_eq_ok {axes : List (Axis × Nat)}
    (hroom : extent ((axes.map Prod.snd).filter (fun n => n != 0)) ≤ maxNumbers)
    (gone : List Axis) : reserveCollapsed (R := ℝ) axes gone = .ok () := by
  induction gone generalizing axes with
  | nil => rfl
  | cons axis rest ih =>
      have hkept : extent (((axes.filter (fun a => a.1 != axis)).map Prod.snd).filter
          (fun n => n != 0)) ≤ maxNumbers :=
        (extent_filter_mono (List.filter_sublist.map Prod.snd)).trans hroom
      rw [reserveCollapsed, reserve, if_pos ((extent_le_filter _).trans hkept)]
      exact ih hkept

end Grid

namespace Matrix

variable {m : Matrix ℝ}

/-- Only for lack of room projections cannot be made. -/
theorem ends_createProjections (m : Matrix ℝ) :
    Ends (fun e : Error ℝ => e.fault = .broken .capacity) (fun all => all = m.projections)
      m.createProjections := by
  have hreserve : ∀ kinds : List Projection,
      Ends (fun e : Error ℝ => e.fault = .broken .capacity) (fun _ => True)
        (kinds.forM fun kind => Grid.reserveCollapsed (R := ℝ) m.axes kind.collapsed) := by
    intro kinds
    induction kinds with
    | nil => trivial
    | cons kind rest ih => exact (Grid.ends_reserveCollapsed _ _).bind fun _ _ _ => ih
  exact (hreserve _).bind fun _ _ _ => rfl

theorem createProjections_eq_ok
    (hroom : extent (m.shape.sizes.filter (fun n => n != 0)) ≤ maxNumbers) :
    m.createProjections = .ok m.projections := by
  have haxes : extent ((m.axes.map Prod.snd).filter (fun n => n != 0)) ≤ maxNumbers := hroom
  have hreserve : ∀ kinds : List Projection,
      (kinds.forM fun kind => Grid.reserveCollapsed (R := ℝ) m.axes kind.collapsed) = .ok () := by
    intro kinds
    induction kinds with
    | nil => rfl
    | cons kind rest ih =>
        exact bind_eq_ok.2 ⟨(), Grid.reserveCollapsed_eq_ok haxes _, ih⟩
  rw [createProjections, hreserve]
  rfl

/-! ## Main result -/

/-- Every projection has the axes that it keeps, in their order, and holds for every choice of bins
on them the exceedance by at least one of the cells with these bins. Where one projection keeps
only axes of another one, the values of the first are unions of those of the second by the same
rule. Only for lack of room projections cannot be made. -/
theorem Built.projections_marginal (hm : m.Built) :
    (∀ kind, (m.project kind).axes = kind.axes.map (fun axis => (axis, m.shape.along axis)) ∧
      (m.project kind).values.size = extent (kind.axes.map m.shape.along) ∧
      ∀ index, m.shape.Within kind.axes index →
        ∃ poe, (m.project kind).at? index = some poe ∧ m.IsUnion (m.fibre kind index) poe) ∧
    (∀ small large : Projection, small.axes ⊆ large.axes →
      ∀ index, m.shape.Within small.axes index →
        ∃ poe : Index → ℝ,
          (∀ j ∈ m.shape.span (large.axes.toFinset \ small.axes.toFinset) index,
            (m.project large).at? j = some (poe j)) ∧
          (m.project small).at? index =
            some (1 - ∏ j ∈ m.shape.span (large.axes.toFinset \ small.axes.toFinset) index,
              (1 - poe j))) ∧
    (extent (m.shape.sizes.filter (fun n => n != 0)) ≤ maxNumbers →
      m.createProjections = .ok m.projections) ∧
    Ends (fun e => e.fault = .broken .capacity) (fun all => all = m.projections)
      m.createProjections := by
  refine ⟨fun kind => ?_, fun small large hsub index hindex => ?_, createProjections_eq_ok,
    m.ends_createProjections⟩
  · have hon := m.project_on kind
    refine ⟨hon.axes_eq, hon.size_eq, fun index hindex => ?_⟩
    exact ⟨_, at?_project hindex,
      hm.lawful.isUnion fun j hj => ((mem_fibre hindex).1 hj).1⟩
  · refine ⟨fun j => 1 - ∏ k ∈ m.fibre large j, m.pne (Index.cell k) (k .eps), fun j hj => ?_, ?_⟩
    · apply at?_project
      -- an axis that only the larger projection keeps runs over the bins of the shape
      exact fun axis hlarge => Shape.lt_of_mem_span hj fun hextra =>
        hindex axis (by simpa [hlarge] using hextra)
    · rw [at?_project hindex, prod_fibre hsub]
      simp only [sub_sub_cancel]

/-- Exceedances of one in ten and of one in five at two distances. -/
def twoDistances : Matrix ℝ where
  shape := ⟨1, 2, 1, 1, 1, 1⟩
  level := 1
  nonExceedance := #[9 / 10, 4 / 5]
  size_eq := rfl

theorem built_twoDistances : twoDistances.Built := by
  have hmatrix : ofExceedances ⟨1, 2, 1, 1, 1, 1⟩ 1 #[1 / 10, 1 / 5] = .ok twoDistances :=
    ofExceedances_exact.2 ⟨rfl, by norm_num, rfl, rfl, by norm_num [twoDistances]⟩
  exact .ofExceedances hmatrix

theorem prod_fibre_twoDistances :
    ∏ j ∈ twoDistances.fibre .mag (fun _ => 0), twoDistances.pne (Index.cell j) (j .eps) =
      9 / 10 * (4 / 5) := by
  have hfree : (Projection.mag.axes.toFinsetᶜ : Finset Axis) =
      insert .dist (insert .lon (insert .lat (insert .trt (insert .eps ∅)))) := by
    decide
  rw [fibre, hfree, Shape.prod_span_insert (by decide), Shape.prod_span_insert (by decide),
    Shape.prod_span_insert (by decide), Shape.prod_span_insert (by decide),
    Shape.prod_span_insert (by decide)]
  simp [Finset.prod_range_succ, twoDistances, Shape.along, pne, Shape.index, Index.cell]

/-- At their one magnitude the two exceedances come together. -/
theorem project_twoDistances : twoDistances.Built ∧
    (twoDistances.project .mag).at? (fun _ => 0) = some (7 / 25) := by
  refine ⟨built_twoDistances, ?_⟩
  obtain ⟨hmarginal, _⟩ := Built.projections_marginal built_twoDistances
  obtain ⟨poe, hvalue, hunion⟩ := (hmarginal .mag).2.2 (fun _ => 0) (by
    simp [Shape.Within, Projection.axes, twoDistances, Shape.along])
  rw [hvalue, hunion.eq_prod, prod_fibre_twoDistances]
  norm_num

end Matrix

end SeismicHazard

end
