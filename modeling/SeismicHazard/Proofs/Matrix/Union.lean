import SeismicHazard.Proofs.Matrix.Marginals

/-!
# Projections of merged matrices

Merging multiplies non-exceedances cell by cell, and a projection multiplies them along the axes
that it collapses. The two can be done in either order, so a projection of merged matrices is known
from the projections of its parts: place by place it is the exceedance by at least one of them.
-/

noncomputable section

namespace SeismicHazard

namespace Grid

/-- The exceedances by at least one of two grids on the same axes, as independent events. -/
def union (g h : Grid ℝ) : Grid ℝ where
  axes := g.axes
  values := g.values.zipWith (fun x y => 1 - (1 - x) * (1 - y)) h.values

/-- The grid on some axes of a shape without exceedance. -/
def nothing (s : Shape) (axes : List Axis) : Grid ℝ where
  axes := s.sides axes
  values := Array.replicate (extent (axes.map s.along)) 0

namespace On

variable {s : Shape} {axes : List Axis} {g h : Grid ℝ}

theorem union (hg : g.On s axes) (hh : h.On s axes) : (g.union h).On s axes where
  axes_eq := hg.axes_eq
  size_eq := by rw [Grid.union, Array.size_zipWith, hg.size_eq, hh.size_eq, Nat.min_self]
  nodup := hg.nodup

theorem nothing (hnodup : axes.Nodup) : (Grid.nothing s axes).On s axes where
  axes_eq := rfl
  size_eq := Array.size_replicate
  nodup := hnodup

theorem at?_union (hg : g.On s axes) (hh : h.On s axes) {index : Index} {x y : ℝ}
    (hx : g.at? index = some x) (hy : h.at? index = some y) :
    (g.union h).at? index = some (1 - (1 - x) * (1 - y)) := by
  rw [at?, hh.axes_eq, ← hg.axes_eq] at hy
  rw [at?] at hx
  rw [at?, Grid.union, Array.getElem?_zipWith, hx, hy]

theorem at?_nothing {index : Index} (hindex : s.Within axes index) :
    (Grid.nothing s axes).at? index = some 0 := by
  have hlt : position (s.sides axes) index < extent (axes.map s.along) := by
    rw [← Shape.map_snd_sides]
    exact position_lt (Shape.forall_mem_sides.2 hindex)
  rw [at?, Grid.nothing, Array.getElem?_replicate, if_pos hlt]

end On

end Grid

namespace Matrix

variable {m n : Matrix ℝ}

/-- Projecting commutes with merging. -/
theorem project_times (hshape : m.shape = n.shape) (kind : Projection) :
    (m.times n hshape).project kind = (m.project kind).union (n.project kind) := by
  have hm := m.project_on kind
  have hn := n.project_on kind
  rw [← hshape] at hn
  refine (project_on (m.times n hshape) kind).ext_at? (hm.union hn) fun index hindex => ?_
  have hfibre : n.fibre kind index = m.fibre kind index := by rw [fibre, fibre, hshape]
  have hx := at?_project (m := m) hindex
  have hy := at?_project (m := n) (hshape ▸ hindex)
  rw [hfibre] at hy
  -- every cell of the fibre holds the product of what the two matrices hold there
  have hprod : ∏ j ∈ m.fibre kind index, (m.times n hshape).pne (Index.cell j) (j .eps) =
      (∏ j ∈ m.fibre kind index, m.pne (Index.cell j) (j .eps)) *
        ∏ j ∈ m.fibre kind index, n.pne (Index.cell j) (j .eps) := by
    rw [← Finset.prod_mul_distrib]
    refine Finset.prod_congr rfl fun j hj => ?_
    obtain ⟨hcell, heps⟩ := ((mem_fibre hindex).1 hj).1.holds_cell
    exact pne_times hshape hcell heps
  rw [hm.at?_union hn hx hy, at?_project hindex]
  change some (1 - ∏ j ∈ m.fibre kind index, _) = _
  rw [hprod, sub_sub_cancel, sub_sub_cancel]

theorem project_empty (shape : Shape) (level : ℝ) (kind : Projection) :
    (empty shape level).project kind = Grid.nothing shape kind.axes := by
  have hon := project_on (empty shape level) kind
  refine hon.ext_at? (Grid.On.nothing hon.nodup) fun index hindex => ?_
  rw [at?_project hindex]
  simp only [pne_empty, Scalar.one_exact, Finset.prod_const_one, sub_self]
  exact (Grid.On.at?_nothing hindex).symm

/-- Merging matrices one after the other, seen through a projection. -/
theorem exists_foldlM_merge {ms : List (Matrix ℝ)}
    (hms : ∀ n ∈ ms, n.Sound ∧ m.shape = n.shape) :
    ∃ r, ms.foldlM merge m = .ok r ∧ r.shape = m.shape ∧ r.level = m.level ∧
      ∀ kind, r.project kind =
        (ms.map fun n => n.project kind).foldl Grid.union (m.project kind) := by
  induction ms generalizing m with
  | nil => exact ⟨m, rfl, rfl, rfl, fun _ => rfl⟩
  | cons n rest ih =>
      rw [List.forall_mem_cons] at hms
      obtain ⟨⟨hn, hshape⟩, hrest⟩ := hms
      obtain ⟨r, hr, hrshape, hrlevel, hproject⟩ := ih (m := m.times n hshape) hrest
      refine ⟨r, ?_, hrshape, hrlevel, fun kind => ?_⟩
      · rw [List.foldlM_cons]
        exact bind_eq_ok.2 ⟨_, hn.merge_eq_ok.2 ⟨hshape, rfl⟩, hr⟩
      · rw [hproject, project_times, List.map_cons, List.foldl_cons]

/-- A projection of two merged matrices is, place by place, the exceedance by at least one of their
projections. So is a projection of any number of matrices merged one after the other, which starts
from no exceedance. -/
theorem project_merge_of_built :
    (∀ {m n : Matrix ℝ}, m.Built → n.Built → m.shape = n.shape →
      ∃ r, m.merge n = .ok r ∧ ∀ kind,
        r.project kind = (m.project kind).union (n.project kind) ∧
        ∀ index, m.shape.Within kind.axes index → ∃ x y,
          (m.project kind).at? index = some x ∧ (n.project kind).at? index = some y ∧
            (r.project kind).at? index = some (1 - (1 - x) * (1 - y))) ∧
    ∀ (shape : Shape) (level : ℝ) (ms : List (Matrix ℝ)), (∀ m ∈ ms, m.Built ∧ m.shape = shape) →
      ∃ r, ms.foldlM merge (empty shape level) = .ok r ∧ r.shape = shape ∧ ∀ kind,
        (empty shape level).project kind = Grid.nothing shape kind.axes ∧
        r.project kind =
          (ms.map fun m => m.project kind).foldl Grid.union (Grid.nothing shape kind.axes) := by
  constructor
  · intro m n hm hn hshape
    refine ⟨m.times n hshape, hn.sound.merge_eq_ok.2 ⟨hshape, rfl⟩, fun kind => ?_⟩
    refine ⟨project_times hshape kind, fun index hindex => ?_⟩
    have hnon := n.project_on kind
    rw [← hshape] at hnon
    have hx := at?_project (m := m) hindex
    have hy := at?_project (m := n) (hshape ▸ hindex)
    refine ⟨_, _, hx, hy, ?_⟩
    rw [project_times]
    exact (m.project_on kind).at?_union hnon hx hy
  · intro shape level ms hms
    obtain ⟨r, hr, hshape, _, hproject⟩ := exists_foldlM_merge (m := empty shape level)
      fun m hm => ⟨(hms m hm).1.sound, (hms m hm).2.symm⟩
    refine ⟨r, hr, hshape, fun kind => ⟨project_empty shape level kind, ?_⟩⟩
    rw [hproject, project_empty]

/-- The matrix of two distances merged with itself, and twice into the matrix without exceedance. -/
theorem project_merge_twoDistances : twoDistances.Built ∧
    (∃ r, twoDistances.merge twoDistances = .ok r ∧
      (r.project .mag).at? (fun _ => 0) = some (301 / 625)) ∧
    ∃ r, [twoDistances, twoDistances].foldlM merge (empty twoDistances.shape 1) = .ok r ∧
      r.project .mag = ((Grid.nothing twoDistances.shape Projection.mag.axes).union
        (twoDistances.project .mag)).union (twoDistances.project .mag) := by
  refine ⟨built_twoDistances, ?_, ?_⟩
  · obtain ⟨r, hr, hproject⟩ := project_merge_of_built.1 built_twoDistances built_twoDistances rfl
    have hwithin : twoDistances.shape.Within Projection.mag.axes (fun _ => 0) := by
      simp [Shape.Within, Projection.axes, twoDistances, Shape.along]
    obtain ⟨x, y, hx, hy, hvalue⟩ := (hproject .mag).2 _ hwithin
    rw [at?_project hwithin, prod_fibre_twoDistances] at hx hy
    obtain rfl := Option.some.inj hx
    obtain rfl := Option.some.inj hy
    refine ⟨r, hr, ?_⟩
    rw [hvalue]
    norm_num
  · obtain ⟨r, hr, _, hproject⟩ := project_merge_of_built.2 twoDistances.shape 1
      [twoDistances, twoDistances] (by simp [built_twoDistances])
    exact ⟨r, hr, (hproject .mag).2⟩

end Matrix

end SeismicHazard

end
