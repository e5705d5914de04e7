import Mathlib.Algebra.BigOperators.Group.Finset.Basic
import Mathlib.Data.Fintype.Pi
import SeismicHazard.Matrix.Projection
import SeismicHazard.Proofs.Matrix.Cells
import SeismicHazard.Proofs.Numeric.Exact

/-!
# Collapsing axes

An index names a bin on every axis, and a grid has a value at every index within its axes.
Collapsing an axis multiplies the values at the indices that differ on that axis only. Collapsing
several axes one after the other therefore multiplies, once each, the values at the indices that
differ on those.
-/

noncomputable section

namespace SeismicHazard

namespace Axis

instance : Fintype Axis where
  elems := all.toFinset
  complete axis := by cases axis <;> decide

/-- The number of an axis, counted from zero. -/
def number (axis : Axis) : Nat := all.idxOf axis

theorem take_number_succ (axis : Axis) :
    all.take (axis.number + 1) = all.take axis.number ++ [axis] := by
  cases axis <;> rfl

theorem length_take_number (axis : Axis) : (all.take axis.number).length = axis.number := by
  cases axis <;> rfl

theorem not_mem_take_number (axis : Axis) : axis ∉ all.take axis.number := by
  cases axis <;> decide

end Axis

/-- A bin on every axis. -/
abbrev Index := Axis → Nat

/-! ## Positions -/

@[simp] theorem extent_nil : extent [] = 1 := rfl

@[simp] theorem extent_cons (size : Nat) (sizes : List Nat) :
    extent (size :: sizes) = size * extent sizes := rfl

@[simp] theorem extent_append (first second : List Nat) :
    extent (first ++ second) = extent first * extent second := by
  induction first with
  | nil => simp
  | cons size rest ih => simp [ih, Nat.mul_assoc]

namespace Grid

/-- The row-major number of an index among the values on some axes. -/
def position : List (Axis × Nat) → Index → Nat
  | [], _ => 0
  | (axis, _) :: rest, index => index axis * extent (rest.map Prod.snd) + position rest index

theorem position_append (before after : List (Axis × Nat)) (index : Index) :
    position (before ++ after) index =
      position before index * extent (after.map Prod.snd) + position after index := by
  induction before with
  | nil => simp [position]
  | cons side rest ih =>
      simp only [List.cons_append, position, ih, List.map_append, extent_append]
      ring

theorem position_congr {axes : List (Axis × Nat)} {index other : Index}
    (hagree : ∀ side ∈ axes, index side.1 = other side.1) :
    position axes index = position axes other := by
  induction axes with
  | nil => rfl
  | cons side rest ih =>
      rw [List.forall_mem_cons] at hagree
      rw [position, position, hagree.1, ih hagree.2]

theorem position_lt {axes : List (Axis × Nat)} {index : Index}
    (hindex : ∀ side ∈ axes, index side.1 < side.2) :
    position axes index < extent (axes.map Prod.snd) := by
  induction axes with
  | nil => exact Nat.one_pos
  | cons side rest ih =>
      rw [List.forall_mem_cons] at hindex
      exact radix_lt hindex.1 (ih hindex.2)

/-! ## Collapsing one axis -/

/-- The value at an index. -/
def at? {R : Type} (g : Grid R) (index : Index) : Option R := g.values[position g.axes index]?

/-- The value at an index as a factor: where the grid has none it is one. -/
def factor (g : Grid ℝ) (index : Index) : ℝ := (g.at? index).getD 1

theorem collapse_eq {R : Type} [Scalar R] {g : Grid R} {before after : List (Axis × Nat)}
    {axis : Axis} {count : Nat}
    (haxes : g.axes = before ++ (axis, count) :: after) (hbefore : ∀ side ∈ before, side.1 ≠ axis) :
    g.collapse axis =
      { axes := before ++ after
        values := collapseLanes g.values (extent (before.map Prod.snd)) count
          (extent (after.map Prod.snd)) } := by
  have hpass : ∀ side ∈ before, (side.1 != axis) = true := by simpa using hbefore
  simp [collapse, haxes, List.takeWhile_append_of_pos hpass, List.dropWhile_append_of_pos hpass]

theorem laneProduct_eq_prod (values : Array ℝ) (start stride count : Nat) :
    laneProduct values start stride count =
      ∏ k ∈ Finset.range count, values[start + k * stride]?.getD 1 := by
  induction count with
  | zero => simp [laneProduct]
  | succ count ih =>
      rw [Finset.prod_range_succ, ← ih, laneProduct, List.range_succ, List.foldl_append]
      simp [laneProduct]

theorem getElem?_collapseLanes (values : Array ℝ) {outer inner : Nat} (count : Nat)
    {before after : Nat} (hbefore : before < outer) (hafter : after < inner) :
    (collapseLanes values outer count inner)[before * inner + after]? =
      some (∏ k ∈ Finset.range count,
        values[before * (count * inner) + (k * inner + after)]?.getD 1) := by
  rw [collapseLanes, Array.getElem?_ofFn, dif_pos (radix_lt hbefore hafter), laneProduct_eq_prod,
    radix_div hafter, Nat.mul_add_mod_of_lt hafter]
  congr 1
  refine Finset.prod_congr rfl fun k _ => ?_
  rw [Nat.add_assoc, Nat.add_comm after]

/-- A collapsed axis leaves the product over its bins. -/
theorem at?_collapse {g : Grid ℝ} {before after : List (Axis × Nat)} {axis : Axis} {count : Nat}
    (haxes : g.axes = before ++ (axis, count) :: after) (hbefore : ∀ side ∈ before, side.1 ≠ axis)
    (hafter : ∀ side ∈ after, side.1 ≠ axis) {index : Index}
    (hindex : ∀ side ∈ before ++ after, index side.1 < side.2) :
    (g.collapse axis).at? index =
      some (∏ k ∈ Finset.range count, g.factor (Function.update index axis k)) := by
  rw [List.forall_mem_append] at hindex
  rw [collapse_eq haxes hbefore, at?, position_append,
    getElem?_collapseLanes _ _ (position_lt hindex.1) (position_lt hindex.2)]
  congr 1
  refine Finset.prod_congr rfl fun k _ => ?_
  have hsame : ∀ sides : List (Axis × Nat), (∀ side ∈ sides, side.1 ≠ axis) →
      position sides (Function.update index axis k) = position sides index := by
    intro sides hsides
    exact position_congr fun side hside => Function.update_of_ne (hsides side hside) _ _
  rw [factor, at?, haxes, position_append, position, hsame before hbefore, hsame after hafter,
    Function.update_self, List.map_cons, extent_cons]

end Grid

/-! ## Indices that differ on some axes -/

namespace Shape

variable (s : Shape)

/-- The axes with their sizes. -/
def sides (axes : List Axis) : List (Axis × Nat) := axes.map (fun axis => (axis, s.along axis))

/-- The bins of an index on some axes are among those of the shape. -/
def Within (axes : List Axis) (index : Index) : Prop := ∀ axis ∈ axes, index axis < s.along axis

/-- The indices that agree with one off some axes and run over all bins of those. -/
def span (free : Finset Axis) (index : Index) : Finset Index :=
  Fintype.piFinset fun axis => if axis ∈ free then Finset.range (s.along axis) else {index axis}

variable {s}

theorem map_snd_sides (axes : List Axis) : (s.sides axes).map Prod.snd = axes.map s.along := by
  simp [sides]

theorem forall_mem_sides {axes : List Axis} {P : Axis × Nat → Prop} :
    (∀ side ∈ s.sides axes, P side) ↔ ∀ axis ∈ axes, P (axis, s.along axis) := by
  simp [sides]

theorem mem_span {free : Finset Axis} {index j : Index} :
    j ∈ s.span free index ↔
      (∀ axis ∈ free, j axis < s.along axis) ∧ ∀ axis ∉ free, j axis = index axis := by
  rw [span, Fintype.mem_piFinset, ← forall_and]
  refine forall_congr' fun axis => ?_
  by_cases haxis : axis ∈ free <;> simp [haxis]

theorem lt_of_mem_span {free : Finset Axis} {index j : Index} (hj : j ∈ s.span free index)
    {axis : Axis} (hkept : axis ∉ free → index axis < s.along axis) : j axis < s.along axis := by
  obtain ⟨hfree, hoff⟩ := mem_span.1 hj
  by_cases haxis : axis ∈ free
  · exact hfree axis haxis
  · rw [hoff axis haxis]
    exact hkept haxis

@[simp] theorem span_empty (index : Index) : s.span ∅ index = {index} := by
  ext j
  simp [mem_span, funext_iff]

variable {free : Finset Axis} {axis : Axis}

theorem update_mem_span {index j : Index} (hj : j ∈ s.span free index) {k : Nat}
    (hk : k < s.along axis) : Function.update j axis k ∈ s.span (insert axis free) index := by
  obtain ⟨hfree, hoff⟩ := mem_span.1 hj
  refine mem_span.2 ⟨fun a ha => ?_, fun a ha => ?_⟩
  · by_cases haxis : a = axis
    · rwa [haxis, Function.update_self]
    · rw [Function.update_of_ne haxis]
      exact hfree a (Finset.mem_of_mem_insert_of_ne ha haxis)
  · rw [Finset.mem_insert, not_or] at ha
    rw [Function.update_of_ne ha.1]
    exact hoff a ha.2

theorem update_mem_span_of_insert (hnew : axis ∉ free) {index j : Index}
    (hj : j ∈ s.span (insert axis free) index) :
    Function.update j axis (index axis) ∈ s.span free index := by
  obtain ⟨hfree, hoff⟩ := mem_span.1 hj
  refine mem_span.2 ⟨fun a ha => ?_, fun a ha => ?_⟩
  · rw [Function.update_of_ne (ne_of_mem_of_not_mem ha hnew)]
    exact hfree a (Finset.mem_insert_of_mem ha)
  · by_cases haxis : a = axis
    · rw [haxis, Function.update_self]
    · rw [Function.update_of_ne haxis]
      exact hoff a (by simp [haxis, ha])

/-- Indices that differ on one more axis: the bin on that axis may be chosen last. -/
theorem prod_span_insert (hnew : axis ∉ free) (index : Index) (f : Index → ℝ) :
    ∏ j ∈ s.span (insert axis free) index, f j =
      ∏ j ∈ s.span free index,
        ∏ k ∈ Finset.range (s.along axis), f (Function.update j axis k) := by
  rw [← Finset.prod_product' _ _ fun j k => f (Function.update j axis k)]
  refine Finset.prod_nbij' (fun j => (Function.update j axis (index axis), j axis))
    (fun pair => Function.update pair.1 axis pair.2) ?_ ?_ ?_ ?_ ?_
  · intro j hj
    exact Finset.mem_product.2 ⟨update_mem_span_of_insert hnew hj,
      Finset.mem_range.2 ((mem_span.1 hj).1 axis (Finset.mem_insert_self axis free))⟩
  · rintro ⟨j, k⟩ hpair
    obtain ⟨hj, hk⟩ := Finset.mem_product.1 hpair
    exact update_mem_span hj (Finset.mem_range.1 hk)
  · intro j _
    simp
  · rintro ⟨j, k⟩ hpair
    have hkept : j axis = index axis := (mem_span.1 (Finset.mem_product.1 hpair).1).2 axis hnew
    simp [← hkept]
  · intro j _
    simp

/-- Products over indices that differ on some axes, and then on others, are products over those that
differ on any of them. -/
theorem prod_span_union {more : Finset Axis} (hdisjoint : Disjoint free more) (index : Index)
    (f : Index → ℝ) :
    ∏ j ∈ s.span (free ∪ more) index, f j =
      ∏ j ∈ s.span free index, ∏ k ∈ s.span more j, f k := by
  induction more using Finset.induction_on generalizing f with
  | empty => simp
  | insert axis more hnew ih =>
      rw [Finset.disjoint_insert_right] at hdisjoint
      have hnot : axis ∉ free ∪ more := by simp [hnew, hdisjoint.1]
      rw [Finset.union_insert, prod_span_insert hnot, ih hdisjoint.2]
      refine Finset.prod_congr rfl fun j _ => ?_
      rw [prod_span_insert hnew]

end Shape

/-! ## Collapsing several axes -/

namespace Grid

variable {s : Shape} {g : Grid ℝ} {axes : List Axis}

/-- A grid on some axes of a shape. -/
structure On (s : Shape) (axes : List Axis) (g : Grid ℝ) : Prop where
  axes_eq : g.axes = s.sides axes
  size_eq : g.values.size = extent (axes.map s.along)
  nodup : axes.Nodup

theorem exists_position (hnodup : axes.Nodup) {i : Nat} (hi : i < extent (axes.map s.along)) :
    ∃ index, s.Within axes index ∧ position (s.sides axes) index = i := by
  induction axes generalizing i with
  | nil =>
      refine ⟨fun _ => 0, fun axis haxis => absurd haxis List.not_mem_nil, ?_⟩
      exact (Nat.lt_one_iff.1 hi).symm
  | cons axis rest ih =>
      obtain ⟨hnot, hrest⟩ := List.nodup_cons.1 hnodup
      rw [List.map_cons, extent_cons] at hi
      obtain ⟨bin, number, hbin, hnumber, rfl⟩ := exists_radix hi
      obtain ⟨index, hwithin, rfl⟩ := ih hrest hnumber
      have hsame : ∀ a ∈ rest, Function.update index axis bin a = index a := fun a ha =>
        Function.update_of_ne (ne_of_mem_of_not_mem ha hnot) _ _
      refine ⟨Function.update index axis bin, List.forall_mem_cons.2 ⟨?_, fun a ha => ?_⟩, ?_⟩
      · rwa [Function.update_self]
      · rw [hsame a ha]
        exact hwithin a ha
      · have hposition := position_congr (Shape.forall_mem_sides (s := s).2 hsame)
        rw [Shape.sides, List.map_cons, ← Shape.sides, position, hposition, Function.update_self,
          Shape.map_snd_sides]

namespace On

/-- Grids on the same axes of a shape are equal when their values are. -/
theorem ext_at? {h : Grid ℝ} (hg : g.On s axes) (hh : h.On s axes)
    (hvalues : ∀ index, s.Within axes index → g.at? index = h.at? index) : g = h := by
  have hsize : g.values.size = h.values.size := hg.size_eq.trans hh.size_eq.symm
  have harray : g.values = h.values := by
    apply Array.ext_getElem?
    intro i
    by_cases hi : i < g.values.size
    · obtain ⟨index, hindex, rfl⟩ := exists_position hg.nodup (hg.size_eq ▸ hi)
      have hvalue := hvalues index hindex
      rwa [at?, at?, hg.axes_eq, hh.axes_eq] at hvalue
    · rw [Array.getElem?_eq_none (not_lt.1 hi), Array.getElem?_eq_none (hsize ▸ not_lt.1 hi)]
  have haxes : g.axes = h.axes := hg.axes_eq.trans hh.axes_eq.symm
  cases g
  cases h
  cases haxes
  cases harray
  rfl

theorem at?_eq (hg : g.On s axes) {index : Index} (hindex : s.Within axes index) :
    g.at? index = some (g.factor index) := by
  have hlt : position g.axes index < g.values.size := by
    rw [hg.size_eq, hg.axes_eq, ← Shape.map_snd_sides]
    exact position_lt (Shape.forall_mem_sides.2 hindex)
  rw [factor, at?, Array.getElem?_eq_getElem hlt, Option.getD_some]

/-- Collapsing one axis. -/
theorem collapse (hg : g.On s axes) {axis : Axis} (haxis : axis ∈ axes) :
    (g.collapse axis).On s (axes.erase axis) ∧
      ∀ index, s.Within (axes.erase axis) index →
        (g.collapse axis).factor index =
          ∏ k ∈ Finset.range (s.along axis), g.factor (Function.update index axis k) := by
  obtain ⟨before, after, _, rfl, herase⟩ := List.exists_erase_eq haxis
  obtain ⟨hnot, hnodup⟩ := List.nodup_cons.1 (List.nodup_middle.1 hg.nodup)
  rw [List.mem_append, not_or] at hnot
  have haxes : g.axes = s.sides before ++ (axis, s.along axis) :: s.sides after := by
    simp [hg.axes_eq, Shape.sides]
  have hbefore : ∀ side ∈ s.sides before, side.1 ≠ axis :=
    Shape.forall_mem_sides.2 fun a ha => ne_of_mem_of_not_mem ha hnot.1
  have hafter : ∀ side ∈ s.sides after, side.1 ≠ axis :=
    Shape.forall_mem_sides.2 fun a ha => ne_of_mem_of_not_mem ha hnot.2
  rw [herase]
  constructor
  · rw [collapse_eq haxes hbefore]
    refine ⟨by simp [Shape.sides], ?_, hnodup⟩
    simp [collapseLanes, Shape.map_snd_sides]
  · intro index hindex
    have hsides : ∀ side ∈ s.sides before ++ s.sides after, index side.1 < side.2 := by
      rw [Shape.sides, Shape.sides, ← List.map_append]
      exact Shape.forall_mem_sides.2 hindex
    rw [factor, at?_collapse haxes hbefore hafter hsides, Option.getD_some]

/-- Collapsing some of the axes, one after the other, leaves the products over all their bins. -/
theorem foldl_collapse {gone : List Axis} (hg : g.On s axes) (hgone : gone.Nodup)
    (hsub : gone ⊆ axes) :
    (gone.foldl Grid.collapse g).On s (axes.diff gone) ∧
      ∀ index, s.Within (axes.diff gone) index →
        (gone.foldl Grid.collapse g).factor index =
          ∏ j ∈ s.span gone.toFinset index, g.factor j := by
  induction gone generalizing g axes with
  | nil => simpa using hg
  | cons axis rest ih =>
      obtain ⟨hnot, hrest⟩ := List.nodup_cons.1 hgone
      obtain ⟨haxis, hsub⟩ := List.cons_subset.1 hsub
      obtain ⟨hcollapsed, hfactor⟩ := hg.collapse haxis
      have hkept : rest ⊆ axes.erase axis := fun a ha =>
        (List.mem_erase_of_ne (ne_of_mem_of_not_mem ha hnot)).2 (hsub ha)
      obtain ⟨hon, hvalues⟩ := ih hcollapsed hrest hkept
      rw [List.diff_cons]
      refine ⟨hon, fun index hindex => ?_⟩
      rw [List.foldl_cons, hvalues index hindex, List.toFinset_cons,
        Shape.prod_span_insert (by simpa using hnot)]
      -- an axis that is left is either collapsed later or kept
      refine Finset.prod_congr rfl fun j hj => hfactor j fun a ha => ?_
      exact Shape.lt_of_mem_span hj fun hlater =>
        hindex a (List.mem_diff_of_mem ha (by simpa using hlater))

end On

end Grid

/-! ## Axes by number -/

namespace Grid

variable {R : Type} [Scalar R]

/-- The grid without the axis that stands at a place, counted from zero. -/
def collapseAt (g : Grid R) (place : Nat) : Grid R :=
  match g.axes[place]? with
  | none => g
  | some (_, count) =>
      { axes := g.axes.eraseIdx place
        values := collapseLanes g.values (extent ((g.axes.take place).map Prod.snd)) count
          (extent ((g.axes.drop (place + 1)).map Prod.snd)) }

theorem collapseAt_eq {g : Grid R} {before after : List (Axis × Nat)} {axis : Axis} {count : Nat}
    (haxes : g.axes = before ++ (axis, count) :: after) :
    g.collapseAt before.length =
      { axes := before ++ after
        values := collapseLanes g.values (extent (before.map Prod.snd)) count
          (extent (after.map Prod.snd)) } := by
  simp [collapseAt, haxes, List.eraseIdx_append_of_length_le (Nat.le_refl _)]

/-- As long as no axis in front of it is gone, an axis stands at the place that is its number. -/
theorem collapse_eq_collapseAt {g : Grid R} {axis : Axis}
    (hstart : Axis.all.take (axis.number + 1) <+: g.axes.map Prod.fst) :
    g.collapse axis = g.collapseAt axis.number ∧
      Axis.all.take axis.number <+: (g.collapse axis).axes.map Prod.fst := by
  obtain ⟨rest, hrest⟩ := hstart
  rw [Axis.take_number_succ, List.append_assoc] at hrest
  obtain ⟨before, others, haxes, hbefore, hothers⟩ := List.map_eq_append_iff.1 hrest.symm
  obtain ⟨⟨label, count⟩, after, rfl, hlabel, _⟩ := List.map_eq_cons_iff.1 hothers
  obtain rfl : label = axis := hlabel
  have hpass : ∀ side ∈ before, side.1 ≠ label := by
    intro side hside heq
    apply Axis.not_mem_take_number label
    rw [← hbefore, ← heq]
    exact List.mem_map_of_mem hside
  have hlength : before.length = label.number := by
    rw [← List.length_map Prod.fst, hbefore, Axis.length_take_number]
  rw [collapse_eq haxes hpass]
  constructor
  · rw [← hlength, collapseAt_eq haxes]
  · rw [← hbefore, List.map_append]
    exact List.prefix_append _ _

/-- Axes that are collapsed in falling order can be told by their numbers. -/
theorem foldl_collapse_eq_collapseAt {g : Grid R} {gone : List Axis} {k : Nat}
    (hstart : Axis.all.take k <+: g.axes.map Prod.fst) (hbelow : ∀ axis ∈ gone, axis.number < k)
    (hfalling : gone.Pairwise fun a b => b.number < a.number) :
    gone.foldl Grid.collapse g = (gone.map Axis.number).foldl Grid.collapseAt g := by
  induction gone generalizing g k with
  | nil => rfl
  | cons axis rest ih =>
      obtain ⟨hfirst, hrest⟩ := List.pairwise_cons.1 hfalling
      have hprefix : Axis.all.take (axis.number + 1) <+: g.axes.map Prod.fst :=
        (List.take_prefix_take_left (hbelow axis List.mem_cons_self)).trans hstart
      obtain ⟨hcollapse, hleft⟩ := collapse_eq_collapseAt hprefix
      rw [List.foldl_cons, ih hleft hfirst hrest, hcollapse]
      rfl

end Grid

/-- A projection collapses the axes that it does not keep by number, the highest one first. -/
theorem Matrix.project_eq_collapseAt {R : Type} [Scalar R] (m : Matrix R) (kind : Projection) :
    m.project kind =
      let g := ((List.range 6).reverse.filter
        fun i => !(kind.axes.map Axis.number).contains i).foldl Grid.collapseAt m.grid
      { g with values := g.values.map (fun p => 1 - p) } := by
  have hnumbers : kind.collapsed.map Axis.number =
      (List.range 6).reverse.filter fun i => !(kind.axes.map Axis.number).contains i := by
    cases kind <;> decide
  have hstart : Axis.all.take 6 <+: m.grid.axes.map Prod.fst := List.prefix_refl _
  have hbelow : ∀ axis ∈ kind.collapsed, axis.number < 6 := by
    cases kind <;> decide
  have hfalling : kind.collapsed.Pairwise fun a b => b.number < a.number := by
    cases kind <;> decide
  rw [project, Grid.foldl_collapse_eq_collapseAt hstart hbelow hfalling, hnumbers]

end SeismicHazard

end
