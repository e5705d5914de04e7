import SeismicHazard.Edges.Range
import SeismicHazard.Proofs.Binning

/-!
# Edges that cover a range

Edges of magnitude, distance and latitude are multiples of a width whose indices are 64-bit numbers.
They reach around the range as far as there are such indices: a value of the range lies in its bin
exactly when it lies between the smallest and the largest multiple that have an index.
-/

noncomputable section

namespace SeismicHazard.Edges

open Scalar

variable {width low high : ℝ}

theorem multiples_exact (width : ℝ) (first last : ℤ) :
    multiples width first last =
      (List.range (last - first + 1).toNat).map fun i : Nat => width * ((first + i : ℤ) : ℝ) := rfl

theorem pairwise_multiples (hwidth : 0 ≤ width) (first last : ℤ) :
    (multiples width first last).Pairwise (· ≤ ·) := by
  rw [multiples_exact, List.pairwise_map]
  refine List.pairwise_lt_range.imp fun {i j} hij => ?_
  apply mul_le_mul_of_nonneg_left _ hwidth
  exact_mod_cast (by omega : first + (i : ℤ) ≤ first + j)

theorem head?_multiples {first last : ℤ} (hle : first ≤ last) :
    (multiples width first last).head? = some (width * first) := by
  rw [multiples_exact, List.head?_map, List.head?_range, if_neg (by omega)]
  simp

theorem getLast?_multiples {first last : ℤ} (hle : first ≤ last) :
    (multiples width first last).getLast? = some (width * last) := by
  rw [multiples_exact, List.getLast?_map, List.getLast?_range, if_neg (by omega)]
  have hlast : first + (((last - first + 1).toNat - 1 : ℕ) : ℤ) = last := by omega
  rw [Option.map_some, hlast]

/-- The indices of a range, held among the 64-bit numbers, and at least one bin apart. -/
theorem indices_eq (low high width : ℝ) :
    indices low high width =
      (max minLong (min maxLong ⌊low / width⌋),
        max (max minLong (min maxLong ⌈high / width⌉))
          (max minLong (min maxLong ⌊low / width⌋) + 1)) := by
  simp only [indices, toLong_floor, toLong_ceil]
  congr 1
  split <;> omega

theorem indices_exact (low high width : ℝ) :
    (indices low high width).1 = max minLong (min maxLong ⌊low / width⌋) ∧
      (indices low high width).1 < (indices low high width).2 ∧
      max minLong (min maxLong ⌈high / width⌉) ≤ (indices low high width).2 := by
  rw [indices_eq]
  exact ⟨rfl, by omega, le_max_left _ _⟩

/-- A range has edges when the first one has an index below the largest there is, and a list can hold
them all. -/
theorem succeeds_ofRange (low high width : ℝ) :
    Succeeds (ofRange low high width) ↔
      ⌊low / width⌋ < maxLong ∧
        ((indices low high width).2 - (indices low high width).1 + 1).toNat ≤ maxNumbers := by
  have hminmax : minLong < maxLong := by decide
  have hlong : (indices low high width).2 ≤ maxLong ↔ ⌊low / width⌋ < maxLong := by
    rw [indices_eq]
    omega
  rw [← hlong, ofRange]
  simp only [reserve]
  split
  next hbeyond => simp [not_le.2 hbeyond]
  next hwithin =>
    split
    next hroom => simp [not_lt.1 hwithin, hroom, bind, Except.bind]
    next hfull => simp [hfull, bind, Except.bind]

/-- A range between two neighbouring multiples has one bin. -/
theorem ofRange_of_one {k : ℤ} (hfirst : ⌊low / width⌋ = k) (hlast : ⌈high / width⌉ = k + 1)
    (hlow : minLong ≤ k) (hhigh : k < maxLong) :
    ofRange low high width = .ok [width * k, width * (k + 1)] := by
  have hindices : indices low high width = (k, k + 1) := by
    rw [indices_eq, hfirst, hlast]
    congr 1 <;> omega
  have hcount : (k + 1 - k + 1).toNat = 2 := by omega
  simp only [ofRange, hindices]
  rw [if_neg (by omega), hcount, reserve, if_pos (by decide), multiples_exact, hcount]
  simp [List.range_succ, bind, Except.bind, pure, Except.pure]

/-- A value of the range lies between the ends of the edges as long as it lies between the multiples
that have an index. -/
theorem between_iff (hwidth : 0 < width) (hlong : (indices low high width).2 ≤ maxLong) {value : ℝ}
    (hlow : low ≤ value) (hhigh : value ≤ high) :
    (width * (indices low high width).1 ≤ value ∧ value ≤ width * (indices low high width).2) ↔
      width * minLong ≤ value ∧ value ≤ width * maxLong := by
  obtain ⟨hfirst, hlt, hlast⟩ := indices_exact low high width
  have hmono : ∀ {a b : ℤ}, a ≤ b → width * (a : ℝ) ≤ width * b := fun hab =>
    mul_le_mul_of_nonneg_left (Int.cast_le.2 hab) hwidth.le
  have hminmax : minLong ≤ maxLong := by decide
  constructor
  · rintro ⟨hle, hge⟩
    exact ⟨(hmono (by omega)).trans hle, hge.trans (hmono hlong)⟩
  · rintro ⟨hle, hge⟩
    constructor
    · -- the first index is at most the floor, or the smallest one there is
      rcases le_or_gt minLong ⌊low / width⌋ with hfloor | hfloor
      · have hbelow : width * (⌊low / width⌋ : ℝ) ≤ low := by
          rw [mul_comm, ← le_div_iff₀ hwidth]
          exact Int.floor_le _
        exact (hmono (by omega)).trans (hbelow.trans hlow)
      · rw [hfirst, show max minLong (min maxLong ⌊low / width⌋) = minLong by omega]
        exact hle
    · rcases le_or_gt ⌈high / width⌉ maxLong with hceil | hceil
      · have habove : high ≤ width * (⌈high / width⌉ : ℝ) := by
          rw [mul_comm, ← div_le_iff₀ hwidth]
          exact Int.le_ceil _
        exact hhigh.trans (habove.trans (hmono (by omega)))
      · exact hge.trans (hmono (by omega))

/-- Every value has a bin, which encloses it if the edges do. -/
theorem encloses_ofRange (hwidth : 0 < width) {edges : List ℝ}
    (hedges : ofRange low high width = .ok edges) (value : ℝ) :
    ∃ i, Binning.bin edges value = .ok i ∧
      (Binning.Encloses edges i value ↔ Binning.Spans edges value) := by
  obtain ⟨_, rfl⟩ := ofRange_eq_ok hedges
  obtain ⟨_, hlt, _⟩ := indices_exact low high width
  have hlength : 2 ≤ (multiples width (indices low high width).1
      (indices low high width).2).length := by
    rw [length_multiples]
    omega
  obtain ⟨i, hbin⟩ := Binning.exists_bin hlength value
  exact ⟨i, hbin, Binning.encloses_iff (pairwise_multiples hwidth.le _ _) hbin⟩

/-- The edges reach around a value of the range as far as multiples have indices. -/
theorem spans_ofRange (hwidth : 0 < width) {edges : List ℝ}
    (hedges : ofRange low high width = .ok edges) {value : ℝ} (hlow : low ≤ value)
    (hhigh : value ≤ high) :
    Binning.Spans edges value ↔ width * minLong ≤ value ∧ value ≤ width * maxLong := by
  obtain ⟨hlong, rfl⟩ := ofRange_eq_ok hedges
  obtain ⟨_, hlt, _⟩ := indices_exact low high width
  rw [Binning.spans_iff (head?_multiples hlt.le) (getLast?_multiples hlt.le),
    between_iff hwidth hlong hlow hhigh]

end SeismicHazard.Edges

end
