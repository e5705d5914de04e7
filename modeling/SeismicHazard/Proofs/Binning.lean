import SeismicHazard.Proofs.Edges.Counts
import SeismicHazard.Proofs.Matrix.Cells
import SeismicHazard.Proofs.Numeric.Exact

/-!
# Bins of contributions

A bin that is found is one of the bins between the edges, so the cell of a contribution is a cell of
the matrix that has these edges. The bin encloses the value unless the value lies outside the edges,
where the bin at that end is taken.
-/

noncomputable section

namespace SeismicHazard

namespace Binning

section Found

variable {R : Type} [Scalar R] {edges : List R} {value : R} {i : Nat}

theorem bin_eq_ok_iff : bin edges value = .ok i ↔ Scalar.isNaN value = false ∧ 2 ≤ edges.length ∧
    i = min (edgesAtMost value edges.toArray - 1) (edges.length - 2) := by
  unfold bin
  split
  next hnan => simp [hnan]
  next hnumber =>
    split
    next hfew => simp [hfew]
    next hlength => simp [hnumber, not_lt.1 hlength, eq_comm]

theorem succeeds_bin : Succeeds (bin edges value) ↔
    Scalar.isNaN value = false ∧ 2 ≤ edges.length := by
  simp [Succeeds, bin_eq_ok_iff]

theorem bin_lt (hbin : bin edges value = .ok i) : i + 1 < edges.length := by
  obtain ⟨_, hlength, rfl⟩ := bin_eq_ok_iff.1 hbin
  omega

theorem lonBin_eq_ok_iff : lonBin edges (offsets edges) value = .ok i ↔
    Scalar.isNaN value = false ∧ ∃ west rest, edges = west :: rest ∧
      bin (offsets edges) (offset west (spanned edges) value) = .ok i := by
  unfold lonBin
  split
  next hnan => simp [hnan]
  next hnumber =>
    cases edges with
    | nil => simp
    | cons west rest => simp [hnumber, spanned]

theorem lonBin_lt (hbin : lonBin edges (offsets edges) value = .ok i) : i + 1 < edges.length := by
  obtain ⟨_, west, rest, rfl, hbin⟩ := lonBin_eq_ok_iff.1 hbin
  have hlt := bin_lt hbin
  rwa [length_offsets (List.cons_ne_nil west rest)] at hlt

end Found

variable {edges : List ℝ} {value : ℝ} {i : Nat}

theorem bin_eq_ok : bin edges value = .ok i ↔
    2 ≤ edges.length ∧ i = min (edgesAtMost value edges.toArray - 1) (edges.length - 2) := by
  simp only [bin_eq_ok_iff, Scalar.isNaN_exact, true_and]

theorem exists_bin (hlength : 2 ≤ edges.length) (value : ℝ) : ∃ i, bin edges value = .ok i :=
  ⟨_, bin_eq_ok.2 ⟨hlength, rfl⟩⟩

theorem lonBin_eq_ok : lonBin edges (offsets edges) value = .ok i ↔
    ∃ west rest, edges = west :: rest ∧
      bin (offsets edges) (offset west (spanned edges) value) = .ok i := by
  simp only [lonBin_eq_ok_iff, Scalar.isNaN_exact, true_and]

/-! ## Enclosing bins -/

theorem partitionPoint_halve {test : Nat → Bool} {base size : Nat} (hsize : 1 < size) :
    partitionPoint test base size =
      partitionPoint test (if test (base + size / 2) then base + size / 2 else base)
        (size - size / 2) := by
  rw [partitionPoint, if_pos hsize]

/-- Where a test holds up to some point, the search by halving finds that point. -/
theorem partitionPoint_spec {test : Nat → Bool}
    (hdown : ∀ i j, i ≤ j → test j = true → test i = true) (base size : Nat) :
    base ≤ partitionPoint test base size ∧ partitionPoint test base size ≤ base + size ∧
      (∀ i, base ≤ i → i < partitionPoint test base size → test i = true) ∧
      ∀ i, partitionPoint test base size ≤ i → i < base + size → test i = false := by
  induction size using Nat.strong_induction_on generalizing base with
  | _ size ih =>
      by_cases hsize : 1 < size
      · rw [partitionPoint_halve hsize]
        by_cases hhalf : test (base + size / 2) = true
        · obtain ⟨hle, hge, hbelow, habove⟩ := ih (size - size / 2) (by omega) (base + size / 2)
          rw [if_pos hhalf]
          refine ⟨by omega, by omega, fun i _ hi => ?_, fun i hi hlt => habove i hi (by omega)⟩
          rcases Nat.lt_or_ge i (base + size / 2) with hlt | hge
          · exact hdown i _ hlt.le hhalf
          · exact hbelow i hge hi
        · obtain ⟨hle, hge, hbelow, habove⟩ := ih (size - size / 2) (by omega) base
          rw [if_neg hhalf]
          refine ⟨hle, by omega, hbelow, fun i hi _ => ?_⟩
          rcases Nat.lt_or_ge i (base + (size - size / 2)) with hlt | hge
          · exact habove i hi hlt
          · -- beyond the part that is searched the test fails as it does in the middle
            rw [← Bool.not_eq_true]
            exact fun htest => hhalf (hdown _ i (by omega) htest)
      · rw [partitionPoint, if_neg hsize]
        rcases Nat.eq_zero_or_pos size with rfl | hpos
        · rw [if_pos rfl]
          exact ⟨le_rfl, le_rfl, fun i _ _ => by omega, fun i _ _ => by omega⟩
        · obtain rfl : size = 1 := by omega
          by_cases htest : test base = true
          · rw [if_neg Nat.one_ne_zero, if_pos htest]
            refine ⟨by omega, le_rfl, fun i hi hlt => ?_, fun i _ _ => by omega⟩
            obtain rfl : i = base := by omega
            exact htest
          · rw [if_neg Nat.one_ne_zero, if_neg htest]
            refine ⟨le_rfl, by omega, fun i _ _ => by omega, fun i hi hlt => ?_⟩
            obtain rfl : i = base := by omega
            simpa using htest

/-- A bin between two edges encloses a value. -/
def Encloses (edges : List ℝ) (i : Nat) (value : ℝ) : Prop :=
  ∃ lower upper, edges[i]? = some lower ∧ edges[i + 1]? = some upper ∧ lower ≤ value ∧ value ≤ upper

/-- A value lies between the first edge and the last one. -/
def Spans (edges : List ℝ) (value : ℝ) : Prop :=
  ∃ first last, edges.head? = some first ∧ edges.getLast? = some last ∧ first ≤ value ∧ value ≤ last

theorem spans_iff {first last : ℝ} (hfirst : edges.head? = some first)
    (hlast : edges.getLast? = some last) : Spans edges value ↔ first ≤ value ∧ value ≤ last := by
  simp [Spans, hfirst, hlast]

/-- The number of edges at or below a value, when the edges do not decrease. -/
theorem edgesAtMost_spec (value : ℝ) (hsorted : edges.Pairwise (· ≤ ·)) :
    edgesAtMost value edges.toArray ≤ edges.length ∧
      ∀ i (hi : i < edges.length), i < edgesAtMost value edges.toArray ↔ edges[i] ≤ value := by
  have htest : ∀ i (hi : i < edges.length),
      (edges.toArray[i]?.any fun edge => decide (edge ≤ value)) = true ↔ edges[i] ≤ value := by
    intro i hi
    simp [hi]
  -- what the search tests holds for the first edges and for no later ones
  have hdown : ∀ i j : Nat, i ≤ j →
      (edges.toArray[j]?.any fun edge => decide (edge ≤ value)) = true →
      (edges.toArray[i]?.any fun edge => decide (edge ≤ value)) = true := by
    intro i j hij hj
    rcases Nat.lt_or_ge j edges.length with hlt | hge
    · rw [htest i (by omega)]
      rw [htest j hlt] at hj
      rcases hij.eq_or_lt with rfl | hij
      · exact hj
      · exact (List.pairwise_iff_getElem.1 hsorted i j _ hlt hij).trans hj
    · simp [hge] at hj
  obtain ⟨_, hle, hbelow, habove⟩ := partitionPoint_spec hdown 0 edges.toArray.size
  refine ⟨by simpa [edgesAtMost] using hle, fun i hi => ?_⟩
  rw [← htest i hi]
  constructor
  · exact fun hlt => hbelow i (Nat.zero_le i) hlt
  · intro hi'
    by_contra hge
    have hfalse := habove i (not_lt.1 hge) (by simpa using hi)
    rw [hi'] at hfalse
    simp at hfalse

/-- A bin encloses the value unless the value lies outside all edges. -/
theorem encloses_iff (hsorted : edges.Pairwise (· ≤ ·)) (hbin : bin edges value = .ok i) :
    Encloses edges i value ↔ Spans edges value := by
  obtain ⟨hlength, rfl⟩ := bin_eq_ok.1 hbin
  obtain ⟨first, hfirst⟩ : ∃ first, edges.head? = some first :=
    ⟨_, List.head?_eq_some_head (List.ne_nil_of_length_pos (by omega))⟩
  obtain ⟨last, hlast⟩ : ∃ last, edges.getLast? = some last :=
    ⟨_, List.getLast?_eq_some_getLast (List.ne_nil_of_length_pos (by omega))⟩
  rw [spans_iff hfirst hlast]
  obtain ⟨hcount, hspec⟩ := edgesAtMost_spec value hsorted
  rw [List.head?_eq_getElem?, List.getElem?_eq_getElem (by omega), Option.some.injEq] at hfirst
  rw [List.getLast?_eq_getElem?, List.getElem?_eq_getElem (by omega), Option.some.injEq] at hlast
  have hmono : ∀ i j (hj : j < edges.length) (hij : i ≤ j), edges[i] ≤ edges[j] := by
    intro i j hj hij
    rcases hij.eq_or_lt with rfl | hlt
    · exact le_rfl
    · exact List.pairwise_iff_getElem.1 hsorted i j _ hj hlt
  constructor
  · rintro ⟨lower, upper, hlower, hupper, hle, hge⟩
    rw [List.getElem?_eq_getElem (by omega), Option.some.injEq] at hlower hupper
    rw [← hfirst, ← hlast]
    exact ⟨(hmono _ _ (by omega) (Nat.zero_le _)).trans (hlower.trans_le hle),
      hge.trans (hupper.symm.trans_le (hmono _ _ (by omega) (by omega)))⟩
  · rintro ⟨hle, hge⟩
    have hpos : 0 < edgesAtMost value edges.toArray := by
      rw [hspec 0 (by omega), hfirst]
      exact hle
    refine ⟨_, _, List.getElem?_eq_getElem (by omega), List.getElem?_eq_getElem (by omega), ?_, ?_⟩
    · rw [← hspec _ (by omega)]
      omega
    · -- the next edge lies above the value, or is the last one
      rcases Nat.lt_or_ge (edgesAtMost value edges.toArray) edges.length with hlt | hall
      · have hnext : ¬ edges[edgesAtMost value edges.toArray] ≤ value := by
          rw [← hspec _ hlt]
          omega
        exact (not_le.1 hnext).le.trans (hmono _ _ (by omega) (by omega))
      · rw [← hlast] at hge
        exact hge.trans (hmono _ _ (by omega) (by omega))

/-! ## The bin that holds a value -/

/-- A bin holds the values from its lower edge up to, but not including, its upper edge. The last bin
holds its upper edge too. -/
def Holds (edges : List ℝ) (i : Nat) (value : ℝ) : Prop :=
  ∃ lower upper, edges[i]? = some lower ∧ edges[i + 1]? = some upper ∧ lower ≤ value ∧
    (value < upper ∨ i + 2 = edges.length ∧ value = upper)

/-- Between the first edge and the last one, the bin of a value is the one that holds it. -/
theorem bin_eq_ok_iff_holds (hlength : 2 ≤ edges.length) (hsorted : edges.Pairwise (· ≤ ·))
    (hspans : Spans edges value) : bin edges value = .ok i ↔ Holds edges i value := by
  obtain ⟨first, last, hfirst, hlast, hge, hle⟩ := hspans
  obtain ⟨hcount, hspec⟩ := edgesAtMost_spec value hsorted
  rw [List.head?_eq_getElem?, List.getElem?_eq_getElem (by omega), Option.some.injEq] at hfirst
  rw [List.getLast?_eq_getElem?, List.getElem?_eq_getElem (by omega), Option.some.injEq] at hlast
  have hpos : 0 < edgesAtMost value edges.toArray := by
    rw [hspec 0 (by omega), hfirst]
    exact hge
  constructor
  · intro hbin
    obtain ⟨_, rfl⟩ := bin_eq_ok.1 hbin
    refine ⟨_, _, List.getElem?_eq_getElem (by omega), List.getElem?_eq_getElem (by omega), ?_, ?_⟩
    · rw [← hspec _ (by omega)]
      omega
    · -- the next edge lies above the value, or all edges are at or below it
      rcases Nat.lt_or_ge (edgesAtMost value edges.toArray) edges.length with hlt | hall
      · left
        rw [← not_le, ← hspec _ (by omega)]
        omega
      · have hend : min (edgesAtMost value edges.toArray - 1) (edges.length - 2) + 1 =
            edges.length - 1 := by omega
        have hlower := (hspec (edges.length - 1) (by omega)).1 (by omega)
        right
        refine ⟨by omega, ?_⟩
        simp only [hend]
        exact le_antisymm (hle.trans_eq hlast.symm) hlower
  · rintro ⟨lower, upper, hlower, hupper, hlow, hupp⟩
    obtain ⟨hi, rfl⟩ := List.getElem?_eq_some_iff.1 hlower
    obtain ⟨hi', rfl⟩ := List.getElem?_eq_some_iff.1 hupper
    rw [← hspec i hi] at hlow
    refine bin_eq_ok.2 ⟨hlength, ?_⟩
    rcases hupp with hlt | ⟨hend, heq⟩
    · rw [← not_le, ← hspec (i + 1) hi'] at hlt
      omega
    · have hat := (hspec (i + 1) hi').2 heq.ge
      omega

theorem exists_bin_holds (hlength : 2 ≤ edges.length) (hsorted : edges.Pairwise (· ≤ ·))
    (hspans : Spans edges value) :
    ∃ i, bin edges value = .ok i ∧ ∀ j, Holds edges j value ↔ j = i := by
  obtain ⟨i, hbin⟩ := exists_bin hlength value
  refine ⟨i, hbin, fun j => ?_⟩
  rw [← bin_eq_ok_iff_holds hlength hsorted hspans, hbin, Except.ok.injEq, eq_comm]

/-- A value at or beyond the last edge is in the last bin. -/
theorem bin_of_last_le (hlength : 2 ≤ edges.length) (hsorted : edges.Pairwise (· ≤ ·)) {last : ℝ}
    (hlast : edges.getLast? = some last) (hle : last ≤ value) :
    bin edges value = .ok (edges.length - 2) := by
  obtain ⟨_, hspec⟩ := edgesAtMost_spec value hsorted
  rw [List.getLast?_eq_getElem?, List.getElem?_eq_getElem (by omega), Option.some.injEq] at hlast
  have hall := (hspec (edges.length - 1) (by omega)).2 (hlast.trans_le hle)
  exact bin_eq_ok.2 ⟨hlength, by omega⟩

/-- A value below the first edge is in the first bin. -/
theorem bin_of_lt_first (hlength : 2 ≤ edges.length) (hsorted : edges.Pairwise (· ≤ ·)) {first : ℝ}
    (hfirst : edges.head? = some first) (hlt : value < first) : bin edges value = .ok 0 := by
  obtain ⟨_, hspec⟩ := edgesAtMost_spec value hsorted
  rw [List.head?_eq_getElem?, List.getElem?_eq_getElem (by omega), Option.some.injEq] at hfirst
  have hnone : ¬ 0 < edgesAtMost value edges.toArray := by
    rw [hspec 0 (by omega), hfirst]
    exact not_le.2 hlt
  exact bin_eq_ok.2 ⟨hlength, by omega⟩

end Binning

namespace Arrangement

variable {R : Type} [Scalar R] {edges : BinEdges R} {regions : Nat} {c : Contribution R}
  {k : Cell}

/-- The cell of a contribution is found axis by axis. -/
theorem cell_eq_ok : cell edges (Binning.offsets edges.lon) regions c = .ok k ↔
    c.trt < regions ∧ k.trt = c.trt ∧ Binning.bin edges.mag c.mag = .ok k.mag ∧
      Binning.bin edges.dist c.dist = .ok k.dist ∧
      Binning.lonBin edges.lon (Binning.offsets edges.lon) c.lon = .ok k.lon ∧
      Binning.bin edges.lat c.lat = .ok k.lat := by
  unfold cell
  split
  next hregion => simp [not_lt.2 hregion]
  next hregion =>
    simp only [bind_eq_ok, pure_eq_ok]
    constructor
    · rintro ⟨mag, hmag, dist, hdist, lon, hlon, lat, hlat, rfl⟩
      exact ⟨not_le.1 hregion, rfl, hmag, hdist, hlon, hlat⟩
    · rintro ⟨_, htrt, hmag, hdist, hlon, hlat⟩
      refine ⟨_, hmag, _, hdist, _, hlon, _, hlat, ?_⟩
      cases k
      simp_all

theorem holds_cell {shape : Shape} (hshape : edges.shape regions = .ok shape)
    (hcell : cell edges (Binning.offsets edges.lon) regions c = .ok k) : shape.holds k = true := by
  obtain ⟨htrt, hk, hmag, hdist, hlon, hlat⟩ := cell_eq_ok.1 hcell
  obtain ⟨smag, sdist, slon, slat, strt, _⟩ := BinEdges.shape_eq_ok hshape
  have hmag := Binning.bin_lt hmag
  have hdist := Binning.bin_lt hdist
  have hlon := Binning.lonBin_lt hlon
  have hlat := Binning.bin_lt hlat
  rw [Shape.holds_iff]
  omega

end Arrangement

end SeismicHazard

end
