import Mathlib.Tactic.Ring
import SeismicHazard.Matrix.Shape

/-!
# Numbers of cells

The row-major numbers of the cells of a shape. Every number below the size belongs to exactly one
cell and epsilon bin, so a matrix is a function of its cells.
-/

namespace SeismicHazard

theorem radix_lt {a b m n : Nat} (ha : a < m) (hb : b < n) : a * n + b < m * n :=
  calc
    a * n + b < a * n + n := Nat.add_lt_add_left hb _
    _ = (a + 1) * n := by ring
    _ ≤ m * n := Nat.mul_le_mul_right n ha

theorem radix_div {a b n : Nat} (hb : b < n) : (a * n + b) / n = a := by
  rw [Nat.add_comm, Nat.add_mul_div_right b a (Nat.zero_lt_of_lt hb), Nat.div_eq_of_lt hb,
    Nat.zero_add]

theorem radix_inj {a b a' b' n : Nat} (hb : b < n) (hb' : b' < n)
    (h : a * n + b = a' * n + b') : a = a' ∧ b = b' := by
  constructor
  · calc
      a = (a * n + b) / n := (radix_div hb).symm
      _ = (a' * n + b') / n := by rw [h]
      _ = a' := radix_div hb'
  · calc
      b = (a * n + b) % n := (Nat.mul_add_mod_of_lt hb).symm
      _ = (a' * n + b') % n := by rw [h]
      _ = b' := Nat.mul_add_mod_of_lt hb'

theorem exists_radix {i m n : Nat} (h : i < m * n) : ∃ a b, a < m ∧ b < n ∧ a * n + b = i := by
  have hn : 0 < n := Nat.pos_of_ne_zero (by rintro rfl; simp at h)
  exact ⟨i / n, i % n, (Nat.div_lt_iff_lt_mul hn).2 h, Nat.mod_lt i hn, Nat.div_add_mod' i n⟩

namespace Shape

theorem holds_iff {s : Shape} {c : Cell} :
    s.holds c = true ↔ c.mag < s.mag ∧ c.dist < s.dist ∧ c.lon < s.lon ∧ c.lat < s.lat
      ∧ c.trt < s.trt := by
  simp [holds, and_assoc]

theorem index_lt {s : Shape} {c : Cell} {eps : Nat} (hcell : s.holds c = true)
    (heps : eps < s.eps) : s.index c eps < s.size := by
  obtain ⟨hmag, hdist, hlon, hlat, htrt⟩ := holds_iff.1 hcell
  exact radix_lt (radix_lt (radix_lt (radix_lt (radix_lt hmag hdist) hlon) hlat) htrt) heps

theorem index_inj {s : Shape} {c c' : Cell} {eps eps' : Nat} (hcell : s.holds c = true)
    (hcell' : s.holds c' = true) (heps : eps < s.eps) (heps' : eps' < s.eps)
    (h : s.index c eps = s.index c' eps') : c = c' ∧ eps = eps' := by
  obtain ⟨_, hdist, hlon, hlat, htrt⟩ := holds_iff.1 hcell
  obtain ⟨_, hdist', hlon', hlat', htrt'⟩ := holds_iff.1 hcell'
  obtain ⟨h, heq⟩ := radix_inj heps heps' h
  obtain ⟨h, hregion⟩ := radix_inj htrt htrt' h
  obtain ⟨h, hlatitude⟩ := radix_inj hlat hlat' h
  obtain ⟨h, hlongitude⟩ := radix_inj hlon hlon' h
  obtain ⟨hmagnitude, hdistance⟩ := radix_inj hdist hdist' h
  cases c
  cases c'
  simp_all

theorem exists_index {s : Shape} {i : Nat} (h : i < s.size) :
    ∃ c eps, s.holds c = true ∧ eps < s.eps ∧ s.index c eps = i := by
  obtain ⟨_, eps, htrts, heps, rfl⟩ := exists_radix h
  obtain ⟨_, trt, hlats, htrt, rfl⟩ := exists_radix htrts
  obtain ⟨_, lat, hlons, hlat, rfl⟩ := exists_radix hlats
  obtain ⟨_, lon, hdists, hlon, rfl⟩ := exists_radix hlons
  obtain ⟨mag, dist, hmag, hdist, rfl⟩ := exists_radix hdists
  exact ⟨⟨mag, dist, lon, lat, trt⟩, eps, holds_iff.2 ⟨hmag, hdist, hlon, hlat, htrt⟩, heps, rfl⟩

/-- The epsilon bins of a cell follow each other. -/
theorem index_eq_add (s : Shape) (c : Cell) (eps : Nat) : s.index c eps = s.index c 0 + eps := by
  simp [index]

/-! ## Bins counted from the end -/

theorem lt_of_bin? {count number bin : Nat} (h : bin? count number = some bin) : bin < count := by
  unfold bin? at h
  split at h
  next hlt => exact Option.some.inj h ▸ hlt
  next =>
    split at h
    next hback =>
      have hbin := Option.some.inj h
      rw [Bool.and_eq_true, decide_eq_true_eq, decide_eq_true_eq] at hback
      omega
    next => simp at h

theorem bin?_of_lt {count number : Nat} (h : number < count) : bin? count number = some number := by
  simp [bin?, h]

theorem holds_of_locate? {s : Shape} {c place : Cell} (h : s.locate? c = some place) :
    s.holds place = true := by
  simp only [locate?, Option.bind_eq_bind, Option.bind_eq_some_iff] at h
  obtain ⟨mag, hmag, dist, hdist, lon, hlon, lat, hlat, trt, htrt, h⟩ := h
  cases h
  exact holds_iff.2 ⟨lt_of_bin? hmag, lt_of_bin? hdist, lt_of_bin? hlon, lt_of_bin? hlat,
    lt_of_bin? htrt⟩

/-- A cell whose bins are all among those of the shape stands for itself. -/
theorem locate?_of_holds {s : Shape} {c : Cell} (h : s.holds c = true) :
    s.locate? c = some c := by
  obtain ⟨hmag, hdist, hlon, hlat, htrt⟩ := holds_iff.1 h
  simp [locate?, bin?_of_lt hmag, bin?_of_lt hdist, bin?_of_lt hlon, bin?_of_lt hlat,
    bin?_of_lt htrt]

end Shape

end SeismicHazard
