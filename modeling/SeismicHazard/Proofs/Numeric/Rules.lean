import SeismicHazard.Proofs.Numeric.Exact

/-!
# Rules of arithmetic

What is relied on where statements hold beyond exact arithmetic. The rules are those that rounding
to the nearest number keeps, because rounding never turns an order around and leaves zero and one
where they are.
-/

namespace SeismicHazard

open Scalar

/-- The rules of arithmetic at probabilities. -/
class ProbabilityRules (R : Type) [Scalar R] : Prop where
  le_trans {x y z : R} : x ≤ y → y ≤ z → x ≤ z
  one : isProbability (1 : R) = true
  /-- A probability is a number. -/
  le_self {p : R} : isProbability p = true → p ≤ p
  complement {p : R} : isProbability p = true → isProbability (1 - p) = true
  complement_le {p q : R} : isProbability p = true → isProbability q = true → p ≤ q →
    1 - q ≤ 1 - p
  product {p q : R} : isProbability p = true → isProbability q = true →
    isProbability (p * q) = true
  product_le {p q : R} : isProbability p = true → isProbability q = true → p * q ≤ p

/-- The rules by which a value that is no number spoils what is computed from it. -/
class NaNRules (R : Type) [Scalar R] : Prop where
  not_lt_right {x y : R} : isNaN y = true → ¬ x < y
  not_le_right {x y : R} : isNaN y = true → ¬ x ≤ y
  neg {x : R} : isNaN x = true → isNaN (-x) = true
  sub_right {x y : R} : isNaN y = true → isNaN (x - y) = true
  mul_left {x y : R} : isNaN x = true → isNaN (x * y) = true
  div_left {x y : R} : isNaN x = true → isNaN (x / y) = true
  exp {x : R} : isNaN x = true → isNaN (Scalar.exp x) = true

/-- The rules by which numbers compare. Next to a value that is no number nothing is below or
above. -/
class OrderRules (R : Type) [Scalar R] : Prop where
  not_le_of_lt_of_le {x y z : R} : x < y → y ≤ z → ¬ z ≤ x
  not_lt_iff {x y : R} : ¬ x < y ↔ y ≤ x ∨ isNaN x = true ∨ isNaN y = true

/-- The rules by which numbers stand in one order, in which different numbers can be level. What is
not at most itself stands nowhere in it. -/
class RankRules (R : Type) [Scalar R] : Prop where
  le_trans {x y z : R} : x ≤ y → y ≤ z → x ≤ z
  le_self {x y : R} : x ≤ y → x ≤ x ∧ y ≤ y
  le_total {x y : R} : x ≤ x → y ≤ y → x ≤ y ∨ y ≤ x
  lt_iff {x y : R} : x < y ↔ x ≤ y ∧ ¬ y ≤ x

/-- The rule that the order of keys tells probabilities apart. -/
class KeyRules (R : Type) [Scalar R] : Prop where
  eq_of_order {x y : R} : Scalar.order x y = .eq → x = y

/-- The rules of arithmetic without rounding: factors can be reordered and regrouped, and values
that compare in the same way are equal. -/
class ExactRules (R : Type) [Scalar R] : Prop where
  mul_comm (x y : R) : x * y = y * x
  mul_assoc (x y z : R) : x * y * z = x * (y * z)
  mul_one (x : R) : x * 1 = x
  eq_of_le {x y : R} : x ≤ y → y ≤ x → x = y
  eq_of_isNaN {x y : R} : isNaN x = true → isNaN y = true → x = y

/-- The rule that counts are numbers as far as every one of them is. -/
class CountRules (R : Type) [Scalar R] : Prop where
  toCount_natCast {n : Nat} : n < 2 ^ 53 → toCount ((n : Nat) : R) = n

instance : ProbabilityRules ℝ where
  le_trans hxy hyz := hxy.trans hyz
  one := by simp [isProbability_exact]
  le_self _ := le_rfl
  complement {p} hp := by
    rw [isProbability_exact] at hp ⊢
    rw [one_exact]
    exact ⟨sub_nonneg.2 hp.2, sub_le_self 1 hp.1⟩
  complement_le _ _ hle := sub_le_sub_left hle _
  product {p q} hp hq := by
    rw [isProbability_exact] at hp hq ⊢
    exact ⟨mul_nonneg hp.1 hq.1, mul_le_one₀ hp.2 hq.1 hq.2⟩
  product_le {p q} hp hq := by
    rw [isProbability_exact] at hp hq
    exact mul_le_of_le_one_right hp.1 hq.2

/-- Numbers that stand in one order compare as they stand. -/
instance {R : Type} [Scalar R] [RankRules R] : OrderRules R where
  not_le_of_lt_of_le hxy hyz hzx :=
    (RankRules.lt_iff.1 hxy).2 (RankRules.le_trans hyz hzx)
  not_lt_iff {x y} := by
    simp only [RankRules.lt_iff, not_and_not_right, isNaN, Bool.not_eq_true',
      decide_eq_false_iff_not]
    constructor
    · intro h
      by_contra hnot
      obtain ⟨hyx, hx, hy⟩ : ¬ y ≤ x ∧ x ≤ x ∧ y ≤ y := by
        simpa only [not_or, not_not] using hnot
      exact hyx ((RankRules.le_total hx hy).elim h id)
    · rintro (h | h | h) hxy
      · exact h
      · exact absurd (RankRules.le_self hxy).1 h
      · exact absurd (RankRules.le_self hxy).2 h

instance : RankRules ℝ where
  le_trans := le_trans
  le_self _ := ⟨le_rfl, le_rfl⟩
  le_total _ _ := le_total _ _
  lt_iff := lt_iff_le_not_ge

instance : KeyRules ℝ where
  eq_of_order := compare_eq_iff_eq.1

instance : ExactRules ℝ where
  mul_comm := mul_comm
  mul_assoc := mul_assoc
  mul_one x := by rw [one_exact, mul_one]
  eq_of_le := le_antisymm
  eq_of_isNaN {x y} hx := by simp at hx

instance : CountRules ℝ where
  toCount_natCast {n} hn := by
    have htruncated : truncated ((n : Nat) : ℝ) = n := by
      simp [truncated]
    have hmax : (n : Int) ≤ maxCount := by
      rw [maxCount]
      omega
    change (max 0 (min (maxCount : Int) (truncated ((n : Nat) : ℝ)))).toNat = n
    rw [htruncated, min_eq_right hmax, max_eq_right (Int.natCast_nonneg n), Int.toNat_natCast]

end SeismicHazard
