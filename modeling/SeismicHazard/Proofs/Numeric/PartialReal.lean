import SeismicHazard.Proofs.Numeric.Rules

/-!
# Real numbers and a value that is none

Exact arithmetic in which an operation without a result, such as a division by zero, has the value
that is no number. What is computed from that value is no number again, and comparisons with it are
false.
-/

noncomputable section

namespace SeismicHazard

/-- A real number, or the value that is no number. -/
inductive PartialReal where
  | real (x : ℝ)
  | nan

namespace PartialReal

/-- A function of one number. -/
def map (f : ℝ → ℝ) : PartialReal → PartialReal
  | real x => real (f x)
  | nan => nan

/-- A function of one number that has a result for some numbers only. -/
def mapWhere (p : ℝ → Prop) [DecidablePred p] (f : ℝ → ℝ) : PartialReal → PartialReal
  | real x => if p x then real (f x) else nan
  | nan => nan

/-- A function of two numbers. -/
def map₂ (f : ℝ → ℝ → ℝ) : PartialReal → PartialReal → PartialReal
  | real x, real y => real (f x y)
  | _, _ => nan

/-- A function of two numbers that has no result if the second one is zero. -/
def mapUnlessZero (f : ℝ → ℝ → ℝ) : PartialReal → PartialReal → PartialReal
  | real x, real y => if y = 0 then nan else real (f x y)
  | _, _ => nan

/-- A relation of two numbers. -/
def Both (r : ℝ → ℝ → Prop) : PartialReal → PartialReal → Prop
  | real x, real y => r x y
  | _, _ => False

instance (r : ℝ → ℝ → Prop) [DecidableRel r] : DecidableRel (Both r) :=
  fun x y =>
    match x, y with
    | real x, real y => inferInstanceAs (Decidable (r x y))
    | real _, nan => inferInstanceAs (Decidable False)
    | nan, _ => inferInstanceAs (Decidable False)

/-- Numbers below the value that is none. -/
def place : PartialReal → WithTop ℝ
  | real x => x
  | nan => ⊤

instance : Scalar PartialReal where
  add := map₂ (· + ·)
  sub := map₂ (· - ·)
  mul := map₂ (· * ·)
  div := mapUnlessZero (· / ·)
  neg := map (- ·)
  lt := Both (· < ·)
  le := Both (· ≤ ·)
  natCast n := real n
  intCast n := real n
  decidableLT := inferInstanceAs (DecidableRel (Both (· < ·)))
  decidableLE := inferInstanceAs (DecidableRel (Both (· ≤ ·)))
  floor := map Scalar.floor
  ceil := map Scalar.ceil
  round := map Scalar.round
  wholePart lo hi
    | real x => Scalar.wholePart lo hi x
    | nan => 0
  remainder := mapUnlessZero Scalar.remainder
  sqrt := mapWhere (0 ≤ ·) Scalar.sqrt
  exp := map Scalar.exp
  log := mapWhere (0 < ·) Scalar.log
  sin := map Scalar.sin
  cos := map Scalar.cos
  asin := mapWhere (fun x => -1 ≤ x ∧ x ≤ 1) Scalar.asin
  pi := real Scalar.pi
  isFinite
    | real _ => true
    | nan => false
  order := compareOn place
  order_trans := inferInstance

@[simp] theorem real_lt_real {x y : ℝ} : (real x < real y) ↔ x < y := Iff.rfl

@[simp] theorem real_le_real {x y : ℝ} : (real x ≤ real y) ↔ x ≤ y := Iff.rfl

@[simp] theorem natCast_eq (n : Nat) : (n : PartialReal) = real n := rfl

theorem real_neg (x : ℝ) : -real x = real (-x) := rfl

theorem real_add (x y : ℝ) : real x + real y = real (x + y) := rfl

theorem real_sub (x y : ℝ) : real x - real y = real (x - y) := rfl

theorem real_mul (x y : ℝ) : real x * real y = real (x * y) := rfl

theorem real_div (x : ℝ) {y : ℝ} (hy : y ≠ 0) : real x / real y = real (x / y) := if_neg hy

theorem log_real {x : ℝ} (hx : 0 < x) : Scalar.log (real x) = real (Real.log x) := if_pos hx

theorem ofNat_eq (n : Nat) : (@OfNat.ofNat PartialReal n (Scalar.instOfNat n)) = real n := rfl

@[simp] theorem isNaN_real (x : ℝ) : Scalar.isNaN (real x) = false := by
  simp [Scalar.isNaN]

@[simp] theorem isNaN_nan : Scalar.isNaN nan = true := rfl

theorem isNaN_iff {x : PartialReal} : Scalar.isNaN x = true ↔ x = nan := by
  cases x with
  | real x => simp
  | nan => simp

/-- Numbers obey the rules for values that are none. -/
instance : NaNRules PartialReal where
  not_lt_right {x y} hy := by
    obtain rfl := isNaN_iff.1 hy
    cases x <;> exact id
  not_le_right {x y} hy := by
    obtain rfl := isNaN_iff.1 hy
    cases x <;> exact id
  neg {x} hx := by
    obtain rfl := isNaN_iff.1 hx
    rfl
  sub_right {x y} hy := by
    obtain rfl := isNaN_iff.1 hy
    cases x <;> rfl
  mul_left {x y} hx := by
    obtain rfl := isNaN_iff.1 hx
    cases y <;> rfl
  div_left {x y} hx := by
    obtain rfl := isNaN_iff.1 hx
    cases y <;> rfl
  exp {x} hx := by
    obtain rfl := isNaN_iff.1 hx
    rfl

theorem isProbability_real (x : ℝ) : Scalar.isProbability (real x) = true ↔ 0 ≤ x ∧ x ≤ 1 := by
  simp [Scalar.isProbability, Scalar.within, ofNat_eq]

theorem exists_real_of_isProbability {p : PartialReal} (hp : Scalar.isProbability p = true) :
    ∃ x, p = real x ∧ 0 ≤ x ∧ x ≤ 1 := by
  cases p with
  | nan => exact absurd hp (by decide)
  | real x => exact ⟨x, rfl, (isProbability_real x).1 hp⟩

instance : RankRules PartialReal where
  le_trans {x y z} hxy hyz := by
    cases x with
    | nan => exact hxy
    | real x =>
        cases y with
        | nan => exact hyz.elim
        | real y =>
            cases z with
            | nan => exact hyz
            | real z => exact le_trans (b := y) hxy hyz
  le_self {x y} hxy := by
    cases x with
    | nan => exact hxy.elim
    | real x =>
        cases y with
        | nan => exact hxy.elim
        | real y => exact ⟨le_refl x, le_refl y⟩
  le_total {x y} hx hy := by
    cases x with
    | nan => exact hx.elim
    | real x =>
        cases y with
        | nan => exact hy.elim
        | real y => exact le_total x y
  lt_iff {x y} := by
    cases x with
    | nan => exact ⟨False.elim, fun h => h.1.elim⟩
    | real x =>
        cases y with
        | nan => exact ⟨False.elim, fun h => h.1.elim⟩
        | real y => exact lt_iff_le_not_ge (a := x) (b := y)

instance : ProbabilityRules PartialReal where
  le_trans := RankRules.le_trans
  one := by
    rw [ofNat_eq, isProbability_real]
    norm_num
  le_self {p} hp := by
    obtain ⟨x, rfl, _⟩ := exists_real_of_isProbability hp
    exact le_refl x
  complement {p} hp := by
    obtain ⟨x, rfl, hx⟩ := exists_real_of_isProbability hp
    rw [ofNat_eq, real_sub, isProbability_real, Nat.cast_one]
    exact ⟨sub_nonneg.2 hx.2, sub_le_self 1 hx.1⟩
  complement_le {p q} hp hq hle := by
    obtain ⟨x, rfl, _⟩ := exists_real_of_isProbability hp
    obtain ⟨y, rfl, _⟩ := exists_real_of_isProbability hq
    exact sub_le_sub_left (a := x) hle _
  product {p q} hp hq := by
    obtain ⟨x, rfl, hx⟩ := exists_real_of_isProbability hp
    obtain ⟨y, rfl, hy⟩ := exists_real_of_isProbability hq
    rw [real_mul, isProbability_real]
    exact ⟨mul_nonneg hx.1 hy.1, mul_le_one₀ hx.2 hy.1 hy.2⟩
  product_le {p q} hp hq := by
    obtain ⟨x, rfl, hx⟩ := exists_real_of_isProbability hp
    obtain ⟨y, rfl, hy⟩ := exists_real_of_isProbability hq
    exact mul_le_of_le_one_right hx.1 hy.2

instance : KeyRules PartialReal where
  eq_of_order {x y} h := by
    have hplace : place x = place y := compare_eq_iff_eq.1 h
    cases x <;> cases y <;> simp_all [place]

instance : ExactRules PartialReal where
  mul_comm x y := by
    cases x with
    | nan => cases y <;> rfl
    | real x =>
        cases y with
        | nan => rfl
        | real y => rw [real_mul, real_mul, mul_comm]
  mul_assoc x y z := by
    cases x with
    | nan => cases y <;> cases z <;> rfl
    | real x =>
        cases y with
        | nan => cases z <;> rfl
        | real y =>
            cases z with
            | nan => rfl
            | real z => rw [real_mul, real_mul, real_mul, real_mul, mul_assoc]
  mul_one x := by
    cases x with
    | nan => rfl
    | real x => rw [ofNat_eq, real_mul, Nat.cast_one, mul_one]
  eq_of_le {x y} hxy hyx := by
    cases x with
    | nan => exact hxy.elim
    | real x =>
        cases y with
        | nan => exact hxy.elim
        | real y => exact congrArg real (le_antisymm hxy hyx)
  eq_of_isNaN hx hy := (isNaN_iff.1 hx).trans (isNaN_iff.1 hy).symm

end PartialReal

end SeismicHazard

end
