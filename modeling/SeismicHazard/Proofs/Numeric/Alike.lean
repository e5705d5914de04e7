import Mathlib.Data.List.Forall2
import SeismicHazard.Proofs.Numeric.PartialReal

/-!
# Values that compare alike

Two values are alike when every comparison says the same of both. The two signs of zero are alike,
and so are all values that are no numbers. Which of several extremes that are alike is found can
depend on the order in which they are looked at, and nothing else does.
-/

namespace SeismicHazard

namespace Scalar

variable {R : Type} [Scalar R]

/-- Two values are level in the order of numbers, or neither of them is a number. -/
def Alike (x y : R) : Prop := (x ≤ y ∧ y ≤ x) ∨ (isNaN x = true ∧ isNaN y = true)

theorem isNaN_iff_not_le {x : R} : isNaN x = true ↔ ¬ x ≤ x := by
  simp [isNaN]

end Scalar

open Scalar

/-- The rules by which operations do not tell values apart that are alike. -/
class AlikeRules (R : Type) [Scalar R] : Prop where
  add {x x' y y' : R} : Alike x x' → Alike y y' → Alike (x + y) (x' + y')
  sub {x x' y y' : R} : Alike x x' → Alike y y' → Alike (x - y) (x' - y')
  mul {x x' y y' : R} : Alike x x' → Alike y y' → Alike (x * y) (x' * y')
  div {x x' y : R} : Alike x x' → Alike (x / y) (x' / y)
  floor {x x' : R} : Alike x x' → Alike (Scalar.floor x) (Scalar.floor x')
  ceil {x x' : R} : Alike x x' → Alike (Scalar.ceil x) (Scalar.ceil x')
  round {x x' : R} : Alike x x' → Alike (Scalar.round x) (Scalar.round x')
  remainder {x x' step : R} : Alike x x' →
    Alike (Scalar.remainder x step) (Scalar.remainder x' step)
  wholePart {lo hi : Int} {x x' : R} : Alike x x' →
    Scalar.wholePart lo hi x = Scalar.wholePart lo hi x'

namespace Scalar

variable {R : Type} [Scalar R]

/-! ## Orders of values -/

/-- A relation in which numbers stand in one order, from below or from above, and other values
nowhere. -/
structure Ranks (r : R → R → Prop) : Prop where
  trans {x y z : R} : r x y → r y z → r x z
  self {x y : R} : r x y → r x x ∧ r y y
  total {x y : R} : r x x → r y y → r x y ∨ r y x
  alike_iff {x y : R} : Alike x y ↔ (r x y ∧ r y x) ∨ (¬ r x x ∧ ¬ r y y)

theorem ranks_le [RankRules R] : Ranks (R := R) (· ≤ ·) where
  trans := RankRules.le_trans
  self := RankRules.le_self
  total := RankRules.le_total
  alike_iff {x y} := by rw [Alike, isNaN_iff_not_le, isNaN_iff_not_le]

theorem ranks_ge [RankRules R] : Ranks (R := R) (fun x y => y ≤ x) where
  trans hxy hyz := RankRules.le_trans hyz hxy
  self hxy := (RankRules.le_self hxy).symm
  total hx hy := (RankRules.le_total hx hy).symm
  alike_iff {x y} := by rw [Alike, isNaN_iff_not_le, isNaN_iff_not_le, and_comm (a := x ≤ y)]

namespace Ranks

variable {r : R → R → Prop} {x y z x' y' : R}

/-- Values are alike when the same stands before both. -/
theorem alike_iff_forall (hr : Ranks r) : Alike x y ↔ ∀ z, r z x ↔ r z y := by
  rw [hr.alike_iff]
  constructor
  · rintro (⟨hxy, hyx⟩ | ⟨hx, hy⟩) z
    · exact ⟨fun h => hr.trans h hxy, fun h => hr.trans h hyx⟩
    · exact iff_of_false (fun h => hx (hr.self h).2) fun h => hy (hr.self h).2
  · intro h
    by_cases hx : r x x
    · have hxy := (h x).1 hx
      exact .inl ⟨hxy, (h y).2 (hr.self hxy).2⟩
    · exact .inr ⟨hx, fun hy => hx (hr.self ((h y).2 hy)).2⟩

theorem congr (hr : Ranks r) (hx : Alike x x') (hy : Alike y y') : r x y ↔ r x' y' := by
  rw [hr.alike_iff] at hx
  rw [hr.alike_iff_forall.1 hy]
  rcases hx with ⟨hxx', hx'x⟩ | ⟨hx, hx'⟩
  · exact ⟨fun h => hr.trans hx'x h, fun h => hr.trans hxx' h⟩
  · exact iff_of_false (fun h => hx (hr.self h).1) fun h => hx' (hr.self h).1

/-- The one of two values that stands first, the second one if they are level. A value that stands
nowhere gives way. -/
def first (r : R → R → Prop) [DecidableRel r] (x y : R) : R := if ¬ r x x ∨ r y x then y else x

variable [DecidableRel r]

/-- What stands before the first of two values stands before each of them that stands anywhere. -/
theorem rel_first_iff (hr : Ranks r) : r z (first r x y) ↔
    (r x x ∨ r y y) ∧ (r x x → r z x) ∧ (r y y → r z y) := by
  unfold first
  split
  next h =>
    constructor
    · intro hz
      refine ⟨.inr (hr.self hz).2, fun hx => ?_, fun _ => hz⟩
      exact hr.trans hz (h.resolve_left (not_not_intro hx))
    · rintro ⟨hsome, hzx, hzy⟩
      by_cases hy : r y y
      · exact hzy hy
      · -- a value that stands nowhere is not before the first one
        exact h.elim (fun hx => absurd hsome (not_or_intro hx hy))
          fun hyx => absurd (hr.self hyx).1 hy
  next h =>
    rw [not_or, not_not] at h
    constructor
    · intro hz
      exact ⟨.inl h.1, fun _ => hz, fun hy =>
        hr.trans hz ((hr.total h.1 hy).resolve_right h.2)⟩
    · rintro ⟨_, hzx, _⟩
      exact hzx h.1

theorem first_self_iff (hr : Ranks r) : r (first r x y) (first r x y) ↔ r x x ∨ r y y := by
  unfold first
  split
  next h =>
    refine ⟨.inr, fun hsome => hsome.elim (fun hx => ?_) id⟩
    exact (hr.self (h.resolve_left (not_not_intro hx))).1
  next h =>
    rw [not_or, not_not] at h
    exact iff_of_true h.1 (.inl h.1)

theorem first_congr (hr : Ranks r) (hx : Alike x x') (hy : Alike y y') :
    Alike (first r x y) (first r x' y') := by
  rw [hr.alike_iff_forall]
  intro z
  have hx' := hr.congr hx hx
  have hy' := hr.congr hy hy
  rw [hr.rel_first_iff, hr.rel_first_iff, hx', hy', hr.alike_iff_forall.1 hx z,
    hr.alike_iff_forall.1 hy z]

theorem first_comm (hr : Ranks r) (x y : R) : Alike (first r x y) (first r y x) := by
  rw [hr.alike_iff_forall]
  intro z
  rw [hr.rel_first_iff, hr.rel_first_iff, or_comm, and_comm (a := r x x → r z x)]

theorem first_right_comm (hr : Ranks r) (x y z : R) :
    Alike (first r (first r x y) z) (first r (first r x z) y) := by
  rw [hr.alike_iff_forall]
  intro w
  rw [hr.rel_first_iff, hr.first_self_iff, hr.rel_first_iff, hr.rel_first_iff, hr.first_self_iff,
    hr.rel_first_iff]
  tauto

end Ranks

theorem lesser_eq_first (x y : R) : lesser x y = Ranks.first (· ≤ ·) x y := by
  simp only [lesser, Ranks.first, isNaN, Bool.or_eq_true, Bool.not_eq_true', decide_eq_true_eq,
    decide_eq_false_iff_not]

theorem greater_eq_first (x y : R) : greater x y = Ranks.first (fun x y => y ≤ x) x y := by
  simp only [greater, Ranks.first, isNaN, Bool.or_eq_true, Bool.not_eq_true', decide_eq_true_eq,
    decide_eq_false_iff_not]

/-! ## Values that are alike -/

section Alike

variable {x y z x' y' : R}

theorem Alike.ite {p q : Prop} [Decidable p] [Decidable q] (hpq : p ↔ q) (hx : Alike x x')
    (hy : Alike y y') : Alike (if p then x else y) (if q then x' else y') := by
  by_cases hp : p
  · rwa [if_pos hp, if_pos (hpq.1 hp)]
  · rwa [if_neg hp, if_neg (mt hpq.2 hp)]

theorem Alike.eq [ExactRules R] (h : Alike x y) : x = y := by
  rcases h with ⟨hxy, hyx⟩ | ⟨hx, hy⟩
  · exact ExactRules.eq_of_le hxy hyx
  · exact ExactRules.eq_of_isNaN hx hy

variable [RankRules R]

theorem Alike.refl (x : R) : Alike x x := ranks_le.alike_iff_forall.2 fun _ => .rfl

theorem Alike.symm (h : Alike x y) : Alike y x :=
  ranks_le.alike_iff_forall.2 fun z => (ranks_le.alike_iff_forall.1 h z).symm

theorem Alike.trans (hxy : Alike x y) (hyz : Alike y z) : Alike x z :=
  ranks_le.alike_iff_forall.2 fun w =>
    (ranks_le.alike_iff_forall.1 hxy w).trans (ranks_le.alike_iff_forall.1 hyz w)

theorem Alike.le_iff (hx : Alike x x') (hy : Alike y y') : x ≤ y ↔ x' ≤ y' := ranks_le.congr hx hy

theorem Alike.lt_iff (hx : Alike x x') (hy : Alike y y') : x < y ↔ x' < y' := by
  rw [RankRules.lt_iff, RankRules.lt_iff, hx.le_iff hy, hy.le_iff hx]

theorem Alike.isNaN_eq (h : Alike x y) : isNaN x = isNaN y := by
  simp only [isNaN, h.le_iff h]

theorem Alike.same_eq (hx : Alike x x') (hy : Alike y y') : same x y = same x' y' := by
  simp only [same, hx.le_iff hy, hy.le_iff hx]

theorem Alike.within_eq {lo hi : R} (h : Alike x y) : within lo hi x = within lo hi y := by
  simp only [within, (Alike.refl lo).le_iff h, h.le_iff (.refl hi)]

theorem Alike.getD {x? y? : Option R} (h : Option.Rel Alike x? y?) (default : R) :
    Alike (x?.getD default) (y?.getD default) := by
  cases h with
  | none => exact .refl default
  | some h => exact h

theorem Alike.lesser (hx : Alike x x') (hy : Alike y y') : Alike (lesser x y) (lesser x' y') := by
  rw [lesser_eq_first, lesser_eq_first]
  exact ranks_le.first_congr hx hy

theorem Alike.greater (hx : Alike x x') (hy : Alike y y') :
    Alike (greater x y) (greater x' y') := by
  rw [greater_eq_first, greater_eq_first]
  exact ranks_ge.first_congr hx hy

theorem lesser_comm (x y : R) : Alike (lesser x y) (lesser y x) := by
  rw [lesser_eq_first, lesser_eq_first]
  exact ranks_le.first_comm x y

theorem greater_comm (x y : R) : Alike (greater x y) (greater y x) := by
  rw [greater_eq_first, greater_eq_first]
  exact ranks_ge.first_comm x y

theorem lesser_right_comm (x y z : R) :
    Alike (lesser (lesser x y) z) (lesser (lesser x z) y) := by
  simp only [lesser_eq_first]
  exact ranks_le.first_right_comm x y z

theorem greater_right_comm (x y z : R) :
    Alike (greater (greater x y) z) (greater (greater x z) y) := by
  simp only [greater_eq_first]
  exact ranks_ge.first_right_comm x y z

/-- Numbers of two lists that are alike one by one have extremes that are alike. -/
theorem extreme_alike {op : R → R → R}
    (hop : ∀ {x x' y y' : R}, Alike x x' → Alike y y' → Alike (op x y) (op x' y')) {xs ys : List R}
    (h : List.Forall₂ Alike xs ys) :
    Option.Rel Alike
      (xs.foldl (fun acc x => if isNaN x then acc else some (acc.elim x fun a => op a x)) none)
      (ys.foldl (fun acc x => if isNaN x then acc else some (acc.elim x fun a => op a x))
        none) := by
  refine List.rel_foldl (P := Option.Rel Alike) (R := Alike) (fun a b hab x y hxy => ?_) .none h
  rw [hxy.isNaN_eq]
  split
  next => exact hab
  next =>
    cases hab with
    | none => exact .some hxy
    | some hab => exact .some (hop hab hxy)

theorem least?_alike {xs ys : List R} (h : List.Forall₂ Alike xs ys) :
    Option.Rel Alike (least? xs) (least? ys) :=
  extreme_alike Alike.lesser h

theorem greatest?_alike {xs ys : List R} (h : List.Forall₂ Alike xs ys) :
    Option.Rel Alike (greatest? xs) (greatest? ys) :=
  extreme_alike Alike.greater h

end Alike

end Scalar

/-- Where values that are alike are equal, nothing tells them apart. -/
instance {R : Type} [Scalar R] [RankRules R] [ExactRules R] : AlikeRules R where
  add hx hy := by rw [hx.eq, hy.eq]; exact .refl _
  sub hx hy := by rw [hx.eq, hy.eq]; exact .refl _
  mul hx hy := by rw [hx.eq, hy.eq]; exact .refl _
  div hx := by rw [hx.eq]; exact .refl _
  floor hx := by rw [hx.eq]; exact .refl _
  ceil hx := by rw [hx.eq]; exact .refl _
  round hx := by rw [hx.eq]; exact .refl _
  remainder hx := by rw [hx.eq]; exact .refl _
  wholePart hx := by rw [hx.eq]

end SeismicHazard
