import SeismicHazard.Proofs.Numeric.Rules

/-!
# Products of the same factors

A matrix multiplies the same factors whatever the order in which its parts come, but not in one
order and grouping. That a value is a product of given factors is therefore a relation. Where
multiplication is exact there is only one such value.
-/

namespace SeismicHazard

open Scalar

variable {R : Type} [Scalar R]

/-- A value that multiplies some factors in some order and grouping. -/
inductive IsProduct : List R → R → Prop
  | one : IsProduct [] 1
  | single (x : R) : IsProduct [x] x
  | mul {xs ys : List R} {x y : R} (hx : IsProduct xs x) (hy : IsProduct ys y) :
      IsProduct (xs ++ ys) (x * y)
  | perm {xs ys : List R} {x : R} (hx : IsProduct xs x) (hperm : xs.Perm ys) : IsProduct ys x

namespace IsProduct

variable {xs : List R} {x y : R}

/-- A product of probabilities is a probability. -/
theorem isProbability [ProbabilityRules R] (hx : IsProduct xs x)
    (hfactors : ∀ p ∈ xs, Scalar.isProbability p = true) : Scalar.isProbability x = true := by
  induction hx with
  | one => exact ProbabilityRules.one
  | single x => exact hfactors x (List.mem_singleton_self x)
  | mul _ _ ihx ihy =>
      rw [List.forall_mem_append] at hfactors
      exact ProbabilityRules.product (ihx hfactors.1) (ihy hfactors.2)
  | perm _ hperm ih => exact ih fun p hp => hfactors p (hperm.mem_iff.1 hp)

section Exact

variable [ExactRules R]

theorem foldr_append (xs ys : List R) :
    (xs ++ ys).foldr (· * ·) 1 = xs.foldr (· * ·) 1 * ys.foldr (· * ·) 1 := by
  induction xs with
  | nil => rw [List.nil_append, List.foldr_nil, ExactRules.mul_comm, ExactRules.mul_one]
  | cons x xs ih =>
      rw [List.cons_append, List.foldr_cons, ih, List.foldr_cons, ExactRules.mul_assoc]

/-- Without rounding a product is that of its factors from left to right. -/
theorem eq_foldr (hx : IsProduct xs x) : x = xs.foldr (· * ·) 1 := by
  induction hx with
  | one => rfl
  | single x => exact (ExactRules.mul_one x).symm
  | mul _ _ ihx ihy => rw [foldr_append, ← ihx, ← ihy]
  | perm _ hperm ih =>
      have hleft : LeftCommutative (fun x y : R => x * y) :=
        ⟨fun a b c => by
          rw [← ExactRules.mul_assoc, ExactRules.mul_comm a b, ExactRules.mul_assoc]⟩
      rw [ih, hperm.foldr_eq]

theorem unique (hx : IsProduct xs x) (hy : IsProduct xs y) : x = y :=
  hx.eq_foldr.trans hy.eq_foldr.symm

end Exact

theorem eq_prod {xs : List ℝ} {x : ℝ} (hx : IsProduct xs x) : x = xs.prod := by
  rw [hx.eq_foldr, List.prod_eq_foldr, one_exact]

end IsProduct

end SeismicHazard
