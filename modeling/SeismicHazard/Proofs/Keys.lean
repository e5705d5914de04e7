import SeismicHazard.Proofs.Numeric.Rules
import SeismicHazard.Results

/-!
# Keys of tables

The orders by which tables are kept tell keys apart: two keys compare as equal only when they are
the same. For keys that hold a probability this is so where their order tells probabilities apart.
-/

namespace SeismicHazard

theorem compareLex_eq_iff {α : Type} {first second : α → α → Ordering} {a b : α} :
    compareLex first second a b = .eq ↔ first a b = .eq ∧ second a b = .eq := by
  simp [compareLex, Ordering.then_eq_eq]

theorem compareOn_eq_iff {α β : Type} [Ord β] [Std.LawfulEqOrd β] {f : α → β} {a b : α} :
    compareOn f a b = .eq ↔ f a = f b :=
  Std.LawfulEqOrd.compare_eq_iff_eq

instance : Std.LawfulEqOrd EdgeKey where
  eq_of_compare {a b} h := by
    obtain ⟨hbranch, hsite⟩ := compareLex_eq_iff.1 h
    cases a
    cases b
    rw [compareOn_eq_iff] at hbranch hsite
    simp_all

instance : Std.LawfulEqOrd CurveKey where
  eq_of_compare {a b} h := by
    obtain ⟨hsite, h⟩ := compareLex_eq_iff.1 h
    obtain ⟨hrealization, himt⟩ := compareLex_eq_iff.1 h
    cases a
    cases b
    rw [compareOn_eq_iff] at hsite hrealization himt
    simp_all

variable {R : Type} [Scalar R] [KeyRules R]

instance : Std.LawfulEqOrd (Poe R) where
  eq_of_compare {a b} h := by
    have hvalue : a.value = b.value := KeyRules.eq_of_order h
    cases a
    cases b
    exact congrArg Poe.mk hvalue

instance : Std.LawfulEqOrd (ResultKey R) where
  eq_of_compare {a b} h := by
    obtain ⟨hsite, h⟩ := compareLex_eq_iff.1 h
    obtain ⟨hrealization, h⟩ := compareLex_eq_iff.1 h
    obtain ⟨hpoe, h⟩ := compareLex_eq_iff.1 h
    obtain ⟨himt, hregions⟩ := compareLex_eq_iff.1 h
    cases a
    cases b
    rw [compareOn_eq_iff] at hsite hrealization hpoe himt hregions
    simp_all

/-- Two targets are the same when their keys are equal. -/
@[simp] theorem TargetKey.same_iff {a b : TargetKey R} : a.same b = true ↔ a = b := by
  cases a
  cases b
  simp [TargetKey.same, and_assoc]

end SeismicHazard
