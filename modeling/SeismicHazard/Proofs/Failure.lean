import SeismicHazard.Capacity
import SeismicHazard.Proofs.Numeric.Exact
import SeismicHazard.Proofs.Outcome

/-!
# Failures

What a computation can end in, told part by part: the failures it can have, and the values. Failures
are of two kinds. External ones have their cause in the settings, in the numbers of a job or in what
there is room for; internal ones would mean that the parts of a job do not fit together.
-/

namespace SeismicHazard

section Ends

variable {ε α β : Type} {E : ε → Prop} {P : α → Prop} {Q : β → Prop}

/-- A computation ends in a failure that satisfies `E` or in a value that satisfies `P`. -/
def Ends (E : ε → Prop) (P : α → Prop) : Except ε α → Prop
  | .error e => E e
  | .ok a => P a

namespace Ends

theorem failure {x : Except ε α} (hx : Ends E P x) {e : ε} (he : x = .error e) : E e := by
  subst he
  exact hx

theorem value {x : Except ε α} (hx : Ends E P x) {a : α} (ha : x = .ok a) : P a := by
  subst ha
  exact hx

theorem mono {P' : α → Prop} {x : Except ε α} (hx : Ends E P x) (hmono : ∀ a, P a → P' a) :
    Ends E P' x := by
  cases x with
  | error e => exact hx
  | ok a => exact hmono a hx

theorem weaken {E' : ε → Prop} {x : Except ε α} (hx : Ends E P x) (hweaken : ∀ e, E e → E' e) :
    Ends E' P x := by
  cases x with
  | error e => exact hweaken e hx
  | ok a => exact hx

/-- What is known of a failure, and of a value, from how it came about. -/
theorem of {x : Except ε α} (hfailure : ∀ e, x = .error e → E e) (hvalue : ∀ a, x = .ok a → P a) :
    Ends E P x := by
  cases x with
  | error e => exact hfailure e rfl
  | ok a => exact hvalue a rfl

theorem of_succeeds {x : Except ε α} (hx : ∃ a, x = .ok a ∧ P a) : Ends E P x := by
  obtain ⟨a, rfl, ha⟩ := hx
  exact ha

/-- What is known of a value from how it was computed may be used for what follows. -/
theorem bind {x : Except ε α} {f : α → Except ε β} (hx : Ends E P x)
    (hf : ∀ a, x = .ok a → P a → Ends E Q (f a)) : Ends E Q (x >>= f) := by
  cases x with
  | error e => exact hx
  | ok a => exact hf a rfl hx

theorem map {x : Except ε α} {f : α → β} (hx : Ends E P x) (hf : ∀ a, P a → Q (f a)) :
    Ends E Q (f <$> x) := by
  cases x with
  | error e => exact hx
  | ok a => exact hf a hx

theorem mapM {f : α → Except ε β} {xs : List α} (hf : ∀ x ∈ xs, Ends E Q (f x)) :
    Ends E (fun ys => ∀ y ∈ ys, Q y) (xs.mapM f) := by
  induction xs with
  | nil =>
      intro y hy
      simp at hy
  | cons x rest ih =>
      rw [List.forall_mem_cons] at hf
      rw [List.mapM_cons]
      apply hf.1.bind
      intro y _ hy
      apply (ih hf.2).bind
      intro ys _ hys
      exact List.forall_mem_cons.2 ⟨hy, hys⟩

/-- What is true of the start of a fold and kept by every step is true of its end. -/
theorem foldlM {f : β → α → Except ε β} {motive : List α → β → Prop} {b : β} {xs : List α}
    (hstart : motive [] b)
    (hstep : ∀ before x after acc, xs = before ++ x :: after → motive before acc →
      Ends E (motive (before ++ [x])) (f acc x)) : Ends E (motive xs) (xs.foldlM f b) := by
  suffices h : ∀ before after acc, xs = before ++ after → motive before acc →
      Ends E (motive xs) (after.foldlM f acc) from h [] xs b rfl hstart
  intro before after
  induction after generalizing before with
  | nil =>
      intro acc hsplit hacc
      rw [List.append_nil] at hsplit
      exact hsplit ▸ hacc
  | cons x rest ih =>
      intro acc hsplit hacc
      rw [List.foldlM_cons]
      apply (hstep before x rest acc hsplit hacc).bind
      intro next _ hnext
      exact ih (before ++ [x]) next (by simp [hsplit]) hnext

end Ends

end Ends

/-! ## Internal failures -/

variable {R : Type}

/-- Whether a fault would mean that the parts of a job do not fit together: a product with something
that is no probability, matrices of different shapes, names and numbers that nothing belongs to, an
occurrence without a rate, or bins and cells that are not there. An edge index that overflows is not
among them: integer arithmetic is taken to be checked, so it stops the computation by itself. -/
def Fault.isInternal : Fault R → Bool
  | .mergeRule _ => true
  | .shapeMismatch _ _ => true
  | .config (.unknownRegion _) => true
  | .config (.regionIndex _ _) => true
  | .config (.noModel _ _) => true
  | .config (.noCoefficients _) => true
  | .config .nonParametricRupture => true
  | .config (.nonParametricSource _ _) => true
  | .config (.repeatedRealization _) => true
  | .geometry (.tooFewEdges _) => true
  | .geometry .noLongitudeEdges => true
  | .broken .someEdge => true
  | .broken .cellInShape => true
  | .broken .valuesFitShape => true
  | _ => false

/-- A failure whose cause is outside of the computation. -/
def Error.External (e : Error R) : Prop := e.fault.isInternal = false

/-- A computation without internal failures, whose value satisfies `P`. -/
abbrev Safe {α : Type} (P : α → Prop) (x : Except (Error R) α) : Prop := Ends Error.External P x

theorem Error.fault_inSource (id : String) (e : Error R) : (e.inSource id).fault = e.fault := by
  cases e with
  | mk source fault => cases fault <;> rfl

theorem Error.source_inSource {id : String} {e : Error R} (he : ∀ p, e.fault ≠ .broken p) :
    (e.inSource id).source = some (e.source.getD id) := by
  cases e with
  | mk source fault =>
      cases fault
      case broken p => exact absurd rfl (he p)
      all_goals rfl

theorem Ends.inSource {α : Type} {P : α → Prop} {x : Except (Error R) α} (hx : Safe P x)
    (id : String) : Safe P (Except.inSource id x) := by
  cases x with
  | error e =>
      change ((e.inSource id).fault).isInternal = false
      rw [Error.fault_inSource]
      exact hx
  | ok a => exact hx

/-- Where there is no room for numbers nothing else is reported. -/
theorem ends_reserve (count : Nat) :
    Ends (fun e : Error R => e.fault = .broken .capacity) (fun _ => True) (reserve count) := by
  unfold reserve
  split
  next => trivial
  next => rfl

theorem Error.external_of_capacity {e : Error R} (he : e.fault = .broken .capacity) :
    e.External := by
  rw [Error.External, he]
  rfl

theorem safe_reserve (count : Nat) : Safe (fun _ => True) (reserve (R := R) count) :=
  (ends_reserve count).weaken fun _ => Error.external_of_capacity

end SeismicHazard
