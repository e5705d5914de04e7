/-!
# Updates in place

An update changes a state on its way and may fail there. A failure takes no change back, so that a
failed update leaves its state as it was is a property of the update: it has to fail before it
changes anything.
-/

namespace SeismicHazard

variable {ε σ α β : Type}

/-- A computation that changes a state in place. What it changed before a failure stays changed. -/
abbrev Update (ε σ α : Type) := ExceptT ε (StateM σ) α

namespace Update

/-- The outcome of an update of a state, and the state that it leaves behind. -/
def on (update : Update ε σ α) (state : σ) : Except ε α × σ :=
  (StateT.run (ExceptT.run update) state).run

@[simp] theorem on_throw (e : ε) (state : σ) :
    on (throw e : Update ε σ α) state = (.error e, state) := rfl

@[simp] theorem on_modify (f : σ → σ) (state : σ) :
    on (modify f : Update ε σ PUnit) state = (.ok ⟨⟩, f state) := rfl

@[simp] theorem on_get_bind (next : σ → Update ε σ α) (state : σ) :
    on (get >>= next) state = (next state).on state := rfl

@[simp] theorem on_ofExcept (outcome : Except ε α) (state : σ) :
    on (MonadExcept.ofExcept outcome : Update ε σ α) state = (outcome, state) := by
  cases outcome <;> rfl

/-- What comes after an update starts from the state that it leaves, if it does not fail. -/
theorem on_bind (update : Update ε σ α) (next : α → Update ε σ β) (state : σ) :
    (update >>= next).on state =
      match update.on state with
      | (.ok a, state') => (next a).on state'
      | (.error e, state') => (.error e, state') := by
  unfold on ExceptT.run StateT.run Id.run
  simp only [bind, ExceptT.bind, ExceptT.mk, StateT.bind, ExceptT.bindCont]
  cases update state with
  | mk outcome state' => cases outcome <;> rfl

end Update

/-- A state that becomes what a computation returns and stays when the computation fails. -/
def settle (state : σ) : Except ε σ → Except ε Unit × σ
  | .ok new => (.ok (), new)
  | .error e => (.error e, state)

@[simp] theorem settle_ok (state new : σ) :
    settle state (.ok new : Except ε σ) = (.ok (), new) := rfl

@[simp] theorem settle_error (state : σ) (e : ε) :
    settle state (.error e) = (.error e, state) := rfl

theorem settle_eq_ok {state new : σ} {outcome : Except ε σ} :
    settle state outcome = (.ok (), new) ↔ outcome = .ok new := by
  cases outcome <;> simp

theorem settle_eq_error {state left : σ} {outcome : Except ε σ} {e : ε} :
    settle state outcome = (.error e, left) ↔ outcome = .error e ∧ left = state := by
  cases outcome <;> simp [eq_comm]

end SeismicHazard
