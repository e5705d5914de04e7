import Mathlib.Data.List.Forall2

/-!
# Outcomes

Laws of computations that can fail. A composed computation succeeds exactly when its parts do, so a
statement about its value splits into statements about theirs. Which failure is reported is not
looked at here.
-/

namespace SeismicHazard

variable {ε α β γ : Type}

theorem bind_eq_ok {x : Except ε α} {f : α → Except ε β} {b : β} :
    (x >>= f) = .ok b ↔ ∃ a, x = .ok a ∧ f a = .ok b := by
  cases x with
  | error e => simp [bind, Except.bind]
  | ok a => simp [bind, Except.bind]

theorem bind_eq_error {x : Except ε α} {f : α → Except ε β} {e : ε} :
    (x >>= f) = .error e ↔ x = .error e ∨ ∃ a, x = .ok a ∧ f a = .error e := by
  cases x with
  | error e' => simp [bind, Except.bind]
  | ok a => simp [bind, Except.bind]

theorem map_eq_ok {x : Except ε α} {f : α → β} {b : β} :
    (f <$> x) = .ok b ↔ ∃ a, x = .ok a ∧ f a = b := by
  cases x with
  | error e => simp [Functor.map, Except.map]
  | ok a => simp [Functor.map, Except.map]

@[simp] theorem pure_eq_ok {a b : α} : (pure a : Except ε α) = .ok b ↔ a = b := by
  simp [pure, Except.pure]

/-- Both computations fail, or both have the same value. -/
theorem toOption_eq {x y : Except ε α} (hforth : ∀ a, x = .ok a → y = .ok a)
    (hback : ∀ a, y = .ok a → x = .ok a) : x.toOption = y.toOption := by
  cases hx : x with
  | ok a => rw [hforth a hx]
  | error e =>
      cases hy : y with
      | error e' => rfl
      | ok a => simp [hback a hy] at hx

/-- There is a value. -/
def Succeeds (x : Except ε α) : Prop := ∃ a, x = .ok a

@[simp] theorem succeeds_ok (a : α) : Succeeds (.ok a : Except ε α) := ⟨a, rfl⟩

@[simp] theorem succeeds_pure (a : α) : Succeeds (pure a : Except ε α) := ⟨a, rfl⟩

@[simp] theorem not_succeeds_error (e : ε) : ¬ Succeeds (.error e : Except ε α) := by
  simp [Succeeds]

theorem not_succeeds_iff {x : Except ε α} : ¬ Succeeds x ↔ ∃ e, x = .error e := by
  cases x with
  | error e => simp
  | ok a => simp

theorem succeeds_bind {x : Except ε α} {f : α → Except ε β} :
    Succeeds (x >>= f) ↔ ∃ a, x = .ok a ∧ Succeeds (f a) := by
  simp only [Succeeds, bind_eq_ok]
  constructor
  · rintro ⟨b, a, ha, hb⟩
    exact ⟨a, ha, b, hb⟩
  · rintro ⟨a, ha, b, hb⟩
    exact ⟨b, a, ha, hb⟩

/-! ## Computations along a list -/

theorem mapM_eq_ok {f : α → Except ε β} {xs : List α} {ys : List β} :
    xs.mapM f = .ok ys ↔ List.Forall₂ (fun x y => f x = .ok y) xs ys := by
  induction xs generalizing ys with
  | nil => simp [pure, Except.pure, eq_comm]
  | cons x xs ih =>
      rw [List.mapM_cons, bind_eq_ok, List.forall₂_cons_left_iff]
      constructor
      · rintro ⟨y, hy, hrest⟩
        obtain ⟨rest, hrest, heq⟩ := bind_eq_ok.1 hrest
        exact ⟨y, rest, hy, ih.1 hrest, (pure_eq_ok.1 heq).symm⟩
      · rintro ⟨y, rest, hy, hrest, rfl⟩
        exact ⟨y, hy, bind_eq_ok.2 ⟨rest, ih.2 hrest, rfl⟩⟩

theorem succeeds_mapM {f : α → Except ε β} {xs : List α} :
    Succeeds (xs.mapM f) ↔ ∀ x ∈ xs, Succeeds (f x) := by
  induction xs with
  | nil => simp
  | cons x xs ih =>
      rw [List.mapM_cons, List.forall_mem_cons, ← ih, succeeds_bind]
      constructor
      · rintro ⟨y, hy, hrest⟩
        obtain ⟨rest, hrest, _⟩ := succeeds_bind.1 hrest
        exact ⟨⟨y, hy⟩, rest, hrest⟩
      · rintro ⟨⟨y, hy⟩, rest, hrest⟩
        exact ⟨y, hy, succeeds_bind.2 ⟨rest, hrest, succeeds_pure _⟩⟩

theorem mapM_append_eq_ok {f : α → Except ε β} {xs ys : List α} {zs : List β} :
    (xs ++ ys).mapM f = .ok zs ↔
      ∃ us vs, xs.mapM f = .ok us ∧ ys.mapM f = .ok vs ∧ zs = us ++ vs := by
  rw [List.mapM_append]
  constructor
  · intro h
    obtain ⟨us, hus, h⟩ := bind_eq_ok.1 h
    obtain ⟨vs, hvs, h⟩ := bind_eq_ok.1 h
    exact ⟨us, vs, hus, hvs, (pure_eq_ok.1 h).symm⟩
  · rintro ⟨us, vs, hus, hvs, rfl⟩
    exact bind_eq_ok.2 ⟨us, hus, bind_eq_ok.2 ⟨vs, hvs, rfl⟩⟩

/-- Along a list the failure of the first element that fails is reported. -/
theorem mapM_eq_error {f : α → Except ε β} {xs : List α} {e : ε} :
    xs.mapM f = .error e ↔ ∃ before x after, xs = before ++ x :: after ∧
      (∀ y ∈ before, Succeeds (f y)) ∧ f x = .error e := by
  induction xs with
  | nil => simp [pure, Except.pure]
  | cons x xs ih =>
      have hcons : (x :: xs).mapM f = .error e ↔
          f x = .error e ∨ Succeeds (f x) ∧ xs.mapM f = .error e := by
        rw [List.mapM_cons, bind_eq_error]
        refine or_congr_right ⟨?_, ?_⟩
        · rintro ⟨y, hy, hrest⟩
          rcases bind_eq_error.1 hrest with hfailed | ⟨_, _, hpure⟩
          · exact ⟨⟨y, hy⟩, hfailed⟩
          · cases hpure
        · rintro ⟨⟨y, hy⟩, hfailed⟩
          exact ⟨y, hy, bind_eq_error.2 (.inl hfailed)⟩
      rw [hcons, ih]
      constructor
      · rintro (hfailed | ⟨hx, before, x', after, rfl, hbefore, hfailed⟩)
        · exact ⟨[], x, xs, rfl, by simp, hfailed⟩
        · exact ⟨x :: before, x', after, rfl, List.forall_mem_cons.2 ⟨hx, hbefore⟩, hfailed⟩
      · rintro ⟨before, x', after, hsplit, hbefore, hfailed⟩
        cases before with
        | nil =>
            obtain ⟨rfl, rfl⟩ := List.cons.inj hsplit
            exact .inl hfailed
        | cons y before =>
            obtain ⟨rfl, rfl⟩ := List.cons.inj hsplit
            rw [List.forall_mem_cons] at hbefore
            exact .inr ⟨hbefore.1, before, x', after, rfl, hbefore.2, hfailed⟩

theorem exists_of_forall₂ {r : α → β → Prop} {xs : List α} {ys : List β}
    (h : List.Forall₂ r xs ys) {y : β} (hy : y ∈ ys) : ∃ x ∈ xs, r x y := by
  induction h with
  | nil => simp at hy
  | @cons x y' xs _ hhead _ ih =>
      rcases List.mem_cons.1 hy with rfl | hrest
      · exact ⟨x, List.mem_cons_self, hhead⟩
      · obtain ⟨x', hx', hr⟩ := ih hrest
        exact ⟨x', List.mem_cons_of_mem _ hx', hr⟩

/-- Along a list of successes every element has a result at its own place. -/
theorem mem_of_mapM_eq_ok {f : α → Except ε β} {xs : List α} {ys : List β}
    (h : xs.mapM f = .ok ys) {y : β} : y ∈ ys ↔ ∃ x ∈ xs, f x = .ok y := by
  have hpairs := mapM_eq_ok.1 h
  clear h
  induction hpairs with
  | nil => simp
  | cons hhead _ ih =>
      simp only [List.mem_cons, exists_eq_or_imp, ih, hhead, Except.ok.injEq]
      exact or_congr_left eq_comm

theorem exists_mem_zip_of_mapM {f : α → Except ε β} {xs : List α} {ys : List β}
    (h : xs.mapM f = .ok ys) {x : α} (hx : x ∈ xs) : ∃ y, (x, y) ∈ xs.zip ys ∧ f x = .ok y := by
  have hpairs := mapM_eq_ok.1 h
  clear h
  induction hpairs with
  | nil => cases hx
  | cons hhead _ ih =>
      rcases List.mem_cons.1 hx with rfl | hrest
      · exact ⟨_, List.mem_cons_self, hhead⟩
      · obtain ⟨y, hy, hfy⟩ := ih hrest
        exact ⟨y, List.mem_cons_of_mem _ hy, hfy⟩

/-- What a computation lists; nothing when it fails. -/
def listed (x : Except ε (List α)) : List α :=
  match x with
  | .ok xs => xs
  | .error _ => []

@[simp] theorem listed_ok (xs : List α) : listed (.ok xs : Except ε (List α)) = xs := rfl

theorem flatten_of_mapM_eq_ok {f : α → Except ε (List β)} {xs : List α} {ys : List (List β)}
    (h : xs.mapM f = .ok ys) : ys.flatten = xs.flatMap (fun x => listed (f x)) := by
  have hpairs := mapM_eq_ok.1 h
  clear h
  induction hpairs with
  | nil => rfl
  | cons hhead _ ih => rw [List.flatten_cons, List.flatMap_cons, ih, hhead, listed_ok]

/-- Everything that a computation lists along a list. -/
def gather (f : α → Except ε (List β)) (xs : List α) : Except ε (List β) :=
  List.flatten <$> xs.mapM f

theorem gather_eq_ok {f : α → Except ε (List β)} {xs : List α} {ys : List β} :
    gather f xs = .ok ys ↔
      (∀ x ∈ xs, Succeeds (f x)) ∧ ys = xs.flatMap (fun x => listed (f x)) := by
  rw [gather, map_eq_ok, ← succeeds_mapM]
  constructor
  · rintro ⟨parts, hparts, rfl⟩
    exact ⟨⟨parts, hparts⟩, flatten_of_mapM_eq_ok hparts⟩
  · rintro ⟨⟨parts, hparts⟩, rfl⟩
    exact ⟨parts, hparts, flatten_of_mapM_eq_ok hparts⟩

theorem succeeds_gather {f : α → Except ε (List β)} {xs : List α} :
    Succeeds (gather f xs) ↔ ∀ x ∈ xs, Succeeds (f x) := by
  simp [Succeeds, gather_eq_ok]

theorem listed_gather {f : α → Except ε (List β)} {xs : List α}
    (hsucceeds : ∀ x ∈ xs, Succeeds (f x)) :
    listed (gather f xs) = xs.flatMap (fun x => listed (f x)) := by
  rw [gather_eq_ok.2 ⟨hsucceeds, rfl⟩, listed_ok]

/-- A fold that never fails at an element, whatever was folded before, ends with what is true of
the start and kept by every step. -/
theorem foldlM_of_step {f : β → α → Except ε β} {motive : List α → β → Prop} {b : β}
    (hstart : motive [] b) {xs : List α}
    (hstep : ∀ before x after acc, xs = before ++ x :: after → motive before acc →
      ∃ next, f acc x = .ok next ∧ motive (before ++ [x]) next) :
    ∃ final, xs.foldlM f b = .ok final ∧ motive xs final := by
  -- the induction is on what is left of the list, for every part that is done
  suffices h : ∀ before after acc, xs = before ++ after → motive before acc →
      ∃ final, after.foldlM f acc = .ok final ∧ motive xs final from h [] xs b rfl hstart
  intro before after
  induction after generalizing before with
  | nil =>
      intro acc hsplit hacc
      rw [List.append_nil] at hsplit
      exact ⟨acc, rfl, hsplit ▸ hacc⟩
  | cons x rest ih =>
      intro acc hsplit hacc
      obtain ⟨next, hnext, hmotive⟩ := hstep before x rest acc hsplit hacc
      obtain ⟨final, hfinal, hdone⟩ := ih (before ++ [x]) next (by simp [hsplit]) hmotive
      exact ⟨final, by rw [List.foldlM_cons]; exact bind_eq_ok.2 ⟨next, hnext, hfinal⟩, hdone⟩

/-- A fold that succeeds has passed through a value at every element. -/
theorem step_of_foldlM {f : β → α → Except ε β} {motive : List α → β → Prop} {b final : β}
    {xs : List α} (hfold : xs.foldlM f b = .ok final) (hstart : motive [] b)
    (hstep : ∀ before x after acc next, xs = before ++ x :: after → motive before acc →
      f acc x = .ok next → motive (before ++ [x]) next) : motive xs final := by
  suffices h : ∀ before after acc, xs = before ++ after → motive before acc →
      after.foldlM f acc = .ok final → motive xs final from h [] xs b rfl hstart hfold
  intro before after
  induction after generalizing before with
  | nil =>
      intro acc hsplit hacc hdone
      rw [List.append_nil] at hsplit
      rw [List.foldlM_nil, pure_eq_ok] at hdone
      exact hsplit ▸ hdone ▸ hacc
  | cons x rest ih =>
      intro acc hsplit hacc hdone
      rw [List.foldlM_cons] at hdone
      obtain ⟨next, hnext, hdone⟩ := bind_eq_ok.1 hdone
      exact ih (before ++ [x]) next (by simp [hsplit])
        (hstep before x rest acc next hsplit hacc hnext) hdone

/-- Steps that do the same at every element of a list. -/
theorem foldlM_ext {f g : β → α → Except ε β} {xs : List α}
    (hstep : ∀ x ∈ xs, ∀ b, f b x = g b x) (b : β) : xs.foldlM f b = xs.foldlM g b := by
  induction xs generalizing b with
  | nil => rfl
  | cons x rest ih =>
      obtain ⟨hhead, hrest⟩ := List.forall_mem_cons.1 hstep
      rw [List.foldlM_cons, List.foldlM_cons, hhead]
      exact congrArg (g b x >>= ·) (funext fun next => ih hrest next)

/-! ## Outcomes that agree -/

/-- Both computations fail, or both have values, which are related. -/
inductive Agree (r : α → β → Prop) : Except ε α → Except ε β → Prop
  | ok {a : α} {b : β} (h : r a b) : Agree r (.ok a) (.ok b)
  | error (e e' : ε) : Agree r (.error e) (.error e')

namespace Agree

variable {δ : Type} {r : α → β → Prop} {s : γ → δ → Prop} {x : Except ε α} {y : Except ε β}

theorem succeeds_iff (h : Agree r x y) : Succeeds x ↔ Succeeds y := by
  cases h with
  | ok => simp
  | error => simp

theorem rel (h : Agree r x y) {a : α} {b : β} (hx : x = .ok a) (hy : y = .ok b) : r a b := by
  cases h with
  | ok hab =>
      cases hx
      cases hy
      exact hab
  | error => cases hx

theorem of_succeeds_iff (hsucceeds : Succeeds x ↔ Succeeds y)
    (hrel : ∀ a b, x = .ok a → y = .ok b → r a b) : Agree r x y := by
  cases x with
  | ok a =>
      obtain ⟨b, rfl⟩ := hsucceeds.1 (succeeds_ok a)
      exact .ok (hrel a b rfl rfl)
  | error e =>
      obtain ⟨e', rfl⟩ := not_succeeds_iff.1 (mt hsucceeds.2 (not_succeeds_error e))
      exact .error e e'

theorem toOption_eq {y : Except ε α} (h : Agree Eq x y) : x.toOption = y.toOption := by
  cases h with
  | ok hab => rw [hab]
  | error => rfl

theorem bind (h : Agree r x y) {f : α → Except ε γ} {g : β → Except ε δ}
    (hnext : ∀ a b, r a b → Agree s (f a) (g b)) : Agree s (x >>= f) (y >>= g) := by
  cases h with
  | ok hab => exact hnext _ _ hab
  | error e e' => exact .error e e'

/-- What follows one and the same computation. -/
theorem bind_same (z : Except ε α) {f : α → Except ε γ} {g : α → Except ε δ}
    (hnext : ∀ a, Agree s (f a) (g a)) : Agree s (z >>= f) (z >>= g) := by
  cases z with
  | ok a => exact hnext a
  | error e => exact .error e e

theorem map (h : Agree r x y) {f : α → γ} {g : β → δ} (hmap : ∀ a b, r a b → s (f a) (g b)) :
    Agree s (f <$> x) (g <$> y) := by
  cases h with
  | ok hab => exact .ok (hmap _ _ hab)
  | error e e' => exact .error e e'

theorem mapM {f : α → Except ε β} {g : α → Except ε γ} {t : β → γ → Prop} {xs : List α}
    (h : ∀ a ∈ xs, Agree t (f a) (g a)) : Agree (List.Forall₂ t) (xs.mapM f) (xs.mapM g) := by
  induction xs with
  | nil => exact .ok .nil
  | cons a rest ih =>
      obtain ⟨hhead, hrest⟩ := List.forall_mem_cons.1 h
      rw [List.mapM_cons, List.mapM_cons]
      exact hhead.bind fun _ _ hhead => (ih hrest).bind fun _ _ hrest => .ok (.cons hhead hrest)

theorem foldlM {f : α → γ → Except ε α} {g : β → δ → Except ε β} {xs : List γ} {ys : List δ}
    (hlists : List.Forall₂ s xs ys)
    (hstep : ∀ a b c d, r a b → s c d → Agree r (f a c) (g b d)) {a : α} {b : β} (hstart : r a b) :
    Agree r (xs.foldlM f a) (ys.foldlM g b) := by
  induction hlists generalizing a b with
  | nil => exact .ok hstart
  | cons hhead _ ih =>
      rw [List.foldlM_cons, List.foldlM_cons]
      exact (hstep _ _ _ _ hstart hhead).bind fun _ _ hnext => ih hnext

end Agree

end SeismicHazard
