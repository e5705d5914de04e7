import SeismicHazard.Matrix
import SeismicHazard.Proofs.Failure
import SeismicHazard.Proofs.Matrix.Cells
import SeismicHazard.Proofs.Numeric.Rules

/-!
# What operations on matrices keep

Every operation makes or leaves a matrix of probabilities, and an operation on a matrix leaves its
shape and level and lowers no exceedance. This needs the rules of arithmetic at probabilities only,
so it is not tied to exact numbers.
-/

namespace SeismicHazard

open Scalar

variable {R : Type} [Scalar R]

theorem checkProbabilities_eq_ok_iff {values : List R} :
    checkProbabilities values = .ok () ↔ ∀ p ∈ values, isProbability p = true := by
  have hfind : (values.find? (fun p => !isProbability p)) = none ↔
      ∀ p ∈ values, isProbability p = true := by
    simp
  rw [← hfind, checkProbabilities]
  cases values.find? (fun p => !isProbability p) <;> simp

/-- Probabilities are refused for one of them that is none. -/
theorem checkProbabilities_eq_error {values : List R} {e : Error R}
    (he : checkProbabilities values = .error e) :
    ∃ p ∈ values, isProbability p = false ∧ e = .mergeRule p := by
  unfold checkProbabilities at he
  split at he
  next bad hbad =>
    refine ⟨bad, List.mem_of_find?_eq_some hbad, ?_, (Except.error.inj he).symm⟩
    simpa using List.find?_some hbad
  next => cases he

namespace Matrix

/-- Every value of the matrix is a probability. -/
def Sound (m : Matrix R) : Prop :=
  ∀ p ∈ m.nonExceedance, isProbability p = true

/-- The second matrix has the shape and level of the first one and in no cell a lower exceedance. -/
structure GrowsTo (m n : Matrix R) : Prop where
  shape : n.shape = m.shape
  level : n.level = m.level
  exceedance : ∀ cell eps, m.shape.holds cell = true → eps < m.shape.eps →
    ∃ before after, m.exceedanceAt cell eps = .ok before ∧
      n.exceedanceAt cell eps = .ok after ∧ before ≤ after

variable {m n r : Matrix R}

theorem Sound.checkProbabilities (hm : m.Sound) :
    SeismicHazard.checkProbabilities m.nonExceedance.toList = .ok () := by
  apply checkProbabilities_eq_ok_iff.2
  intro p hp
  exact hm p (Array.mem_toList_iff.1 hp)

omit [Scalar R] in
theorem exists_getElem?_index {cell : Cell} {eps : Nat} (hcell : m.shape.holds cell = true)
    (heps : eps < m.shape.eps) : ∃ p, m.nonExceedance[m.shape.index cell eps]? = some p := by
  have hlt : m.shape.index cell eps < m.nonExceedance.size :=
    m.size_eq ▸ Shape.index_lt hcell heps
  exact ⟨_, Array.getElem?_eq_getElem hlt⟩

theorem exceedanceAt_of_getElem? {cell : Cell} {eps : Nat} {p : R}
    (hcell : m.shape.holds cell = true) (heps : eps < m.shape.eps)
    (hp : m.nonExceedance[m.shape.index cell eps]? = some p) :
    m.exceedanceAt cell eps = .ok (1 - p) := by
  simp [exceedanceAt, hcell, heps, hp]

/-! ## How operations end -/

/-- Only for lack of room a matrix cannot be made. -/
theorem ends_create (shape : Shape) (level : R) :
    Ends (fun e : Error R => e.fault = .broken .capacity) (fun m => m = empty shape level)
      (create shape level) := by
  have hreserve : Ends (fun e : Error R => e.fault = .broken .capacity) (fun _ => True)
      shape.reserve := by
    unfold Shape.reserve
    split
    next => rfl
    next => exact ends_reserve _
  apply hreserve.bind
  intro _ _ _
  rfl

theorem of_create {shape : Shape} {level : R} (hm : create shape level = .ok m) :
    m = empty shape level :=
  (ends_create shape level).value hm

theorem of_ofExceedances {shape : Shape} {level : R} {poes : Array R}
    (hm : ofExceedances shape level poes = .ok m) :
    (∀ p ∈ poes, isProbability p = true) ∧ m.shape = shape ∧ m.level = level ∧
      m.nonExceedance = poes.map fun p => 1 - p := by
  unfold ofExceedances at hm
  split at hm
  next =>
    obtain ⟨_, _, hm⟩ := bind_eq_ok.1 hm
    obtain ⟨_, hcheck, hm⟩ := bind_eq_ok.1 hm
    obtain rfl := pure_eq_ok.1 hm
    refine ⟨fun p hp => ?_, rfl, rfl, rfl⟩
    exact checkProbabilities_eq_ok_iff.1 hcheck p (Array.mem_toList_iff.2 hp)
  next => cases hm

theorem of_accumulate {cell : Cell} {pnes : List R} (hm : m.accumulate cell pnes = .ok n) :
    (∀ p ∈ pnes, isProbability p = true) ∧ n.shape = m.shape ∧ n.level = m.level ∧
      ∃ start, n.nonExceedance = multiplyFrom start pnes m.nonExceedance := by
  obtain ⟨_, hcheck, hm⟩ := bind_eq_ok.1 hm
  refine ⟨checkProbabilities_eq_ok_iff.1 hcheck, ?_⟩
  split at hm
  next => cases hm
  next place _ =>
    split at hm
    next => cases hm
    next =>
      obtain rfl := Except.ok.inj hm
      exact ⟨rfl, rfl, m.shape.index place 0, rfl⟩

theorem of_merge (hr : m.merge n = .ok r) :
    m.shape = n.shape ∧ n.Sound ∧ r.shape = m.shape ∧ r.level = m.level ∧
      r.nonExceedance = m.nonExceedance.zipWith (fun p q => p * q) n.nonExceedance := by
  unfold merge at hr
  split at hr
  next hshape =>
    obtain ⟨_, hcheck, hr⟩ := bind_eq_ok.1 hr
    obtain rfl := pure_eq_ok.1 hr
    refine ⟨hshape, fun p hp => ?_, rfl, rfl, rfl⟩
    exact checkProbabilities_eq_ok_iff.1 hcheck p (Array.mem_toList_iff.2 hp)
  next => cases hr

/-- A matrix of probabilities can be merged into any matrix of its shape, and into no other. -/
theorem Sound.merge_eq_error (hn : n.Sound) {e : Error R} :
    m.merge n = .error e ↔
      m.shape ≠ n.shape ∧ e = .shapeMismatch m.shape.sizes n.shape.sizes := by
  unfold merge
  split
  next hshape => simp [hn.checkProbabilities, hshape, bind, Except.bind, pure, Except.pure]
  next hshape => simp [hshape, eq_comm]

/-- Two matrices of one shape can be merged if the second one is a matrix of probabilities. -/
theorem Sound.exists_merge (hn : n.Sound) (hshape : m.shape = n.shape) :
    ∃ r, m.merge n = .ok r := by
  cases hmerge : m.merge n with
  | error e => exact absurd hshape (hn.merge_eq_error.1 hmerge).1
  | ok r => exact ⟨r, rfl⟩

/-! ## What one operation keeps -/

theorem getElem?_multiplyFrom (start : Nat) (factors : List R) (values : Array R) (i : Nat) :
    (multiplyFrom start factors values)[i]? =
      values[i]?.map fun p =>
        if start ≤ i then factors[i - start]?.elim p (fun factor => p * factor) else p := by
  induction factors generalizing start values with
  | nil => simp [multiplyFrom]
  | cons factor factors ih =>
      rw [multiplyFrom, ih, Array.getElem?_modify]
      rcases Nat.lt_trichotomy i start with hlt | rfl | hgt
      · have hne : start ≠ i := by omega
        simp [hne, show ¬ start ≤ i by omega, show ¬ start + 1 ≤ i by omega]
      · simp [Function.comp_def]
      · obtain ⟨k, rfl⟩ : ∃ k, i = start + 1 + k := ⟨i - (start + 1), by omega⟩
        have hne : start ≠ start + 1 + k := by omega
        simp [hne, show start ≤ start + 1 + k by omega, show start + 1 + k - start = k + 1 by omega]

theorem GrowsTo.trans [ProbabilityRules R] (hmn : m.GrowsTo n) (hnr : n.GrowsTo r) :
    m.GrowsTo r where
  shape := hnr.shape.trans hmn.shape
  level := hnr.level.trans hmn.level
  exceedance cell eps hcell heps := by
    obtain ⟨first, second, hfirst, hsecond, hle⟩ := hmn.exceedance cell eps hcell heps
    obtain ⟨second', third, hsecond', hthird, hle'⟩ :=
      hnr.exceedance cell eps (hmn.shape ▸ hcell) (hmn.shape ▸ heps)
    obtain rfl := Except.ok.inj (hsecond.symm.trans hsecond')
    exact ⟨first, third, hfirst, hthird, ProbabilityRules.le_trans hle hle'⟩

variable [ProbabilityRules R]

/-- Where every value is a probability at most the one before, exceedance is at least the one
before. -/
theorem Sound.growsTo (hm : m.Sound) (hshape : n.shape = m.shape) (hlevel : n.level = m.level)
    (hvalues : ∀ (i : Nat) (q : R), n.nonExceedance[i]? = some q →
      ∃ p, m.nonExceedance[i]? = some p ∧ isProbability q = true ∧ q ≤ p) :
    n.Sound ∧ m.GrowsTo n := by
  refine ⟨fun q hq => ?_, hshape, hlevel, fun cell eps hcell heps => ?_⟩
  · obtain ⟨i, hi⟩ := Array.mem_iff_getElem?.1 hq
    obtain ⟨_, _, hprobability, _⟩ := hvalues i q hi
    exact hprobability
  · rw [← hshape] at hcell heps
    obtain ⟨q, hafter⟩ := exists_getElem?_index hcell heps
    obtain ⟨p, hbefore, hprobability, hle⟩ := hvalues _ q hafter
    have hp : isProbability p = true := hm p (Array.mem_of_getElem? hbefore)
    rw [hshape] at hbefore
    exact ⟨_, _, exceedanceAt_of_getElem? (hshape ▸ hcell) (hshape ▸ heps) hbefore,
      exceedanceAt_of_getElem? hcell heps hafter,
      ProbabilityRules.complement_le hprobability hp hle⟩

theorem Sound.refl (hm : m.Sound) : m.GrowsTo m :=
  (hm.growsTo rfl rfl fun i q hq => by
    have hprobability := hm q (Array.mem_of_getElem? hq)
    exact ⟨q, hq, hprobability, ProbabilityRules.le_self hprobability⟩).2

theorem sound_empty (shape : Shape) (level : R) : (empty shape level).Sound := by
  intro p hp
  rw [(Array.mem_replicate.1 hp).2]
  exact ProbabilityRules.one

theorem sound_of_ofExceedances {shape : Shape} {level : R} {poes : Array R}
    (hm : ofExceedances shape level poes = .ok m) : m.Sound := by
  obtain ⟨hpoes, _, _, hvalues⟩ := of_ofExceedances hm
  intro q hq
  rw [hvalues] at hq
  obtain ⟨p, hp, rfl⟩ := Array.mem_map.1 hq
  exact ProbabilityRules.complement (hpoes p hp)

/-- Taking a rupture in keeps probabilities, and lowers no exceedance. -/
theorem Sound.of_accumulate (hm : m.Sound) {cell : Cell} {pnes : List R}
    (hn : m.accumulate cell pnes = .ok n) : n.Sound ∧ m.GrowsTo n := by
  obtain ⟨hpnes, hshape, hlevel, start, hvalues⟩ := Matrix.of_accumulate hn
  apply hm.growsTo hshape hlevel
  intro i q hq
  rw [hvalues, getElem?_multiplyFrom] at hq
  obtain ⟨p, hp, rfl⟩ := Option.map_eq_some_iff.1 hq
  have hprobability := hm p (Array.mem_of_getElem? hp)
  refine ⟨p, hp, ?_⟩
  -- a value either stays or is multiplied by one of the factors
  split
  next =>
    cases hfactor : pnes[i - start]? with
    | none => exact ⟨hprobability, ProbabilityRules.le_self hprobability⟩
    | some factor =>
        have hone := hpnes factor (List.mem_of_getElem? hfactor)
        exact ⟨ProbabilityRules.product hprobability hone,
          ProbabilityRules.product_le hprobability hone⟩
  next => exact ⟨hprobability, ProbabilityRules.le_self hprobability⟩

/-- Merging keeps probabilities, and lowers no exceedance of the matrix that is merged into. -/
theorem Sound.of_merge (hm : m.Sound) (hr : m.merge n = .ok r) : r.Sound ∧ m.GrowsTo r := by
  obtain ⟨_, hn, hshape, hlevel, hvalues⟩ := Matrix.of_merge hr
  apply hm.growsTo hshape hlevel
  intro i q hq
  rw [hvalues, Array.getElem?_zipWith] at hq
  split at hq
  next p p' hp hp' =>
    obtain rfl := Option.some.inj hq
    have hleft := hm p (Array.mem_of_getElem? hp)
    have hright := hn p' (Array.mem_of_getElem? hp')
    exact ⟨p, hp, ProbabilityRules.product hleft hright, ProbabilityRules.product_le hleft hright⟩
  next => cases hq

end Matrix

end SeismicHazard
