import SeismicHazard.Proofs.Results.InPlace
import SeismicHazard.Proofs.Results.Sound

/-!
# Histories of matrices and results

A caller makes matrices and tables of results, changes them, and goes on after a call has failed.
Whatever the calls and their arguments are, everything held afterwards is a matrix of probabilities,
and what was held before is still held, with the same shape and level and no lower exceedance. So
two matrices of a history can be merged unless their shapes differ.
-/

namespace SeismicHazard

variable {R : Type} [Scalar R]

/-- What a caller holds: matrices on their own, and tables of results. -/
structure Holdings (R : Type) [Scalar R] where
  matrices : List (Matrix R)
  tables : List (Results R)

/-- Where a matrix is held. -/
inductive MatrixPlace (R : Type) where
  | own (number : Nat)
  | entry (table : Nat) (key : ResultKey R)

/-- A call, with any arguments. Matrices and tables are told by where they are held, and a call
that is about nothing held does nothing. -/
inductive Call (R : Type) where
  | create (shape : Shape) (level : R)
  | ofExceedances (shape : Shape) (level : R) (poes : Array R)
  | accumulate (number : Nat) (cell : Cell) (pnes : List R)
  | merge (number : Nat) (other : MatrixPlace R)
  | openTable
  | add (table : Nat) (key : ResultKey R) (matrix : MatrixPlace R)
  | mergeTables (left right : Nat)

namespace Holdings

/-- The matrix that is held at a place. -/
def at? (h : Holdings R) : MatrixPlace R → Option (Matrix R)
  | .own number => h.matrices[number]?
  | .entry table key => h.tables[table]?.bind fun results => results.get? key

/-- All matrices that are held. -/
def live (h : Holdings R) : List (Matrix R) :=
  h.matrices ++ h.tables.flatMap fun results => results.entries.map Prod.snd

/-- Holds one more matrix. -/
def keep (h : Holdings R) (m : Matrix R) : Holdings R := { h with matrices := h.matrices ++ [m] }

/-- Changes the matrix with a number. -/
def change (h : Holdings R) (number : Nat) (f : Matrix R → Except (Error R) (Matrix R)) :
    Except (Error R) (Holdings R) :=
  match h.matrices[number]? with
  | none => .ok h
  | some m => do
      let changed ← f m
      return { h with matrices := h.matrices.set number changed }

/-- Changes the table with a number. -/
def changeTable (h : Holdings R) (number : Nat) (f : Results R → Except (Error R) (Results R)) :
    Except (Error R) (Holdings R) :=
  match h.tables[number]? with
  | none => .ok h
  | some results => do
      let changed ← f results
      return { h with tables := h.tables.set number changed }

/-- What is held after a call that succeeds. When tables are merged the outcome takes the place of
the larger one, whose matrices the others are merged into. -/
def perform (h : Holdings R) : Call R → Except (Error R) (Holdings R)
  | .create shape level => h.keep <$> Matrix.create shape level
  | .ofExceedances shape level poes => h.keep <$> Matrix.ofExceedances shape level poes
  | .accumulate number cell pnes => h.change number fun m => m.accumulate cell pnes
  | .merge number other =>
      match h.at? other with
      | none => .ok h
      | some n => h.change number fun m => m.merge n
  | .openTable => .ok { h with tables := h.tables ++ [SortedMap.empty] }
  | .add table key matrix =>
      match h.at? matrix with
      | none => .ok h
      | some m => h.changeTable table fun results => results.add key m
  | .mergeTables left right =>
      match h.tables[left]?, h.tables[right]? with
      | some results, some other =>
          h.changeTable (if results.size < other.size then right else left) fun _ =>
            results.merge other
      | _, _ => .ok h

/-- What is held after a call. One that fails leaves everything as it is. -/
def step (h : Holdings R) (call : Call R) : Holdings R :=
  match h.perform call with
  | .ok h' => h'
  | .error _ => h

/-- What is held after some calls. -/
def run (h : Holdings R) (calls : List (Call R)) : Holdings R := calls.foldl step h

/-- What is held after some calls by a caller who started with nothing. -/
def afterCalls (calls : List (Call R)) : Holdings R := run ⟨[], []⟩ calls

/-- Everything held is a matrix of probabilities. -/
structure Sound (h : Holdings R) : Prop where
  matrices : ∀ m ∈ h.matrices, m.Sound
  tables : ∀ results ∈ h.tables, results.Sound

/-- What is held at a place has grown to what is held there later. -/
def GrowsTo (h later : Holdings R) : Prop :=
  ∀ place m, h.at? place = some m → ∃ n, later.at? place = some n ∧ m.GrowsTo n

variable {h later : Holdings R}

theorem Sound.of_at? (hh : h.Sound) {place : MatrixPlace R} {m : Matrix R}
    (hm : h.at? place = some m) : m.Sound := by
  cases place with
  | own number => exact hh.matrices m (List.mem_of_getElem? hm)
  | entry table key =>
      obtain ⟨results, hresults, hfound⟩ := Option.bind_eq_some_iff.1 hm
      exact (hh.tables results (List.mem_of_getElem? hresults)).of_get? hfound

theorem Sound.of_mem_live (hh : h.Sound) {m : Matrix R} (hm : m ∈ h.live) : m.Sound := by
  rcases List.mem_append.1 hm with hown | hkept
  · exact hh.matrices m hown
  · obtain ⟨results, hresults, hm⟩ := List.mem_flatMap.1 hkept
    obtain ⟨entry, hentry, rfl⟩ := List.mem_map.1 hm
    exact hh.tables results hresults entry hentry

/-! ## Calls that update in place -/

theorem set_of_getElem? {α : Type} {xs : List α} {i : Nat} {x : α} (hx : xs[i]? = some x) :
    xs.set i x = xs := by
  obtain ⟨hi, rfl⟩ := List.getElem?_eq_some_iff.1 hx
  exact List.set_getElem_self hi

/-- A call that changes a matrix leaves of it what the change makes, or leaves it if that fails. -/
theorem step_of_change {call : Call R} {number : Nat} {f : Matrix R → Except (Error R) (Matrix R)}
    (hcall : h.perform call = h.change number f) {m : Matrix R}
    (hm : h.matrices[number]? = some m) :
    h.step call = { h with matrices := h.matrices.set number (settle m (f m)).2 } := by
  simp only [step, hcall, change, hm]
  cases f m with
  | error e =>
      rw [settle_error, set_of_getElem? hm]
      rfl
  | ok changed => rfl

/-- A rupture taken in leaves what the update in place leaves of the matrix, also when it fails. -/
theorem step_accumulate {number : Nat} {m : Matrix R} (hm : h.matrices[number]? = some m)
    (cell : Cell) (pnes : List R) :
    h.step (.accumulate number cell pnes) =
      { h with
        matrices := h.matrices.set number ((Matrix.accumulateInPlace cell pnes).on m).2 } := by
  have hcall : h.perform (.accumulate number cell pnes) =
      h.change number fun m => m.accumulate cell pnes := rfl
  rw [step_of_change hcall hm, Matrix.on_accumulateInPlace]

/-- A matrix merged in leaves what the update in place leaves, also when it fails. -/
theorem step_merge {number : Nat} {m n : Matrix R} (hm : h.matrices[number]? = some m)
    {other : MatrixPlace R} (hn : h.at? other = some n) :
    h.step (.merge number other) =
      { h with matrices := h.matrices.set number ((Matrix.mergeInPlace n).on m).2 } := by
  have hcall : h.perform (.merge number other) = h.change number fun m => m.merge n := by
    simp only [perform, hn]
  rw [step_of_change hcall hm, Matrix.on_mergeInPlace]

/-- A matrix added to a table leaves, under every key, what adding in place leaves there, also when
it fails. -/
theorem step_add {table : Nat} {results : Results R} (hresults : h.tables[table]? = some results)
    {place : MatrixPlace R} {m : Matrix R} (hm : h.at? place = some m) (key : ResultKey R) :
    ∃ left, h.step (.add table key place) = { h with tables := h.tables.set table left } ∧
      ∀ other, left.get? other = ((Results.addInPlace key m).on results).2.get? other := by
  obtain ⟨hfails, hsucceeds⟩ := Results.on_addInPlace results key m
  have hperform : h.perform (.add table key place) =
      h.changeTable table fun results => results.add key m := by
    simp only [perform, hm]
  simp only [step, hperform, changeTable, hresults]
  cases hadd : results.add key m with
  | error e =>
      refine ⟨results, ?_, fun other => by rw [hfails e hadd]⟩
      rw [set_of_getElem? hresults]
      rfl
  | ok added =>
      obtain ⟨updated, hon, hsame⟩ := hsucceeds added hadd
      exact ⟨added, rfl, fun other => by rw [hon, hsame other]⟩

variable [ProbabilityRules R]

theorem GrowsTo.trans {middle : Holdings R} (hfirst : h.GrowsTo middle)
    (hsecond : middle.GrowsTo later) : h.GrowsTo later := by
  intro place m hm
  obtain ⟨n, hn, hgrows⟩ := hfirst place m hm
  obtain ⟨r, hr, hgrows'⟩ := hsecond place n hn
  exact ⟨r, hr, hgrows.trans hgrows'⟩

theorem Sound.refl (hh : h.Sound) : h.GrowsTo h := by
  intro place m hm
  exact ⟨m, hm, (hh.of_at? hm).refl⟩

/-! ## What a call keeps -/

theorem Sound.keep (hh : h.Sound) {m : Matrix R} (hm : m.Sound) :
    (h.keep m).Sound ∧ h.GrowsTo (h.keep m) := by
  refine ⟨⟨fun n hn => ?_, hh.tables⟩, fun place n hn => ?_⟩
  · rcases List.mem_append.1 hn with hold | hnew
    · exact hh.matrices n hold
    · exact List.mem_singleton.1 hnew ▸ hm
  · refine ⟨n, ?_, (hh.of_at? hn).refl⟩
    cases place with
    | own number => exact (List.getElem?_append_left (List.getElem?_eq_some_iff.1 hn).1).trans hn
    | entry table key => exact hn

theorem Sound.openTable (hh : h.Sound) :
    Sound { h with tables := h.tables ++ [SortedMap.empty] } ∧
      h.GrowsTo { h with tables := h.tables ++ [SortedMap.empty] } := by
  refine ⟨⟨hh.matrices, fun results hresults => ?_⟩, fun place n hn => ?_⟩
  · rcases List.mem_append.1 hresults with hold | hnew
    · exact hh.tables results hold
    · rw [List.mem_singleton.1 hnew]
      exact fun entry hentry => absurd hentry List.not_mem_nil
  · refine ⟨n, ?_, (hh.of_at? hn).refl⟩
    cases place with
    | own number => exact hn
    | entry table key =>
        obtain ⟨results, hresults, hfound⟩ := Option.bind_eq_some_iff.1 hn
        refine Option.bind_eq_some_iff.2 ⟨results, ?_, hfound⟩
        exact (List.getElem?_append_left (List.getElem?_eq_some_iff.1 hresults).1).trans hresults

theorem Sound.of_change (hh : h.Sound) {number : Nat}
    {f : Matrix R → Except (Error R) (Matrix R)}
    (hf : ∀ m n, h.matrices[number]? = some m → f m = .ok n → n.Sound ∧ m.GrowsTo n)
    (hlater : h.change number f = .ok later) : later.Sound ∧ h.GrowsTo later := by
  unfold change at hlater
  split at hlater
  next =>
    obtain rfl := Except.ok.inj hlater
    exact ⟨hh, hh.refl⟩
  next m hm =>
    obtain ⟨changed, hchanged, hlater⟩ := bind_eq_ok.1 hlater
    obtain rfl := pure_eq_ok.1 hlater
    obtain ⟨hsound, hgrows⟩ := hf m changed hm hchanged
    refine ⟨⟨fun n hn => ?_, hh.tables⟩, fun place n hn => ?_⟩
    · rcases List.mem_or_eq_of_mem_set hn with hold | rfl
      · exact hh.matrices n hold
      · exact hsound
    · cases place with
      | own other =>
          by_cases hother : number = other
          · subst hother
            obtain rfl := Option.some.inj (hm.symm.trans hn)
            refine ⟨changed, ?_, hgrows⟩
            exact List.getElem?_set_self (List.getElem?_eq_some_iff.1 hm).1
          · exact ⟨n, (List.getElem?_set_ne hother).trans hn, (hh.of_at? hn).refl⟩
      | entry table key => exact ⟨n, hn, (hh.of_at? hn).refl⟩

theorem Sound.of_changeTable (hh : h.Sound) {number : Nat}
    {f : Results R → Except (Error R) (Results R)}
    (hf : ∀ results changed, h.tables[number]? = some results → f results = .ok changed →
      changed.Sound ∧ results.GrowsTo changed)
    (hlater : h.changeTable number f = .ok later) : later.Sound ∧ h.GrowsTo later := by
  unfold changeTable at hlater
  split at hlater
  next =>
    obtain rfl := Except.ok.inj hlater
    exact ⟨hh, hh.refl⟩
  next results hresults =>
    obtain ⟨changed, hchanged, hlater⟩ := bind_eq_ok.1 hlater
    obtain rfl := pure_eq_ok.1 hlater
    obtain ⟨hsound, hgrows⟩ := hf results changed hresults hchanged
    refine ⟨⟨hh.matrices, fun table htable => ?_⟩, fun place n hn => ?_⟩
    · rcases List.mem_or_eq_of_mem_set htable with hold | rfl
      · exact hh.tables table hold
      · exact hsound
    · cases place with
      | own other => exact ⟨n, hn, (hh.of_at? hn).refl⟩
      | entry other key =>
          by_cases hother : number = other
          · subst hother
            obtain ⟨results', hresults', hfound⟩ := Option.bind_eq_some_iff.1 hn
            obtain rfl := Option.some.inj (hresults.symm.trans hresults')
            obtain ⟨n', hn', hgrown⟩ := hgrows key n hfound
            refine ⟨n', Option.bind_eq_some_iff.2 ⟨changed, ?_, hn'⟩, hgrown⟩
            exact List.getElem?_set_self (List.getElem?_eq_some_iff.1 hresults).1
          · refine ⟨n, ?_, (hh.of_at? hn).refl⟩
            simpa [at?, List.getElem?_set_ne hother] using hn

/-- Every call that succeeds keeps probabilities, and lets what is held grow. -/
theorem Sound.of_perform (hh : h.Sound) {call : Call R} (hlater : h.perform call = .ok later) :
    later.Sound ∧ h.GrowsTo later := by
  cases call with
  | create shape level =>
      obtain ⟨m, hm, rfl⟩ := map_eq_ok.1 hlater
      exact hh.keep (Matrix.of_create hm ▸ Matrix.sound_empty shape level)
  | ofExceedances shape level poes =>
      obtain ⟨m, hm, rfl⟩ := map_eq_ok.1 hlater
      exact hh.keep (Matrix.sound_of_ofExceedances hm)
  | accumulate number cell pnes =>
      apply hh.of_change _ hlater
      intro m n hm hn
      exact (hh.matrices m (List.mem_of_getElem? hm)).of_accumulate hn
  | merge number other =>
      simp only [perform] at hlater
      split at hlater
      next => exact Except.ok.inj hlater ▸ ⟨hh, hh.refl⟩
      next =>
        apply hh.of_change _ hlater
        intro m r hm hr
        exact (hh.matrices m (List.mem_of_getElem? hm)).of_merge hr
  | openTable => exact Except.ok.inj hlater ▸ hh.openTable
  | add table key matrix =>
      simp only [perform] at hlater
      split at hlater
      next => exact Except.ok.inj hlater ▸ ⟨hh, hh.refl⟩
      next m hm =>
        apply hh.of_changeTable _ hlater
        intro results changed hresults hchanged
        exact (hh.tables results (List.mem_of_getElem? hresults)).of_add (hh.of_at? hm) hchanged
  | mergeTables left right =>
      simp only [perform] at hlater
      split at hlater
      next results other hresults hother =>
        apply hh.of_changeTable _ hlater
        intro larger changed hlarger hchanged
        have hmerged := (hh.tables results (List.mem_of_getElem? hresults)).of_merge
          (hh.tables other (List.mem_of_getElem? hother)) hchanged
        -- the table that is changed is the larger one
        split at hlarger
        next hlt =>
          obtain rfl := Option.some.inj (hother.symm.trans hlarger)
          rwa [if_pos hlt] at hmerged
        next hle =>
          obtain rfl := Option.some.inj (hresults.symm.trans hlarger)
          rwa [if_neg hle] at hmerged
      next => exact Except.ok.inj hlater ▸ ⟨hh, hh.refl⟩

theorem Sound.step (hh : h.Sound) (call : Call R) :
    (h.step call).Sound ∧ h.GrowsTo (h.step call) := by
  unfold Holdings.step
  split
  next later hlater => exact hh.of_perform hlater
  next => exact ⟨hh, hh.refl⟩

/-- A history keeps what its calls keep. -/
theorem Sound.run (hh : h.Sound) (calls : List (Call R)) :
    (h.run calls).Sound ∧ h.GrowsTo (h.run calls) := by
  induction calls generalizing h with
  | nil => exact ⟨hh, hh.refl⟩
  | cons call calls ih =>
      obtain ⟨hsound, hgrows⟩ := hh.step call
      obtain ⟨hlast, hrest⟩ := ih hsound
      exact ⟨hlast, hgrows.trans hrest⟩

theorem sound_afterCalls (calls : List (Call R)) : (afterCalls calls).Sound :=
  (Sound.run ⟨fun _ hm => absurd hm List.not_mem_nil, fun _ h => absurd h List.not_mem_nil⟩
    calls).1

/-- After any calls everything held is a matrix of probabilities. Whatever calls follow, it stays
where it is, keeps its shape and level, and has no exceedance lowered. Of two matrices held, one can
be merged into the other unless their shapes differ. -/
theorem sound_and_grows_afterCalls (before later : List (Call R)) :
    (∀ m ∈ (afterCalls before).live, m.Sound) ∧
      (afterCalls before).GrowsTo (afterCalls (before ++ later)) ∧
      ∀ m ∈ (afterCalls before).live, ∀ n ∈ (afterCalls before).live, ∀ e,
        m.merge n = .error e ↔
          m.shape ≠ n.shape ∧ e = .shapeMismatch m.shape.sizes n.shape.sizes := by
  have hsound := sound_afterCalls before
  refine ⟨fun m hm => hsound.of_mem_live hm, ?_, fun m _ n hn e => ?_⟩
  · rw [show afterCalls (before ++ later) = (afterCalls before).run later from List.foldl_append]
    exact (hsound.run later).2
  · exact (hsound.of_mem_live hn).merge_eq_error

/-- A rupture taken in and one refused, and tables of different sizes merged. -/
noncomputable def sampleCalls : List (Call ℝ) :=
  [.accumulate 0 ⟨0, 0, 0, 0, 0⟩ [1 / 2, 1], .accumulate 0 ⟨0, 0, 0, 0, 0⟩ [2, 1],
    .openTable, .openTable, .add 1 ⟨0, 0, ⟨1 / 10⟩, "PGA", []⟩ (.own 0), .mergeTables 0 1,
    .merge 0 (.entry 1 ⟨0, 0, ⟨1 / 10⟩, "PGA", []⟩)]

/-- The matrix that is made first is still there after further calls, and has grown. -/
theorem exists_growsTo_sampleCalls : ProbabilityRules ℝ ∧
    ∃ m n, (afterCalls [.create ⟨1, 1, 1, 1, 1, 2⟩ (1 / 2 : ℝ)]).at? (.own 0) = some m ∧
      (afterCalls ([.create ⟨1, 1, 1, 1, 1, 2⟩ (1 / 2)] ++ sampleCalls)).at? (.own 0) = some n ∧
      m.Sound ∧ m.GrowsTo n := by
  have hfirst : (afterCalls [.create ⟨1, 1, 1, 1, 1, 2⟩ (1 / 2 : ℝ)]).matrices =
      [Matrix.empty ⟨1, 1, 1, 1, 1, 2⟩ (1 / 2)] := rfl
  obtain ⟨hsound, hgrows, _⟩ :=
    sound_and_grows_afterCalls [.create ⟨1, 1, 1, 1, 1, 2⟩ (1 / 2 : ℝ)] sampleCalls
  have hmade : (afterCalls [.create ⟨1, 1, 1, 1, 1, 2⟩ (1 / 2 : ℝ)]).at? (.own 0) =
      some (Matrix.empty ⟨1, 1, 1, 1, 1, 2⟩ (1 / 2)) := by
    simp only [at?, hfirst, List.getElem?_cons_zero]
  obtain ⟨n, hn, hgrown⟩ := hgrows _ _ hmade
  refine ⟨inferInstance, _, n, hmade, hn, hsound _ ?_, hgrown⟩
  exact List.mem_append_left _ (hfirst ▸ List.mem_singleton_self _)

end Holdings

end SeismicHazard
