import SeismicHazard.Proofs.Matrix.InPlace
import SeismicHazard.Proofs.Numeric.PartialReal
import SeismicHazard.Proofs.SortedMap
import SeismicHazard.Results

/-!
# Updates in place that fail

Results that take in a matrix merge it into the entry that is there. Since the entry is as it was
when merging fails, so are the results: an update of a matrix or of results either goes through as
a whole, in the one place that it is about, or changes nothing. This is so in any arithmetic, also
with values that are no numbers.
-/

noncomputable section

namespace SeismicHazard

open Scalar

namespace SortedMap

variable {κ α : Type} [Ord κ]

/-- Entries with another value for the first one under a key. The key stays the one it was. -/
def replaceFirst (k : κ) (a : α) : List (κ × α) → List (κ × α)
  | [] => []
  | (k', a') :: rest =>
      if compare k k' = .eq then (k', a) :: rest else (k', a') :: replaceFirst k a rest

theorem map_fst_replaceFirst (k : κ) (a : α) (entries : List (κ × α)) :
    (replaceFirst k a entries).map Prod.fst = entries.map Prod.fst := by
  induction entries with
  | nil => rfl
  | cons head rest ih =>
      rw [replaceFirst]
      split
      next => rfl
      next => rw [List.map_cons, ih, List.map_cons]

theorem lookup_replaceFirst [Std.TransOrd κ] (k k' : κ) (a : α) (entries : List (κ × α)) :
    lookup k' (replaceFirst k a entries) =
      if compare k' k = .eq then (lookup k' entries).map fun _ => a else lookup k' entries := by
  induction entries with
  | nil => simp [replaceFirst, lookup]
  | cons head rest ih =>
      obtain ⟨key, value⟩ := head
      rw [replaceFirst]
      by_cases hk : compare k' k = .eq
      · -- both keys find the same entries
        simp only [hk, if_true] at ih ⊢
        split
        next heq => simp [lookup, Std.TransCmp.congr_left hk, heq]
        next hne => simp [lookup, Std.TransCmp.congr_left hk, hne, ih]
      · simp only [hk, if_false] at ih ⊢
        split
        next heq =>
          have hne : compare k' key ≠ .eq := by rwa [← Std.TransCmp.congr_right heq]
          simp [lookup, hne]
        next => simp [lookup, ih]

theorem replaceFirst_of_lookup {k : κ} {a : α} {entries : List (κ × α)}
    (hfound : lookup k entries = some a) : replaceFirst k a entries = entries := by
  induction entries with
  | nil => rfl
  | cons head rest ih =>
      obtain ⟨key, value⟩ := head
      rw [lookup] at hfound
      rw [replaceFirst]
      split at hfound
      next heq => rw [if_pos heq, Option.some.inj hfound]
      next hne => rw [if_neg hne, ih hfound]

/-- The map with another value under a key that it has. -/
def replace (m : SortedMap κ α) (k : κ) (a : α) : SortedMap κ α where
  entries := replaceFirst k a m.entries
  sorted := by
    have hkeys := m.sorted
    rw [← List.pairwise_map (f := Prod.fst) (R := fun a b => compare a b = .lt)] at hkeys ⊢
    rwa [map_fst_replaceFirst]

theorem get?_replace [Std.TransOrd κ] (m : SortedMap κ α) (k k' : κ) (a : α) :
    (m.replace k a).get? k' = if compare k' k = .eq then (m.get? k').map fun _ => a
      else m.get? k' :=
  lookup_replaceFirst k k' a m.entries

/-- A value that is put where it is already changes nothing. -/
theorem replace_of_get? {m : SortedMap κ α} {k : κ} {a : α} (hfound : m.get? k = some a) :
    m.replace k a = m := by
  cases m
  simp only [replace, mk.injEq]
  exact replaceFirst_of_lookup hfound

end SortedMap

variable {R : Type} [Scalar R]

namespace Results

/-- Adds a matrix in place. If there is one under its key, that one is updated where it stands, and
whatever becomes of it stays in the results. -/
def addInPlace (key : ResultKey R) (matrix : Matrix R) : Update (Error R) (Results R) Unit := do
  let results ← get
  match results.get? key with
  | none => modify fun results => results.insert key matrix
  | some present =>
      let merged := (Matrix.mergeInPlace matrix).on present
      modify fun results => results.replace key merged.2
      MonadExcept.ofExcept merged.1

variable {results results' : Results R} {key : ResultKey R} {matrix : Matrix R}

theorem add_of_none (habsent : results.get? key = none) :
    results.add key matrix = .ok (results.insert key matrix) := by
  rw [add, habsent]

theorem add_of_some {present : Matrix R} (hpresent : results.get? key = some present) :
    results.add key matrix = (present.merge matrix).map (results.insert key) := by
  simp only [add, hpresent]
  cases present.merge matrix <;> rfl

/-- Adding in place does what adding does, and nothing where adding fails. -/
theorem on_addInPlace (results : Results R) (key : ResultKey R) (matrix : Matrix R) :
    (∀ e, results.add key matrix = .error e →
      (addInPlace key matrix).on results = (.error e, results)) ∧
    ∀ results', results.add key matrix = .ok results' →
      ∃ updated, (addInPlace key matrix).on results = (.ok (), updated) ∧
        ∀ other, updated.get? other = results'.get? other := by
  rw [addInPlace, Update.on_get_bind]
  cases hpresent : results.get? key with
  | none =>
      rw [add_of_none hpresent]
      refine ⟨fun e he => (by cases he), fun results' hadd => ?_⟩
      obtain rfl := Except.ok.inj hadd
      exact ⟨_, rfl, fun _ => rfl⟩
  | some present =>
      rw [add_of_some hpresent]
      simp only [Matrix.on_mergeInPlace, Update.on_bind, Update.on_modify, Update.on_ofExcept]
      cases present.merge matrix with
      | error e =>
          refine ⟨fun e' he => ?_, fun results' hadd => by cases hadd⟩
          obtain rfl := Except.error.inj he
          rw [settle_error, SortedMap.replace_of_get? hpresent]
      | ok merged =>
          refine ⟨fun e he => (by cases he), fun results' hadd => ?_⟩
          obtain rfl := Except.ok.inj hadd
          refine ⟨_, rfl, fun other => ?_⟩
          rw [settle_ok, SortedMap.get?_replace, SortedMap.get?_insert_compare]
          split
          next hsame => rw [SortedMap.get?_congr results hsame, hpresent, Option.map_some]
          next => rfl

/-- Adding inserts a matrix under the key. -/
theorem exists_insert_of_add (hadd : results.add key matrix = .ok results') :
    ∃ value, results.insert key value = results' := by
  cases hpresent : results.get? key with
  | none =>
      rw [add_of_none hpresent] at hadd
      exact ⟨matrix, Except.ok.inj hadd⟩
  | some present =>
      rw [add_of_some hpresent] at hadd
      cases hmerge : present.merge matrix with
      | error e => simp [hmerge, Except.map] at hadd
      | ok merged =>
          rw [hmerge] at hadd
          exact ⟨merged, Except.ok.inj hadd⟩

/-- Adding leaves what is under other keys. -/
theorem get?_of_add (hadd : results.add key matrix = .ok results') {other : ResultKey R}
    (hother : compare other key ≠ .eq) : results'.get? other = results.get? other := by
  obtain ⟨value, rfl⟩ := exists_insert_of_add hadd
  rw [SortedMap.get?_insert_compare, if_neg hother]

end Results

/-- An update in place changes nothing if it fails, and where it does not it changes only what it is
about. Accumulating fails for a value that is no probability or a wrong number of values, and
multiplies the epsilon bins of the cell otherwise; merging changes no results but those under the
key. Updating in place and making something new come to the same. -/
theorem failed_update_changes_nothing :
    (∀ (m : Matrix R) (cell : Cell) (pnes : List R),
      (Matrix.accumulateInPlace cell pnes).on m = settle m (m.accumulate cell pnes) ∧
      (∀ e m', (Matrix.accumulateInPlace cell pnes).on m = (.error e, m') → m' = m) ∧
      (m.shape.holds cell = true →
        ((∃ e, m.accumulate cell pnes = .error e) ↔
          (∃ p ∈ pnes, ¬ (0 ≤ p ∧ p ≤ 1)) ∨ pnes.length ≠ m.shape.eps) ∧
        ∀ m', (Matrix.accumulateInPlace cell pnes).on m = (.ok (), m') → m.Rescaled cell pnes m')) ∧
    (∀ m other : Matrix R,
      (Matrix.mergeInPlace other).on m = settle m (m.merge other) ∧
      ∀ e m', (Matrix.mergeInPlace other).on m = (.error e, m') → m' = m) ∧
    ∀ (results : Results R) (key : ResultKey R) (matrix : Matrix R),
      (∀ e results', (Results.addInPlace key matrix).on results = (.error e, results') →
        results.add key matrix = .error e ∧ results' = results) ∧
      ∀ results', (Results.addInPlace key matrix).on results = (.ok (), results') →
        (∃ added, results.add key matrix = .ok added ∧
          ∀ other, results'.get? other = added.get? other) ∧
        ∀ other, compare other key ≠ .eq → results'.get? other = results.get? other := by
  refine ⟨fun m cell pnes => ⟨Matrix.on_accumulateInPlace m cell pnes, fun e m' hon => ?_,
      fun hcell => ⟨Matrix.accumulate_fails_iff hcell, fun m' hon => ?_⟩⟩,
    fun m other => ⟨Matrix.on_mergeInPlace m other, fun e m' hon => ?_⟩,
    fun results key matrix => ?_⟩
  · rw [Matrix.on_accumulateInPlace, settle_eq_error] at hon
    exact hon.2
  · rw [Matrix.on_accumulateInPlace, settle_eq_ok] at hon
    exact Matrix.rescaled_of_accumulate hcell hon
  · rw [Matrix.on_mergeInPlace, settle_eq_error] at hon
    exact hon.2
  obtain ⟨hfails, hsucceeds⟩ := Results.on_addInPlace results key matrix
  cases hadd : results.add key matrix with
  | error e =>
      rw [hfails e hadd]
      refine ⟨fun e' results' hon => ?_, fun results' hon => (by cases hon)⟩
      cases hon
      exact ⟨rfl, rfl⟩
  | ok added =>
      obtain ⟨updated, hon, hsame⟩ := hsucceeds added hadd
      rw [hon]
      refine ⟨fun e results' hon' => (by cases hon'), fun results' hon' => ?_⟩
      cases hon'
      refine ⟨⟨added, rfl, hsame⟩, fun other hother => ?_⟩
      rw [hsame, Results.get?_of_add hadd hother]

namespace Sample

open PartialReal

/-- A matrix of one cell with two epsilon bins. -/
def twoBands : Matrix PartialReal := .empty ⟨1, 1, 1, 1, 1, 2⟩ (real 1)

def onlyCell : Cell := ⟨0, 0, 0, 0, 0⟩

/-- A last value that is no number leaves the first one unused. -/
theorem failed_update_last_value : twoBands.shape.holds onlyCell = true ∧
    (∃ e, (Matrix.accumulateInPlace onlyCell [real (1 / 2), nan]).on twoBands =
      (.error e, twoBands)) ∧
    ∃ m, (Matrix.accumulateInPlace onlyCell [real (1 / 2), real 1]).on twoBands = (.ok (), m) ∧
      m.nonExceedance[twoBands.shape.index onlyCell 0]? = some (real (1 / 2)) := by
  have hcell : twoBands.shape.holds onlyCell = true := rfl
  obtain ⟨hon, _, hholds⟩ := failed_update_changes_nothing.1 twoBands onlyCell [real (1 / 2), nan]
  obtain ⟨hon', _, hholds'⟩ :=
    failed_update_changes_nothing.1 twoBands onlyCell [real (1 / 2), real 1]
  refine ⟨hcell, ?_, ?_⟩
  · obtain ⟨e, he⟩ := (hholds hcell).1.2 (.inl ⟨nan, by simp, fun hnan => hnan.1⟩)
    exact ⟨e, by rw [hon, he, settle_error]⟩
  · cases hm : twoBands.accumulate onlyCell [real (1 / 2), real 1] with
    | error e =>
        have hunit : ∀ p ∈ [real (1 / 2), real 1], 0 ≤ p ∧ p ≤ 1 := by
          simp only [ofNat_eq, List.forall_mem_cons, real_le_real]
          norm_num
        rcases (hholds' hcell).1.1 ⟨e, hm⟩ with ⟨p, hp, hbad⟩ | hlength
        · exact absurd (hunit p hp) hbad
        · exact absurd rfl hlength
    | ok m =>
        rw [hm, settle_ok] at hon'
        refine ⟨m, hon', ?_⟩
        have hscaled := (hholds' hcell).2 m hon'
        have hone : twoBands.nonExceedance[twoBands.shape.index onlyCell 0]? = some (real 1) := by
          simp [twoBands, Matrix.empty, onlyCell, Shape.index, Shape.size, ofNat_eq]
        rw [hscaled.inside 0 (real 1) (real (1 / 2)) hone rfl, real_mul, one_mul]

end Sample

end SeismicHazard

end
