import SeismicHazard.Proofs.Keys
import SeismicHazard.Proofs.Matrix.Values
import SeismicHazard.Proofs.SortedMap

/-!
# Merging results, key by key

What is found under a key after a merge depends only on what the two results have under that key. A
merge fails exactly when the two matrices of some key cannot be merged, and the order in which the
keys are gone through is of no account.
-/

noncomputable section

namespace SeismicHazard.Results

open SortedMap

variable {R : Type} [Scalar R]

/-- What two results have under a key, taken together. -/
def joined (left right : Option (Matrix R)) : Except (Error R) (Option (Matrix R)) :=
  match left, right with
  | some m, some n => some <$> m.merge n
  | some m, none => .ok (some m)
  | none, right => .ok right

@[simp] theorem joined_none_left (right : Option (Matrix R)) : joined none right = .ok right := rfl

@[simp] theorem joined_none_right (left : Option (Matrix R)) : joined left none = .ok left := by
  cases left <;> rfl

theorem joined_some_some {m n : Matrix R} {both : Option (Matrix R)} :
    joined (some m) (some n) = .ok both ↔ ∃ r, m.merge n = .ok r ∧ both = some r := by
  rw [joined, map_eq_ok]
  simp only [eq_comm]

/-- A matrix taken together with what is there leaves a matrix. -/
theorem exists_joined_some {left both : Option (Matrix R)} {m : Matrix R}
    (hboth : joined left (some m) = .ok both) : ∃ r, both = some r := by
  cases left with
  | none => exact ⟨m, (Except.ok.inj hboth).symm⟩
  | some present => exact (joined_some_some.1 hboth).imp fun _ h => h.2

theorem add_eq_ok {results r : Results R} {key : ResultKey R} {m : Matrix R} :
    results.add key m = .ok r ↔
      ∃ r', joined (results.get? key) (some m) = .ok (some r') ∧ r = results.insert key r' := by
  rw [add]
  cases hpresent : results.get? key with
  | none => simp [eq_comm]
  | some present =>
      simp only [bind_eq_ok, pure_eq_ok, joined_some_some, Option.some.injEq]
      constructor
      · rintro ⟨merged, hmerged, rfl⟩
        exact ⟨merged, ⟨merged, hmerged, rfl⟩, rfl⟩
      · rintro ⟨merged, ⟨_, hmerged, rfl⟩, rfl⟩
        exact ⟨merged, hmerged, rfl⟩

/-- Adding a matrix is adding all entries of a table that has it alone. -/
theorem addAll_single (results : Results R) (key : ResultKey R) (m : Matrix R) :
    results.addAll (SortedMap.empty.insert key m) = results.add key m := by
  change (results.add key m >>= fun r => .ok r) = _
  cases results.add key m <;> rfl

variable [KeyRules R]

instance : DecidableEq (ResultKey R) := Classical.decEq _

/-- Adding a matrix changes what is found under its key only. -/
theorem get?_add {results r : Results R} {key : ResultKey R} {m : Matrix R}
    (hadd : results.add key m = .ok r) (k : ResultKey R) :
    joined (results.get? k) (if k = key then some m else none) = .ok (r.get? k) := by
  obtain ⟨r', hjoined, rfl⟩ := add_eq_ok.1 hadd
  rw [get?_insert]
  by_cases hk : k = key
  · subst hk
    simpa using hjoined
  · simp [hk]

/-! ## Adding entries one after the other -/

/-- Adds entries in the order in which they stand. -/
def addEntries (results : Results R) (entries : List (ResultKey R × Matrix R)) :
    Except (Error R) (Results R) :=
  entries.foldlM (fun acc entry => acc.add entry.1 entry.2) results

theorem lookup_append_singleton (before : List (ResultKey R × Matrix R)) (key k : ResultKey R)
    (m : Matrix R) (hnew : ∀ e ∈ before, e.1 ≠ key) :
    lookup k (before ++ [(key, m)]) = if k = key then some m else lookup k before := by
  induction before with
  | nil => simp [lookup]
  | cons head rest ih =>
      obtain ⟨head, value⟩ := head
      have hhead : head ≠ key := hnew _ List.mem_cons_self
      have hrest := ih (fun e he => hnew e (List.mem_cons_of_mem _ he))
      by_cases hk : k = head
      · subst hk
        simp [lookup, hhead]
      · simp [lookup, hk, hrest]

omit [Scalar R] [KeyRules R] in
/-- The entries before an entry have other keys. -/
theorem ne_of_mem_before {entries before after : List (ResultKey R × Matrix R)}
    {entry : ResultKey R × Matrix R} (hdistinct : Distinct entries)
    (hsplit : entries = before ++ entry :: after) : ∀ e ∈ before, e.1 ≠ entry.1 := by
  rw [hsplit] at hdistinct
  exact fun e he => (List.pairwise_append.1 hdistinct).2.2 e he entry List.mem_cons_self

/-- Adding entries with distinct keys joins what is found under each key. -/
theorem get?_addEntries {results r : Results R} {entries : List (ResultKey R × Matrix R)}
    (hdistinct : Distinct entries) (hadd : results.addEntries entries = .ok r) (k : ResultKey R) :
    joined (results.get? k) (lookup k entries) = .ok (r.get? k) := by
  refine step_of_foldlM (motive := fun before acc =>
    ∀ k, joined (results.get? k) (lookup k before) = .ok (acc.get? k)) hadd ?_ ?_ k
  · intro k
    exact joined_none_right _
  · intro before entry after acc next hsplit hacc hnext k
    have hstep := get?_add hnext k
    have hbefore := ne_of_mem_before hdistinct hsplit
    rw [lookup_append_singleton before entry.1 k entry.2 hbefore]
    by_cases hk : k = entry.1
    · -- no entry before this one has its key
      have hnew : lookup k before = none := by
        rw [hsplit] at hdistinct
        by_contra hfound
        obtain ⟨m, hm⟩ := Option.ne_none_iff_exists'.1 hfound
        have hmem := (lookup_eq_some_iff (List.pairwise_append.1 hdistinct).1).1 hm
        exact hbefore _ hmem hk
      have hsame := hacc k
      rw [hnew, joined_none_right] at hsame
      rw [Except.ok.inj hsame, if_pos hk]
      simpa [hk] using hstep
    · rw [if_neg hk, hacc k]
      simpa [hk] using hstep

/-- Entries with distinct keys can be added when under every key the two matrices can be merged. -/
theorem exists_addEntries {results : Results R} {entries : List (ResultKey R × Matrix R)}
    (hdistinct : Distinct entries)
    (hjoined : ∀ k, Succeeds (joined (results.get? k) (lookup k entries))) :
    ∃ r, results.addEntries entries = .ok r := by
  -- keys that have not come up yet keep what the results have for them
  have hstep : ∀ before entry after acc, entries = before ++ entry :: after →
      (∀ k, (∀ e ∈ before, e.1 ≠ k) → acc.get? k = results.get? k) →
      ∃ next, add acc entry.1 entry.2 = .ok next ∧
        ∀ k, (∀ e ∈ before ++ [entry], e.1 ≠ k) → next.get? k = results.get? k := by
    intro before entry after acc hsplit hacc
    have hpresent : acc.get? entry.1 = results.get? entry.1 :=
      hacc entry.1 (ne_of_mem_before hdistinct hsplit)
    have hentry : lookup entry.1 entries = some entry.2 :=
      (lookup_eq_some_iff hdistinct).2 (by rw [hsplit]; simp)
    obtain ⟨both, hboth⟩ := hjoined entry.1
    rw [hentry, ← hpresent] at hboth
    obtain ⟨r', rfl⟩ := exists_joined_some hboth
    refine ⟨acc.insert entry.1 r', add_eq_ok.2 ⟨r', hboth, rfl⟩, ?_⟩
    intro k hk
    rw [get?_insert, if_neg (fun h => hk entry (by simp) h.symm)]
    exact hacc k (fun e he => hk e (by simp [he]))
  have hfold := foldlM_of_step
    (motive := fun (before : List (ResultKey R × Matrix R)) (acc : Results R) =>
      ∀ k, (∀ e ∈ before, e.1 ≠ k) → acc.get? k = results.get? k) (fun _ _ => rfl) hstep
  exact hfold.imp fun _ h => h.1

/-- Adding all entries of other results joins what is found under each key. -/
theorem get?_addAll {results other r : Results R} (hadd : results.addAll other = .ok r)
    (k : ResultKey R) : joined (results.get? k) (other.get? k) = .ok (r.get? k) :=
  get?_addEntries other.distinct_entries hadd k

/-- All entries can be added when under every key the two matrices can be merged. -/
theorem exists_addAll {results other : Results R}
    (hjoined : ∀ k, Succeeds (joined (results.get? k) (other.get? k))) :
    ∃ r, results.addAll other = .ok r :=
  exists_addEntries other.distinct_entries hjoined

/-- The entries of other results can be added in any order: all orders fail or none, and they lead
to the same results. -/
theorem toOption_addEntries {results other : Results R} {entries : List (ResultKey R × Matrix R)}
    (hperm : entries.Perm other.entries) :
    (results.addEntries entries).toOption = (results.addAll other).toOption := by
  have hdistinct : Distinct entries :=
    hperm.symm.pairwise other.distinct_entries fun h => h.symm
  have hlookup : ∀ k, lookup k entries = other.get? k :=
    lookup_perm other.distinct_entries hperm
  -- what is found under the keys decides both what is left and whether it can be reached
  have hsame : ∀ {r s : Results R}, results.addEntries entries = .ok r →
      results.addAll other = .ok s → r = s := by
    intro r s hr hs
    refine ext_get? fun k => ?_
    have hrk := get?_addEntries hdistinct hr k
    rw [hlookup, get?_addAll hs k] at hrk
    exact (Except.ok.inj hrk).symm
  apply toOption_eq
  · intro r hr
    obtain ⟨s, hs⟩ : ∃ s, results.addAll other = .ok s :=
      exists_addAll fun k => ⟨_, hlookup k ▸ get?_addEntries hdistinct hr k⟩
    rw [hsame hr hs, hs]
  · intro s hs
    obtain ⟨r, hr⟩ : ∃ r, results.addEntries entries = .ok r :=
      exists_addEntries hdistinct fun k => ⟨_, (hlookup k).symm ▸ get?_addAll hs k⟩
    rw [← hsame hr hs, hr]

end SeismicHazard.Results

end
