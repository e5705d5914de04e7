import Mathlib.Data.List.Sort
import SeismicHazard.SortedMap

/-!
# Sorted maps by their look-ups

A sorted map is determined by what is found under each key, and an insertion changes what is found
under one key only. This is said up to the order of keys first, and then for a lawful order, in
which equal in the order means equal.
-/

namespace SeismicHazard.SortedMap

variable {κ α : Type} [Ord κ]

@[simp] theorem get?_empty (k : κ) : (empty : SortedMap κ α).get? k = none := rfl

theorem exists_mem_of_lookup {k : κ} {a : α} {entries : List (κ × α)}
    (h : lookup k entries = some a) : ∃ k', (k', a) ∈ entries := by
  induction entries with
  | nil => cases h
  | cons head rest ih =>
      obtain ⟨key, value⟩ := head
      unfold lookup at h
      split at h
      next => exact ⟨key, Option.some.inj h ▸ List.mem_cons_self⟩
      next =>
        obtain ⟨key', hmem⟩ := ih h
        exact ⟨key', List.mem_cons_of_mem _ hmem⟩

theorem exists_mem_of_get? {m : SortedMap κ α} {k : κ} {a : α} (h : m.get? k = some a) :
    ∃ k', (k', a) ∈ m.entries :=
  exists_mem_of_lookup h

/-- Keys that are equal in the order find the same. -/
theorem get?_congr [Std.TransOrd κ] (m : SortedMap κ α) {k k' : κ} (heq : compare k k' = .eq) :
    m.get? k = m.get? k' := by
  unfold get?
  induction m.entries with
  | nil => rfl
  | cons head rest ih => simp only [lookup, ih, Std.TransCmp.congr_left heq]

theorem lookup_put [Std.TransOrd κ] (k k' : κ) (a : α) (entries : List (κ × α)) :
    lookup k' (put k a entries) = if compare k' k = .eq then some a else lookup k' entries := by
  induction entries with
  | nil => rfl
  | cons head rest ih =>
      obtain ⟨key, value⟩ := head
      unfold put
      split
      next => rfl
      next heq =>
        simp only [lookup, ← Std.TransCmp.congr_right (a := k') heq]
        split <;> rfl
      next hgt =>
        simp only [lookup, ih]
        by_cases hkey : compare k' key = .eq
        · -- what is equal to the entry comes before the new key
          have hlt : compare k' k = .lt := by
            rw [Std.TransCmp.congr_left hkey]
            exact Std.OrientedCmp.lt_of_gt hgt
          simp [hkey, hlt]
        · simp [hkey]

/-- An insertion shows under the keys that are equal to its own in the order. -/
theorem get?_insert_compare [Std.TransOrd κ] (m : SortedMap κ α) (k k' : κ) (a : α) :
    (m.insert k a).get? k' = if compare k' k = .eq then some a else m.get? k' :=
  lookup_put k k' a m.entries

variable [Std.LawfulEqOrd κ]

/-- An insertion shows under its own key only. -/
theorem get?_insert [Std.TransOrd κ] [DecidableEq κ] (m : SortedMap κ α) (k k' : κ) (a : α) :
    (m.insert k a).get? k' = if k' = k then some a else m.get? k' := by
  simp only [get?_insert_compare, Std.LawfulEqOrd.compare_eq_iff_eq]

/-- What holds of everything in a table, and of what is inserted, holds of everything after it. -/
theorem forall_insert [Std.TransOrd κ] [DecidableEq κ] {P : κ → α → Prop} {m : SortedMap κ α}
    {k : κ} {a : α} (hm : ∀ k' a', m.get? k' = some a' → P k' a') (ha : P k a) (k' : κ) (a' : α)
    (hfound : (m.insert k a).get? k' = some a') : P k' a' := by
  rw [get?_insert] at hfound
  split at hfound
  next hk => rwa [hk, ← Option.some.inj hfound]
  next => exact hm k' a' hfound

/-- No two entries have the same key. -/
def Distinct (entries : List (κ × α)) : Prop := entries.Pairwise fun a b => a.1 ≠ b.1

theorem lookup_eq_some_iff {entries : List (κ × α)} (hdistinct : Distinct entries) {k : κ} {a : α} :
    lookup k entries = some a ↔ (k, a) ∈ entries := by
  induction entries with
  | nil => simp [lookup]
  | cons head rest ih =>
      obtain ⟨key, value⟩ := head
      obtain ⟨hhead, hrest⟩ := List.pairwise_cons.1 hdistinct
      unfold lookup
      split
      next heq =>
        have hkey : k = key := Std.LawfulEqOrd.compare_eq_iff_eq.1 heq
        subst hkey
        constructor
        · rintro h
          rw [Option.some.inj h]
          exact List.mem_cons_self
        · intro hmem
          rcases List.mem_cons.1 hmem with h | h
          · rw [(Prod.mk.inj h).2]
          · exact absurd rfl (hhead (k, a) h)
      next hne =>
        rw [ih hrest, List.mem_cons]
        constructor
        · exact Or.inr
        · rintro (h | h)
          · simp [(Prod.mk.inj h).1] at hne
          · exact h

/-- With distinct keys the order of entries is of no account. -/
theorem lookup_perm {entries entries' : List (κ × α)} (hdistinct : Distinct entries)
    (hperm : entries'.Perm entries) (k : κ) : lookup k entries' = lookup k entries := by
  have hdistinct' : Distinct entries' := hperm.symm.pairwise hdistinct fun h => h.symm
  apply Option.ext
  intro a
  rw [lookup_eq_some_iff hdistinct', lookup_eq_some_iff hdistinct, hperm.mem_iff]

theorem distinct_entries (m : SortedMap κ α) : Distinct m.entries := by
  apply m.sorted.imp
  intro a b hlt heq
  simp [heq] at hlt

theorem get?_eq_some_iff (m : SortedMap κ α) {k : κ} {a : α} :
    m.get? k = some a ↔ (k, a) ∈ m.entries :=
  lookup_eq_some_iff m.distinct_entries

theorem nodup_entries (m : SortedMap κ α) : m.entries.Nodup :=
  m.distinct_entries.imp fun hne heq => hne (congrArg Prod.fst heq)

theorem nodup_keys (m : SortedMap κ α) : m.keys.Nodup :=
  List.pairwise_map.2 m.distinct_entries

/-- Two maps in which the same is found under every key are equal. -/
theorem ext_get? [Std.TransOrd κ] {m n : SortedMap κ α} (h : ∀ k, m.get? k = n.get? k) :
    m = n := by
  have hmem : ∀ e, e ∈ m.entries ↔ e ∈ n.entries := by
    rintro ⟨k, a⟩
    rw [← get?_eq_some_iff, ← get?_eq_some_iff, h]
  have hperm : m.entries.Perm n.entries :=
    (List.perm_ext_iff_of_nodup m.nodup_entries n.nodup_entries).2 hmem
  -- two sorted lists with the same elements are equal
  have hentries : m.entries = n.entries := by
    refine hperm.eq_of_pairwise ?_ m.sorted n.sorted
    intro a b _ _ hab hba
    exact absurd (Std.TransCmp.lt_trans hab hba) (by simp)
  cases m
  cases n
  cases hentries
  rfl

end SeismicHazard.SortedMap
