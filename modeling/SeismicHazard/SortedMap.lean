/-!
# Sorted maps

A map kept as a list of entries in strictly increasing order of keys. Two maps with the same
entries are equal, so statements about maps are statements about equality.
-/

namespace SeismicHazard

/-- Entries in strictly increasing order of their keys. -/
structure SortedMap (κ α : Type) [Ord κ] where
  entries : List (κ × α)
  sorted : entries.Pairwise (fun a b => compare a.1 b.1 = .lt)

namespace SortedMap

variable {κ α β : Type} [Ord κ]

/-- The map without entries. -/
def empty : SortedMap κ α := ⟨[], .nil⟩

instance : EmptyCollection (SortedMap κ α) := ⟨empty⟩

/-- The number of entries. -/
def size (m : SortedMap κ α) : Nat := m.entries.length

def isEmpty (m : SortedMap κ α) : Bool := m.entries.isEmpty

/-- The keys in increasing order. -/
def keys (m : SortedMap κ α) : List κ := m.entries.map Prod.fst

/-- The value of the first entry under a key. -/
def lookup (k : κ) : List (κ × α) → Option α
  | [] => none
  | (k', a) :: rest => if compare k k' = .eq then some a else lookup k rest

/-- The value under a key. -/
def get? (m : SortedMap κ α) (k : κ) : Option α := lookup k m.entries

/-- Puts a value under a key into sorted entries, in place of the one that was there. -/
def put (k : κ) (a : α) : List (κ × α) → List (κ × α)
  | [] => [(k, a)]
  | (k', a') :: rest =>
      match compare k k' with
      | .lt => (k, a) :: (k', a') :: rest
      | .eq => (k, a) :: rest
      | .gt => (k', a') :: put k a rest

/-- The first key of the entries is the new one or was there before. -/
theorem mem_put {k : κ} {a : α} {entries : List (κ × α)} {e : κ × α}
    (hmem : e ∈ put k a entries) : e = (k, a) ∨ e ∈ entries := by
  induction entries with
  | nil => simpa [put] using hmem
  | cons head rest ih =>
      obtain ⟨k', a'⟩ := head
      simp only [put] at hmem
      split at hmem
      next => simpa using hmem
      next =>
        rcases List.mem_cons.1 hmem with rfl | hrest
        · exact .inl rfl
        · exact .inr (List.mem_cons_of_mem _ hrest)
      next =>
        rcases List.mem_cons.1 hmem with rfl | hrest
        · exact .inr List.mem_cons_self
        · exact (ih hrest).imp id (List.mem_cons_of_mem _)

/-- Entries stay sorted when a value is put among them. -/
theorem pairwise_put [Std.TransOrd κ] {k : κ} {a : α} {entries : List (κ × α)}
    (hsorted : entries.Pairwise (fun a b => compare a.1 b.1 = .lt)) :
    (put k a entries).Pairwise (fun a b => compare a.1 b.1 = .lt) := by
  induction entries with
  | nil => simp [put]
  | cons head rest ih =>
      obtain ⟨k', a'⟩ := head
      rw [List.pairwise_cons] at hsorted
      obtain ⟨hhead, hrest⟩ := hsorted
      simp only [put]
      split
      next hlt =>
        refine List.pairwise_cons.2 ⟨fun e he => ?_, List.pairwise_cons.2 ⟨hhead, hrest⟩⟩
        rcases List.mem_cons.1 he with rfl | he
        · exact hlt
        · exact Std.TransCmp.lt_trans hlt (hhead e he)
      next heq =>
        refine List.pairwise_cons.2 ⟨fun e he => ?_, hrest⟩
        exact Std.TransCmp.lt_of_eq_of_lt heq (hhead e he)
      next hgt =>
        refine List.pairwise_cons.2 ⟨fun e he => ?_, ih hrest⟩
        rcases mem_put he with rfl | he
        · exact Std.OrientedCmp.lt_of_gt hgt
        · exact hhead e he

/-- Puts a value under a key, in place of the one that was there. -/
def insert [Std.TransOrd κ] (m : SortedMap κ α) (k : κ) (a : α) : SortedMap κ α :=
  ⟨put k a m.entries, pairwise_put m.sorted⟩

/-- Whether there is a value under a key. -/
def contains (m : SortedMap κ α) (k : κ) : Bool := (m.get? k).isSome

end SortedMap

end SeismicHazard
