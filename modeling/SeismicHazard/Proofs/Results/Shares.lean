import SeismicHazard.Proofs.Results.SameFactors

/-!
# Results as products of shares

A share is what one rupture counts with under one key. Results count a list of shares when they have
a matrix for exactly the keys of the list, and every cell of it is a product of what the shares put
there. Merging results then is concatenation of lists of shares, so neither order nor grouping
matters, but for the rounding of products.
-/

noncomputable section

namespace SeismicHazard

open Scalar

/-- The non-exceedances by epsilon bin that a rupture multiplies into one cell under a key. -/
structure Share (R : Type) where
  key : ResultKey R
  shape : Shape
  level : R
  cell : Cell
  pnes : List R

variable {R : Type}

namespace Share

/-- The shares under one key. -/
def under (key : ResultKey R) (shares : List (Share R)) : List (Share R) :=
  shares.filter (fun s => decide (s.key = key))

@[simp] theorem under_append (key : ResultKey R) (xs ys : List (Share R)) :
    under key (xs ++ ys) = under key xs ++ under key ys :=
  List.filter_append ..

theorem under_flatMap {α : Type} (key : ResultKey R) (xs : List α) (f : α → List (Share R)) :
    under key (xs.flatMap f) = xs.flatMap fun x => under key (f x) :=
  List.filter_flatMap ..

@[simp] theorem mem_under {key : ResultKey R} {shares : List (Share R)} {s : Share R} :
    s ∈ under key shares ↔ s ∈ shares ∧ s.key = key := by
  simp [under]

theorem under_perm {xs ys : List (Share R)} (hperm : xs.Perm ys) (key : ResultKey R) :
    (under key xs).Perm (under key ys) :=
  hperm.filter _

/-- What a share puts into a cell and epsilon bin, if it is about that cell. -/
def factor? (s : Share R) (c : Cell) (eps : Nat) : Option R :=
  if c = s.cell then s.pnes[eps]? else none

/-- What shares put into a cell and epsilon bin. -/
def factors (shares : List (Share R)) (c : Cell) (eps : Nat) : List R :=
  shares.filterMap fun s => s.factor? c eps

@[simp] theorem factors_append (xs ys : List (Share R)) (c : Cell) (eps : Nat) :
    factors (xs ++ ys) c eps = factors xs c eps ++ factors ys c eps :=
  List.filterMap_append ..

theorem mem_pnes_of_mem_factors {shares : List (Share R)} {c : Cell} {eps : Nat} {p : R}
    (hp : p ∈ factors shares c eps) : ∃ s ∈ shares, p ∈ s.pnes := by
  obtain ⟨s, hs, hfactor⟩ := List.mem_filterMap.1 hp
  rw [factor?, Option.ite_none_right_eq_some] at hfactor
  exact ⟨s, hs, List.mem_of_getElem? hfactor.2⟩

/-- Shares under a common key agree on the shape and the level of its matrix. -/
def Coherent (shares : List (Share R)) : Prop :=
  ∀ s ∈ shares, ∀ t ∈ shares, s.key = t.key → s.shape = t.shape ∧ s.level = t.level

theorem Coherent.mono {xs ys : List (Share R)} (hys : Coherent ys) (hsub : ∀ s ∈ xs, s ∈ ys) :
    Coherent xs :=
  fun s hs t ht => hys s (hsub s hs) t (hsub t ht)

variable [Scalar R]

/-- The share lies within its matrix and consists of probabilities. -/
structure Fits (s : Share R) : Prop where
  holds : s.shape.holds s.cell = true
  length : s.shape.eps = s.pnes.length
  probability : ∀ p ∈ s.pnes, isProbability p = true

end Share

open Share

variable [Scalar R]

/-- A matrix whose cells are products of some shares, all of its shape and level. -/
structure Matrix.Counts (m : Matrix R) (shares : List (Share R)) : Prop where
  frame : ∀ s ∈ shares, s.shape = m.shape ∧ s.level = m.level
  pne : ∀ c eps, m.shape.holds c = true → eps < m.shape.eps →
    IsProduct (factors shares c eps) (m.pne c eps)

namespace Matrix.Counts

variable {m n : Matrix R} {xs ys : List (Share R)}

/-- The matrix without exceedance counts nothing. -/
theorem empty (shape : Shape) (level : R) : (Matrix.empty shape level).Counts [] where
  frame s hs := absurd hs List.not_mem_nil
  pne c eps _ _ := by rw [pne_empty]; exact .one

theorem perm (hm : m.Counts xs) (hperm : xs.Perm ys) : m.Counts ys where
  frame s hs := hm.frame s (hperm.mem_iff.2 hs)
  pne c eps hcell heps := (hm.pne c eps hcell heps).perm (hperm.filterMap _)

theorem sound [ProbabilityRules R] (hm : m.Counts xs) (hfits : ∀ s ∈ xs, s.Fits) : m.Sound := by
  refine sound_iff_pne.2 fun c eps hcell heps => ?_
  refine (hm.pne c eps hcell heps).isProbability fun p hp => ?_
  obtain ⟨s, hs, hp⟩ := mem_pnes_of_mem_factors hp
  exact (hfits s hs).probability p hp

/-- Two matrices that count the same shares, of which there is at least one. -/
theorem sameFactors (hm : m.Counts xs) (hn : n.Counts xs) (hsome : ∃ s, s ∈ xs) :
    m.SameFactors n := by
  obtain ⟨s, hs⟩ := hsome
  obtain ⟨hshape, hlevel⟩ := hm.frame s hs
  obtain ⟨hshape', hlevel'⟩ := hn.frame s hs
  have heq : m.shape = n.shape := hshape.symm.trans hshape'
  exact ⟨heq, hlevel.symm.trans hlevel', fun c eps hcell heps =>
    ⟨_, hm.pne c eps hcell heps, hn.pne c eps (heq ▸ hcell) (heq ▸ heps)⟩⟩

theorem times (hm : m.Counts xs) (hn : n.Counts ys) (hshape : m.shape = n.shape)
    (hlevel : m.level = n.level) : (m.times n hshape).Counts (xs ++ ys) where
  frame s hs := by
    rcases List.mem_append.1 hs with h | h
    · exact hm.frame s h
    · obtain ⟨hs, hl⟩ := hn.frame s h
      exact ⟨hs.trans hshape.symm, hl.trans hlevel.symm⟩
  pne c eps hcell heps := by
    rw [shape_times] at hcell heps
    rw [pne_times hshape hcell heps, factors_append]
    exact (hm.pne c eps hcell heps).mul (hn.pne c eps (hshape ▸ hcell) (hshape ▸ heps))

/-- A share more is taken in by multiplying it into its cell. -/
theorem multiplied (hm : m.Counts xs) {s : Share R} (hs : s.Fits)
    (hframe : s.shape = m.shape ∧ s.level = m.level) :
    (m.multiplied s.cell s.pnes).Counts (xs ++ [s]) where
  frame t ht := by
    rcases List.mem_append.1 ht with h | h
    · exact hm.frame t h
    · exact List.mem_singleton.1 h ▸ hframe
  pne c eps hcell heps := by
    rw [shape_multiplied] at hcell heps
    have hholds : m.shape.holds s.cell = true := hframe.1 ▸ hs.holds
    have hlength : m.shape.eps = s.pnes.length := hframe.1 ▸ hs.length
    have hsingle : factors [s] c eps = (s.factor? c eps).toList := by
      cases hfactor : s.factor? c eps <;> simp [factors, hfactor]
    rw [factors_append, hsingle, factor?]
    by_cases hc : c = s.cell
    · subst hc
      have hp : s.pnes[eps]? = some s.pnes[eps] := List.getElem?_eq_getElem (hlength ▸ heps)
      rw [if_pos rfl, hp, pne_multiplied_self hholds heps hp]
      exact (hm.pne _ eps hcell heps).mul (.single _)
    · rw [if_neg hc, pne_multiplied_of_ne hholds hlength hcell heps hc, Option.toList_none,
        List.append_nil]
      exact hm.pne c eps hcell heps

end Matrix.Counts

/-- The matrix, if there are any shares, counts them. -/
def MatrixCounts (matrix? : Option (Matrix R)) (shares : List (Share R)) : Prop :=
  match matrix? with
  | none => shares = []
  | some m => (∃ s, s ∈ shares) ∧ m.Counts shares

namespace MatrixCounts

variable {m? n? : Option (Matrix R)} {xs ys : List (Share R)}

theorem some_iff (h : MatrixCounts m? xs) : (∃ m, m? = some m) ↔ ∃ s, s ∈ xs := by
  cases m? with
  | none =>
      have hnil : xs = [] := h
      simp [hnil]
  | some m => exact ⟨fun _ => h.1, fun _ => ⟨m, rfl⟩⟩

theorem perm (h : MatrixCounts m? xs) (hperm : xs.Perm ys) : MatrixCounts m? ys := by
  cases m? with
  | none =>
      have hnil : xs = [] := h
      subst hnil
      exact hperm.symm.eq_nil
  | some m => exact ⟨h.1.imp fun s hs => hperm.mem_iff.1 hs, h.2.perm hperm⟩

theorem sameFactors (hm : MatrixCounts m? xs) (hn : MatrixCounts n? xs) :
    Option.Rel Matrix.SameFactors m? n? := by
  cases m? with
  | none =>
      cases n? with
      | none => exact .none
      | some n =>
          obtain ⟨m, hm⟩ := hm.some_iff.2 hn.1
          simp at hm
  | some m =>
      obtain ⟨n, rfl⟩ := hn.some_iff.2 hm.1
      exact .some (hm.2.sameFactors hn.2 hm.1)

/-- Two matrices whose shares agree on shape and level can be taken together, and count the shares
of both. -/
theorem joined [ProbabilityRules R] (hm : MatrixCounts m? xs) (hn : MatrixCounts n? ys)
    (hframe : ∀ s ∈ xs, ∀ t ∈ ys, s.shape = t.shape ∧ s.level = t.level)
    (hfits : ∀ s ∈ ys, s.Fits) :
    ∃ both, Results.joined m? n? = .ok both ∧ MatrixCounts both (xs ++ ys) := by
  cases m? with
  | none =>
      have hnil : xs = [] := hm
      subst hnil
      exact ⟨n?, Results.joined_none_left n?, hn⟩
  | some m =>
      cases n? with
      | none =>
          have hnil : ys = [] := hn
          subst hnil
          exact ⟨some m, Results.joined_none_right _, by rwa [List.append_nil]⟩
      | some n =>
          obtain ⟨⟨s, hs⟩, hm⟩ := hm
          obtain ⟨⟨t, ht⟩, hn⟩ := hn
          obtain ⟨hsame, hsame'⟩ := hframe s hs t ht
          obtain ⟨hshape, hlevel⟩ := hm.frame s hs
          obtain ⟨hshape', hlevel'⟩ := hn.frame t ht
          have heq : m.shape = n.shape := hshape.symm.trans (hsame.trans hshape')
          have hmerge : m.merge n = .ok (m.times n heq) :=
            (hn.sound hfits).merge_eq_ok.2 ⟨heq, rfl⟩
          exact ⟨some (m.times n heq), Results.joined_some_some.2 ⟨_, hmerge, rfl⟩,
            ⟨s, List.mem_append_left _ hs⟩,
            hm.times hn heq (hlevel.symm.trans (hsame'.trans hlevel'))⟩

end MatrixCounts

/-- Results that have, for exactly the keys of some shares, a matrix that counts them. -/
def Results.Counts (results : Results R) (shares : List (Share R)) : Prop :=
  ∀ key, MatrixCounts (results.get? key) (under key shares)

namespace Results.Counts

variable {a b r : Results R} {xs ys : List (Share R)}

theorem empty : Results.Counts (SortedMap.empty : Results R) [] := fun _ => rfl

theorem matrix (ha : a.Counts xs) {key : ResultKey R} {m : Matrix R} (hm : a.get? key = some m) :
    m.Counts (under key xs) := by
  have hkey := ha key
  rw [hm] at hkey
  exact hkey.2

theorem some_iff (ha : a.Counts xs) (key : ResultKey R) :
    (∃ m, a.get? key = some m) ↔ ∃ s ∈ xs, s.key = key := by
  simpa only [mem_under] using (ha key).some_iff

theorem perm (ha : a.Counts xs) (hperm : xs.Perm ys) : a.Counts ys :=
  fun key => (ha key).perm (under_perm hperm key)

/-- Results that count the same shares multiply the same factors. -/
theorem sameFactors (ha : a.Counts xs) (hb : b.Counts xs) : a.SameFactors b :=
  fun key => (ha key).sameFactors (hb key)

variable [KeyRules R]

/-- Where products do not round, only one table of results counts given shares. -/
theorem unique [ExactRules R] (ha : a.Counts xs) (hb : b.Counts xs) : a = b :=
  (ha.sameFactors hb).eq

variable [ProbabilityRules R]

/-- Results that count coherent shares can be added to each other, and then count both. -/
theorem addAll (ha : a.Counts xs) (hb : b.Counts ys) (hcoherent : Coherent (xs ++ ys))
    (hfits : ∀ s ∈ ys, s.Fits) : ∃ r, a.addAll b = .ok r ∧ r.Counts (xs ++ ys) := by
  have hjoined : ∀ key, ∃ both, joined (a.get? key) (b.get? key) = .ok both ∧
      MatrixCounts both (under key (xs ++ ys)) := by
    intro key
    rw [under_append]
    apply (ha key).joined (hb key)
    · intro s hs t ht
      obtain ⟨hs, hskey⟩ := mem_under.1 hs
      obtain ⟨ht, htkey⟩ := mem_under.1 ht
      exact hcoherent s (List.mem_append_left _ hs) t (List.mem_append_right _ ht)
        (hskey.trans htkey.symm)
    · exact fun s hs => hfits s (mem_under.1 hs).1
  obtain ⟨r, hr⟩ := exists_addAll fun key => (hjoined key).imp fun _ h => h.1
  refine ⟨r, hr, fun key => ?_⟩
  obtain ⟨both, hboth, hcounts⟩ := hjoined key
  rw [get?_addAll hr key, Except.ok.injEq] at hboth
  rwa [hboth]

/-- A matrix that counts shares under one key can be added to results in the same way. -/
theorem add {key : ResultKey R} {m : Matrix R} (ha : a.Counts xs) (hm : m.Counts ys)
    (hsome : ∃ s, s ∈ ys) (hkey : ∀ s ∈ ys, s.key = key) (hcoherent : Coherent (xs ++ ys))
    (hfits : ∀ s ∈ ys, s.Fits) : ∃ r, a.add key m = .ok r ∧ r.Counts (xs ++ ys) := by
  have hsingle : Results.Counts (SortedMap.empty.insert key m) ys := by
    intro k
    rw [SortedMap.get?_insert]
    by_cases hk : k = key
    · subst hk
      have hall : under k ys = ys := List.filter_eq_self.2 fun s hs => by simp [hkey s hs]
      rw [if_pos rfl, hall]
      exact ⟨hsome, hm⟩
    · rw [if_neg hk, SortedMap.get?_empty]
      exact List.filter_eq_nil_iff.2 fun s hs => by simpa [hkey s hs] using Ne.symm hk
  rw [← addAll_single]
  exact ha.addAll hsingle hcoherent hfits

/-- Merging is concatenation of shares. -/
theorem merge (ha : a.Counts xs) (hb : b.Counts ys) (hcoherent : Coherent (xs ++ ys))
    (hfits : ∀ s ∈ xs ++ ys, s.Fits) : ∃ r, a.merge b = .ok r ∧ r.Counts (xs ++ ys) := by
  rw [Results.merge]
  split
  next =>
    have hswap : (ys ++ xs).Perm (xs ++ ys) := List.perm_append_comm
    obtain ⟨r, hr, hcounts⟩ := hb.addAll ha (hcoherent.mono fun s hs => hswap.mem_iff.1 hs)
      fun s hs => hfits s (List.mem_append_left _ hs)
    exact ⟨r, hr, hcounts.perm hswap⟩
  next => exact ha.addAll hb hcoherent fun s hs => hfits s (List.mem_append_right _ hs)

end Results.Counts

end SeismicHazard

end
