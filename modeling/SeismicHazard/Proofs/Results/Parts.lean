import SeismicHazard.Proofs.Results.SameFactors
import SeismicHazard.Proofs.Results.Sound

/-!
# Results as products of parts

What partial results have under a key, multiplied together. Matrices of one shape and level can be
multiplied in any order, and those of different shapes cannot, so whether partial results can be
merged, and what the outcome has under which keys, can be told from the parts alone. Its cells are
products of those of the parts, and so one and the same where products do not round.
-/

noncomputable section

namespace SeismicHazard

variable {R : Type} [Scalar R]

/-- A matrix whose cells are the products of those of some matrices, all of its shape and level. -/
structure Matrix.Multiplies (m : Matrix R) (parts : List (Matrix R)) : Prop where
  frame : ∀ n ∈ parts, n.shape = m.shape ∧ n.level = m.level
  pne : ∀ c eps, m.shape.holds c = true → eps < m.shape.eps →
    IsProduct (parts.map fun n => n.pne c eps) (m.pne c eps)

namespace Matrix.Multiplies

variable {m n : Matrix R} {xs ys : List (Matrix R)}

theorem singleton (m : Matrix R) : m.Multiplies [m] where
  frame n hn := by simp [List.mem_singleton.1 hn]
  pne c eps _ _ := .single (m.pne c eps)

theorem perm (hm : m.Multiplies xs) (hperm : xs.Perm ys) : m.Multiplies ys where
  frame n hn := hm.frame n (hperm.mem_iff.2 hn)
  pne c eps hcell heps := (hm.pne c eps hcell heps).perm (hperm.map _)

theorem sameFactors (hm : m.Multiplies xs) (hn : n.Multiplies xs) (hsome : xs ≠ []) :
    m.SameFactors n := by
  obtain ⟨x, hx⟩ := List.exists_mem_of_ne_nil xs hsome
  obtain ⟨hshape, hlevel⟩ := hm.frame x hx
  obtain ⟨hshape', hlevel'⟩ := hn.frame x hx
  have heq : m.shape = n.shape := hshape.symm.trans hshape'
  exact ⟨heq, hlevel.symm.trans hlevel', fun c eps hcell heps =>
    ⟨_, hm.pne c eps hcell heps, hn.pne c eps (heq ▸ hcell) (heq ▸ heps)⟩⟩

theorem times (hm : m.Multiplies xs) (hn : n.Multiplies ys) (hshape : m.shape = n.shape)
    (hlevel : m.level = n.level) : (m.times n hshape).Multiplies (xs ++ ys) where
  frame x hx := by
    rcases List.mem_append.1 hx with h | h
    · exact hm.frame x h
    · obtain ⟨hs, hl⟩ := hn.frame x h
      exact ⟨hs.trans hshape.symm, hl.trans hlevel.symm⟩
  pne c eps hcell heps := by
    rw [shape_times] at hcell heps
    rw [pne_times hshape hcell heps, List.map_append]
    exact (hm.pne c eps hcell heps).mul (hn.pne c eps (hshape ▸ hcell) (hshape ▸ heps))

end Matrix.Multiplies

/-- The matrix, if there are any parts, multiplies them. -/
def MultipliesAll (matrix? : Option (Matrix R)) (parts : List (Matrix R)) : Prop :=
  match matrix? with
  | none => parts = []
  | some m => parts ≠ [] ∧ m.Multiplies parts

namespace MultipliesAll

variable {m? n? : Option (Matrix R)} {xs ys : List (Matrix R)}

theorem toList (m? : Option (Matrix R)) : MultipliesAll m? m?.toList := by
  cases m? with
  | none => rfl
  | some m => exact ⟨List.cons_ne_nil _ _, .singleton m⟩

theorem perm (h : MultipliesAll m? xs) (hperm : xs.Perm ys) : MultipliesAll m? ys := by
  cases m? with
  | none =>
      have hnil : xs = [] := h
      exact (hnil ▸ hperm).nil_eq.symm
  | some m => exact ⟨fun hnil => h.1 (hnil ▸ hperm).eq_nil, h.2.perm hperm⟩

theorem sameFactors (hm : MultipliesAll m? xs) (hn : MultipliesAll n? xs) :
    Option.Rel Matrix.SameFactors m? n? := by
  cases m? with
  | none =>
      have hnil : xs = [] := hm
      cases n? with
      | none => exact .none
      | some n => exact absurd hnil hn.1
  | some m =>
      cases n? with
      | none => exact absurd hn hm.1
      | some n => exact .some (hm.2.sameFactors hn.2 hm.1)

theorem some_iff (h : MultipliesAll m? xs) : (∃ m, m? = some m) ↔ ∃ x, x ∈ xs := by
  cases m? with
  | none =>
      have hnil : xs = [] := h
      simp [hnil]
  | some m => exact ⟨fun _ => List.exists_mem_of_ne_nil xs h.1, fun _ => ⟨m, rfl⟩⟩

/-- Taking two matrices together succeeds exactly when their parts have one shape, and then
multiplies the parts of both. -/
theorem joined (hm : MultipliesAll m? xs) (hn : MultipliesAll n? ys)
    (hsound : ∀ n, n? = some n → n.Sound) (hlevels : ∀ x ∈ xs, ∀ y ∈ ys, x.level = y.level) :
    (Succeeds (Results.joined m? n?) ↔ ∀ x ∈ xs, ∀ y ∈ ys, x.shape = y.shape) ∧
      ∀ both, Results.joined m? n? = .ok both → MultipliesAll both (xs ++ ys) := by
  cases m? with
  | none =>
      obtain rfl : xs = [] := hm
      simpa using hn
  | some m =>
      cases n? with
      | none =>
          obtain rfl : ys = [] := hn
          simpa using hm
      | some n =>
          obtain ⟨x, hx⟩ := List.exists_mem_of_ne_nil xs hm.1
          obtain ⟨y, hy⟩ := List.exists_mem_of_ne_nil ys hn.1
          have hshapes : m.shape = n.shape ↔ ∀ x ∈ xs, ∀ y ∈ ys, x.shape = y.shape := by
            constructor
            · intro heq x hx y hy
              rw [(hm.2.frame x hx).1, (hn.2.frame y hy).1, heq]
            · intro hall
              rw [← (hm.2.frame x hx).1, ← (hn.2.frame y hy).1, hall x hx y hy]
          have hlevel : m.level = n.level := by
            rw [← (hm.2.frame x hx).2, ← (hn.2.frame y hy).2, hlevels x hx y hy]
          simp only [Succeeds, Results.joined_some_some, (hsound n rfl).merge_eq_ok]
          refine ⟨?_, ?_⟩
          · rw [← hshapes]
            constructor
            · rintro ⟨_, _, ⟨hshape, _⟩, _⟩
              exact hshape
            · intro hshape
              exact ⟨_, _, ⟨hshape, rfl⟩, rfl⟩
          · rintro _ ⟨_, ⟨hshape, rfl⟩, rfl⟩
            exact ⟨List.append_ne_nil_of_left_ne_nil hm.1 _, hm.2.times hn.2 hshape hlevel⟩

end MultipliesAll

namespace Results

/-- The matrices that partial results have under a key. -/
def found (key : ResultKey R) (parts : List (Results R)) : List (Matrix R) :=
  parts.filterMap (·.get? key)

@[simp] theorem found_append (key : ResultKey R) (xs ys : List (Results R)) :
    found key (xs ++ ys) = found key xs ++ found key ys :=
  List.filterMap_append ..

@[simp] theorem mem_found {key : ResultKey R} {parts : List (Results R)} {m : Matrix R} :
    m ∈ found key parts ↔ ∃ part ∈ parts, part.get? key = some m :=
  List.mem_filterMap

theorem found_perm {xs ys : List (Results R)} (hperm : xs.Perm ys) (key : ResultKey R) :
    (found key xs).Perm (found key ys) :=
  hperm.filterMap _

/-- Results that multiply, under every key, what some parts have under it. -/
def Multiplies (results : Results R) (parts : List (Results R)) : Prop :=
  ∀ key, MultipliesAll (results.get? key) (found key parts)

/-- Matrices under a common key have one level. -/
def OneLevel (parts : List (Results R)) : Prop :=
  ∀ key, ∀ m ∈ found key parts, ∀ n ∈ found key parts, m.level = n.level

/-- Matrices under a common key have one shape. -/
def OneShape (parts : List (Results R)) : Prop :=
  ∀ key, ∀ m ∈ found key parts, ∀ n ∈ found key parts, m.shape = n.shape

theorem OneLevel.mono {xs ys : List (Results R)} (h : OneLevel ys) (hsub : ∀ r ∈ xs, r ∈ ys) :
    OneLevel xs := by
  intro key m hm n hn
  obtain ⟨a, ha, hm⟩ := mem_found.1 hm
  obtain ⟨b, hb, hn⟩ := mem_found.1 hn
  exact h key m (mem_found.2 ⟨a, hsub a ha, hm⟩) n (mem_found.2 ⟨b, hsub b hb, hn⟩)

theorem OneShape.perm {xs ys : List (Results R)} (h : OneShape xs) (hperm : xs.Perm ys) :
    OneShape ys := fun key m hm n hn =>
  h key m ((found_perm hperm key).mem_iff.2 hm) n ((found_perm hperm key).mem_iff.2 hn)

/-- Two lists of parts have one shape when each of them does and they agree. -/
theorem oneShape_append {xs ys : List (Results R)} :
    OneShape (xs ++ ys) ↔ OneShape xs ∧ OneShape ys ∧
      ∀ key, ∀ m ∈ found key xs, ∀ n ∈ found key ys, m.shape = n.shape := by
  simp only [OneShape, found_append, List.forall_mem_append]
  constructor
  · intro h
    exact ⟨fun key m hm => (h key).1 m hm |>.1, fun key m hm => (h key).2 m hm |>.2,
      fun key m hm => (h key).1 m hm |>.2⟩
  · rintro ⟨hxs, hys, hboth⟩ key
    exact ⟨fun m hm => ⟨hxs key m hm, hboth key m hm⟩,
      fun m hm => ⟨fun n hn => (hboth key n hn m hm).symm, hys key m hm⟩⟩

namespace Multiplies

variable {a b r : Results R} {xs ys : List (Results R)}

theorem singleton (r : Results R) : r.Multiplies [r] := by
  intro key
  have htoList : found key [r] = (r.get? key).toList := by
    cases hr : r.get? key <;> simp [found, hr]
  rw [htoList]
  exact .toList _

theorem perm (h : r.Multiplies xs) (hperm : xs.Perm ys) : r.Multiplies ys :=
  fun key => (h key).perm (found_perm hperm key)

theorem sameFactors (ha : a.Multiplies xs) (hb : b.Multiplies xs) : a.SameFactors b :=
  fun key => (ha key).sameFactors (hb key)

variable [KeyRules R]

/-- All entries can be added exactly when under every key the parts have one shape, and then the
parts of both are multiplied. -/
theorem addAll (ha : a.Multiplies xs) (hb : b.Multiplies ys) (hsound : b.Sound)
    (hlevels : OneLevel (xs ++ ys)) :
    (Succeeds (a.addAll b) ↔
        ∀ key, ∀ m ∈ found key xs, ∀ n ∈ found key ys, m.shape = n.shape) ∧
      ∀ r, a.addAll b = .ok r → r.Multiplies (xs ++ ys) := by
  have hjoined := fun key => (ha key).joined (hb key) (fun _ hn => hsound.of_get? hn)
    fun m hm n hn => hlevels key m (by simp [hm]) n (by simp [hn])
  refine ⟨⟨fun ⟨r, hr⟩ key => (hjoined key).1.1 ⟨_, get?_addAll hr key⟩,
    fun hshapes => exists_addAll fun key => (hjoined key).1.2 (hshapes key)⟩, ?_⟩
  intro r hr key
  rw [found_append]
  exact (hjoined key).2 _ (get?_addAll hr key)

/-- Which of two results is taken into the other makes no difference. -/
theorem merge (ha : a.Multiplies xs) (hb : b.Multiplies ys) (hasound : a.Sound)
    (hbsound : b.Sound) (hlevels : OneLevel (xs ++ ys)) :
    (Succeeds (a.merge b) ↔
        ∀ key, ∀ m ∈ found key xs, ∀ n ∈ found key ys, m.shape = n.shape) ∧
      ∀ r, a.merge b = .ok r → r.Multiplies (xs ++ ys) := by
  rw [Results.merge]
  split
  next =>
    have hswap : (ys ++ xs).Perm (xs ++ ys) := List.perm_append_comm
    obtain ⟨hsucceeds, hmultiplies⟩ :=
      hb.addAll ha hasound (hlevels.mono fun r hr => hswap.mem_iff.1 hr)
    refine ⟨hsucceeds.trans ?_, fun r hr => (hmultiplies r hr).perm hswap⟩
    exact forall_congr' fun key => ⟨fun h m hm n hn => (h n hn m hm).symm,
      fun h m hm n hn => (h n hn m hm).symm⟩
  next => exact ha.addAll hb hbsound hlevels

end Multiplies

/-- Results that operations on results lead to. -/
inductive Built : Results R → Prop
  | empty : Built SortedMap.empty
  | add {a r : Results R} {key : ResultKey R} {m : Matrix R} (ha : Built a) (hm : m.Built)
      (hadd : a.add key m = .ok r) : Built r
  | merge {a b r : Results R} (ha : Built a) (hb : Built b) (hmerge : a.merge b = .ok r) : Built r

theorem Built.sound [ProbabilityRules R] {r : Results R} (hr : r.Built) : r.Sound := by
  induction hr with
  | empty => exact sound_empty
  | add _ hm hadd ih => exact (ih.of_add hm.sound hadd).1
  | merge _ _ hmerge iha ihb => exact (iha.of_merge ihb hmerge).1

end Results

end SeismicHazard

end
