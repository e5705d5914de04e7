import SeismicHazard.Proofs.Results.Parts
import SeismicHazard.Results.Schedule

/-!
# Results do not depend on grouping

Partial results can be merged two by two in any order and any grouping, with empty results anywhere
between them. Either all of these ways succeed with one outcome or none does, and which of the two
it is can be seen from the shapes of the matrices alone. Schedules are such groupings.
-/

noncomputable section

namespace SeismicHazard

variable {R : Type} [Scalar R]

/-- How partial results are merged, two by two. -/
inductive Grouping (R : Type) [Scalar R] where
  | part (results : Results R)
  | both (left right : Grouping R)

namespace Grouping

open Results

/-- The partial results from left to right. -/
def parts : Grouping R → List (Results R)
  | part results => [results]
  | both left right => left.parts ++ right.parts

/-- The outcome of merging. -/
def merged : Grouping R → Except (Error R) (Results R)
  | part results => .ok results
  | both left right => do
      let a ← left.merged
      let b ← right.merged
      a.merge b

section Spec

variable [KeyRules R] [ProbabilityRules R]

/-- Merging succeeds exactly when the parts have one shape under every key, and then multiplies
them. -/
theorem merged_spec {g : Grouping R} (hsound : ∀ r ∈ g.parts, r.Sound)
    (hlevels : OneLevel g.parts) :
    (Succeeds g.merged ↔ OneShape g.parts) ∧
      ∀ r, g.merged = .ok r → r.Multiplies g.parts ∧ r.Sound := by
  induction g with
  | part results =>
      have hone : OneShape [results] := by
        intro key m hm n hn
        simp only [mem_found, List.mem_singleton, exists_eq_left] at hm hn
        rw [Option.some.inj (hm.symm.trans hn)]
      refine ⟨iff_of_true ⟨results, rfl⟩ hone, fun r hr => ?_⟩
      obtain rfl := Except.ok.inj hr
      exact ⟨.singleton results, hsound results (List.mem_singleton_self _)⟩
  | both left right ihl ihr =>
      simp only [parts, List.forall_mem_append] at hsound hlevels ⊢
      obtain ⟨hleft, hleftspec⟩ :=
        ihl hsound.1 (hlevels.mono fun r hr => List.mem_append_left _ hr)
      obtain ⟨hright, hrightspec⟩ :=
        ihr hsound.2 (hlevels.mono fun r hr => List.mem_append_right _ hr)
      have hmerge : ∀ a b, left.merged = .ok a → right.merged = .ok b →
          (Succeeds (a.merge b) ↔ ∀ key, ∀ m ∈ found key left.parts,
            ∀ n ∈ found key right.parts, m.shape = n.shape) ∧
          ∀ r, a.merge b = .ok r → r.Multiplies (left.parts ++ right.parts) ∧ r.Sound := by
        intro a b ha hb
        obtain ⟨hamultiplies, hasound⟩ := hleftspec a ha
        obtain ⟨hbmultiplies, hbsound⟩ := hrightspec b hb
        obtain ⟨hsucceeds, hmultiplies⟩ :=
          hamultiplies.merge hbmultiplies hasound hbsound hlevels
        exact ⟨hsucceeds, fun r hr => ⟨hmultiplies r hr, (hasound.of_merge hbsound hr).1⟩⟩
      simp only [merged, bind_eq_ok, succeeds_bind, oneShape_append]
      constructor
      · constructor
        · rintro ⟨a, ha, b, hb, hr⟩
          exact ⟨hleft.1 ⟨a, ha⟩, hright.1 ⟨b, hb⟩, (hmerge a b ha hb).1.1 hr⟩
        · rintro ⟨hl, hr, hboth⟩
          obtain ⟨a, ha⟩ := hleft.2 hl
          obtain ⟨b, hb⟩ := hright.2 hr
          exact ⟨a, ha, b, hb, (hmerge a b ha hb).1.2 hboth⟩
      · rintro r ⟨a, ha, b, hb, hr⟩
        exact (hmerge a b ha hb).2 r hr

end Spec

/-- The parts of a grouping, but for their order and for empty ones, are those of a list. -/
def Covers (g : Grouping R) (parts : List (Results R)) : Prop :=
  ∃ k, g.parts.Perm (parts ++ List.replicate k SortedMap.empty)

variable {g h : Grouping R} {parts : List (Results R)}

theorem Covers.found_perm (hg : g.Covers parts) (key : ResultKey R) :
    (found key g.parts).Perm (found key parts) := by
  obtain ⟨k, hperm⟩ := hg
  have hempties : found key (List.replicate k SortedMap.empty) = [] := by
    rw [List.eq_nil_iff_forall_not_mem]
    intro m hm
    obtain ⟨part, hpart, hm⟩ := mem_found.1 hm
    rw [List.eq_of_mem_replicate hpart] at hm
    simp at hm
  have hfound := Results.found_perm hperm key
  rwa [found_append, hempties, List.append_nil] at hfound

variable [KeyRules R] [ProbabilityRules R]

/-- What merging makes of parts, whatever the grouping. -/
theorem Covers.merged_spec (hg : g.Covers parts) (hsound : ∀ r ∈ parts, r.Sound)
    (hlevels : OneLevel parts) :
    (Succeeds g.merged ↔ OneShape parts) ∧ ∀ r, g.merged = .ok r → r.Multiplies parts := by
  have hmem : ∀ key m, m ∈ found key g.parts ↔ m ∈ found key parts :=
    fun key m => (hg.found_perm key).mem_iff
  obtain ⟨hsucceeds, hspec⟩ : (Succeeds g.merged ↔ OneShape g.parts) ∧
      ∀ r, g.merged = .ok r → r.Multiplies g.parts ∧ r.Sound := by
    refine Grouping.merged_spec (fun r hr => ?_) ?_
    · obtain ⟨k, hperm⟩ := hg
      rcases List.mem_append.1 (hperm.mem_iff.1 hr) with hpart | hempty
      · exact hsound r hpart
      · rw [List.eq_of_mem_replicate hempty]
        exact sound_empty
    · intro key m hm n hn
      exact hlevels key m ((hmem key m).1 hm) n ((hmem key n).1 hn)
  constructor
  · rw [hsucceeds]
    simp only [OneShape, hmem]
  · intro r hr key
    exact ((hspec r hr).1 key).perm (hg.found_perm key)

/-- Two groupings of the same parts have one outcome where products do not round. -/
theorem Covers.merged_eq [ExactRules R] (hg : g.Covers parts) (hh : h.Covers parts)
    (hsound : ∀ r ∈ parts, r.Sound) (hlevels : OneLevel parts) :
    g.merged.toOption = h.merged.toOption := by
  obtain ⟨hgsucceeds, hgspec⟩ := hg.merged_spec hsound hlevels
  obtain ⟨hhsucceeds, hhspec⟩ := hh.merged_spec hsound hlevels
  apply toOption_eq
  · intro r hr
    obtain ⟨r', hr'⟩ := hhsucceeds.2 (hgsucceeds.1 ⟨r, hr⟩)
    rw [hr', ((hhspec r' hr').sameFactors (hgspec r hr)).eq]
  · intro r hr
    obtain ⟨r', hr'⟩ := hgsucceeds.2 (hhsucceeds.1 ⟨r, hr⟩)
    rw [hr', ((hgspec r' hr').sameFactors (hhspec r hr)).eq]

end Grouping

/-! ## Schedules as groupings -/

namespace Schedule

variable {τ : Type}

/-- The grouping in which a schedule merges the results of its tasks. -/
def grouping (results : τ → Results R) : Schedule τ → Grouping R
  | segment tasks =>
      tasks.foldl (fun g task => .both g (.part (results task))) (.part SortedMap.empty)
  | join left right => .both (left.grouping results) (right.grouping results)

variable {results : τ → Results R} {worker : τ → Except (Error R) (Results R)}

theorem merged_foldl (tasks : List τ) (hworker : ∀ task ∈ tasks, worker task = .ok (results task))
    (g : Grouping R) :
    (tasks.foldl (fun g task => .both g (.part (results task))) g).merged = (do
      let acc ← g.merged
      tasks.foldlM (fun acc task => do acc.merge (← worker task)) acc) := by
  induction tasks generalizing g with
  | nil => simp
  | cons task rest ih =>
      obtain ⟨hhead, hrest⟩ := List.forall_mem_cons.1 hworker
      simp only [List.foldl_cons, ih hrest, Grouping.merged, bind_assoc, List.foldlM_cons, hhead]

/-- A schedule merges as its grouping does. -/
theorem merged_grouping {schedule : Schedule τ}
    (hworker : ∀ task ∈ schedule.tasks, worker task = .ok (results task)) :
    (schedule.grouping results).merged = schedule.run worker := by
  induction schedule with
  | segment tasks => exact merged_foldl tasks hworker _
  | join left right ihl ihr =>
      simp only [tasks, List.forall_mem_append] at hworker
      rw [grouping, Grouping.merged, ihl hworker.1, ihr hworker.2, run]

theorem parts_foldl (tasks : List τ) (g : Grouping R) :
    (tasks.foldl (fun g task => .both g (.part (results task))) g).parts =
      g.parts ++ tasks.map results := by
  induction tasks generalizing g with
  | nil => simp
  | cons task rest ih => simp [ih, Grouping.parts]

/-- Every segment starts from empty results. -/
theorem covers_grouping (schedule : Schedule τ) :
    (schedule.grouping results).Covers (schedule.tasks.map results) := by
  induction schedule with
  | segment tasks =>
      refine ⟨1, ?_⟩
      rw [grouping, parts_foldl]
      exact List.perm_append_comm
  | join left right ihl ihr =>
      obtain ⟨k, hk⟩ := ihl
      obtain ⟨l, hl⟩ := ihr
      refine ⟨k + l, ?_⟩
      rw [grouping, Grouping.parts, tasks, List.map_append, List.replicate_add]
      refine (hk.append hl).trans ?_
      simp only [List.append_assoc]
      exact (List.perm_append_comm_assoc _ _ _).append_left _

/-- A schedule of worker results is a grouping of them. -/
theorem exists_grouping {tasks : List τ} {parts : List (Results R)}
    (hworker : tasks.mapM worker = .ok parts) {schedule : Schedule τ}
    (hperm : schedule.tasks.Perm tasks) :
    ∃ g : Grouping R, g.Covers parts ∧ g.merged = schedule.run worker := by
  have hpairs := mapM_eq_ok.1 hworker
  let results (task : τ) : Results R := (worker task).toOption.getD SortedMap.empty
  have hresults : ∀ task part, worker task = .ok part → results task = part :=
    fun task part hpart => by simp [results, hpart, Except.toOption]
  have hparts : tasks.map results = parts := by
    rw [← List.forall₂_eq_eq_eq, List.forall₂_map_left_iff]
    exact hpairs.imp hresults
  refine ⟨schedule.grouping results, ?_, merged_grouping fun task htask => ?_⟩
  · obtain ⟨k, hk⟩ : (schedule.grouping results).Covers (schedule.tasks.map results) :=
      covers_grouping schedule
    exact ⟨k, hparts ▸ hk.trans ((hperm.map results).append_right _)⟩
  · obtain ⟨part, hpart⟩ := succeeds_mapM.1 ⟨parts, hworker⟩ task (hperm.mem_iff.1 htask)
    rw [hpart, hresults task part hpart]

end Schedule

namespace Results

/-- Whatever the grouping, merging succeeds exactly when the matrices under every key have one
shape. The outcome then has the keys of all parts, their shapes and levels, and in a cell a product
of what the parts have there. Schedules succeed as groupings do. None of this needs exact
arithmetic. -/
theorem outcome_of_covers [KeyRules R] [ProbabilityRules R] {parts : List (Results R)}
    (hbuilt : ∀ part ∈ parts, part.Built) (hlevels : OneLevel parts) {g : Grouping R}
    (hg : g.Covers parts) :
    (Succeeds g.merged ↔ OneShape parts) ∧
    (∀ r, g.merged = .ok r → ∀ key,
      ((∃ m, r.get? key = some m) ↔ ∃ part ∈ parts, ∃ n, part.get? key = some n) ∧
      ∀ m, r.get? key = some m →
        (∀ part ∈ parts, ∀ n, part.get? key = some n → m.shape = n.shape ∧ m.level = n.level) ∧
        ∀ c eps, m.shape.holds c = true → eps < m.shape.eps →
          IsProduct ((parts.filterMap (·.get? key)).map fun n => n.pne c eps) (m.pne c eps)) ∧
    ∀ {τ : Type} {tasks : List τ} {worker : τ → Except (Error R) (Results R)},
      tasks.mapM worker = .ok parts → ∀ schedule : Schedule τ, schedule.tasks.Perm tasks →
        (Succeeds (schedule.run worker) ↔ OneShape parts) := by
  have hsound : ∀ part ∈ parts, part.Sound := fun part hpart => (hbuilt part hpart).sound
  obtain ⟨hsucceeds, hmultiplies⟩ := hg.merged_spec hsound hlevels
  refine ⟨hsucceeds, fun r hr key => ?_, fun hworker schedule hperm => ?_⟩
  · have hkey := hmultiplies r hr key
    refine ⟨?_, fun m hm => ?_⟩
    · rw [hkey.some_iff]
      simp only [mem_found]
      constructor
      · rintro ⟨n, part, hpart, hn⟩
        exact ⟨part, hpart, n, hn⟩
      · rintro ⟨part, hpart, n, hn⟩
        exact ⟨n, part, hpart, hn⟩
    · rw [hm] at hkey
      obtain ⟨_, hframe, hpne⟩ := hkey
      refine ⟨fun part hpart n hn => ?_, hpne⟩
      obtain ⟨hshape, hlevel⟩ := hframe n (mem_found.2 ⟨part, hpart, hn⟩)
      exact ⟨hshape.symm, hlevel.symm⟩
  · obtain ⟨h, hh, hrun⟩ := Schedule.exists_grouping hworker hperm
    rw [← hrun]
    exact (hh.merged_spec hsound hlevels).1

variable {parts : List (Results ℝ)}

/-- Merging is a commutative monoid on partial results with one level under each key: whether it
succeeds, and with what outcome, depends on the parts alone. It succeeds exactly when the matrices
under every key have one shape. The outcome then has the keys of all parts, and a cell is the
product over the parts that have the key. Schedules of worker results are no exception. -/
theorem merged_of_covers (hbuilt : ∀ part ∈ parts, part.Built) (hlevels : OneLevel parts)
    {g : Grouping ℝ} (hg : g.Covers parts) :
    ((∃ r, g.merged = .ok r) ↔ OneShape parts) ∧
    (∀ r, g.merged = .ok r → ∀ key,
      ((∃ m, r.get? key = some m) ↔ ∃ part ∈ parts, ∃ n, part.get? key = some n) ∧
      ∀ m, r.get? key = some m →
        (∀ part ∈ parts, ∀ n, part.get? key = some n → m.shape = n.shape ∧ m.level = n.level) ∧
        ∀ c eps, m.shape.holds c = true → eps < m.shape.eps →
          m.pne c eps = ((parts.filterMap (·.get? key)).map fun n => n.pne c eps).prod) ∧
    (∀ h : Grouping ℝ, h.Covers parts → h.merged.toOption = g.merged.toOption) ∧
    ∀ {τ : Type} {tasks : List τ} {worker : τ → Except (Error ℝ) (Results ℝ)},
      tasks.mapM worker = .ok parts → ∀ schedule : Schedule τ, schedule.tasks.Perm tasks →
        (schedule.run worker).toOption = ((Schedule.segment tasks).run worker).toOption ∧
        (schedule.run worker).toOption = g.merged.toOption := by
  have hsound : ∀ part ∈ parts, part.Sound := fun part hpart => (hbuilt part hpart).sound
  obtain ⟨hsucceeds, houtcome, _⟩ := outcome_of_covers hbuilt hlevels hg
  have hsame : ∀ h : Grouping ℝ, h.Covers parts → h.merged.toOption = g.merged.toOption :=
    fun h hh => hh.merged_eq hg hsound hlevels
  refine ⟨hsucceeds, ?_, hsame, ?_⟩
  · intro r hr key
    obtain ⟨hkey, hmatrix⟩ := houtcome r hr key
    refine ⟨hkey, fun m hm => ?_⟩
    obtain ⟨hframe, hpne⟩ := hmatrix m hm
    exact ⟨hframe, fun c eps hcell heps => (hpne c eps hcell heps).eq_prod⟩
  · intro τ tasks worker hworker schedule hperm
    obtain ⟨h, hh, hrun⟩ := Schedule.exists_grouping hworker hperm
    obtain ⟨h', hh', hrun'⟩ :=
      Schedule.exists_grouping hworker (.refl (Schedule.segment tasks).tasks)
    rw [← hrun, ← hrun', hsame h hh, hsame h' hh']
    exact ⟨rfl, rfl⟩

end Results

namespace Sample

open Results

def key : ResultKey ℝ := ⟨0, 0, ⟨1 / 10⟩, "PGA", ["Crust"]⟩

/-- A matrix of one cell with the given non-exceedance, at level 1. -/
def single (pne : ℝ) : Matrix ℝ := ⟨⟨1, 1, 1, 1, 1, 1⟩, 1, #[pne], rfl⟩

/-- Results with a matrix of one cell under one key. -/
def singleResults (pne : ℝ) : Results ℝ :=
  SortedMap.empty.insert key (single pne)

theorem singleResults_built {pne : ℝ} (hnonneg : 0 ≤ pne) (hle : pne ≤ 1) :
    (singleResults pne).Built := by
  have hvalues : (single pne).nonExceedance = #[1 - pne].map fun p => 1 - p := by simp [single]
  have hpoes : ∀ p ∈ #[1 - pne].toList, 0 ≤ p ∧ p ≤ 1 := by
    intro p hp
    rw [List.mem_singleton.1 hp]
    constructor <;> linarith
  have hmatrix : Matrix.ofExceedances ⟨1, 1, 1, 1, 1, 1⟩ 1 #[1 - pne] = .ok (single pne) :=
    Matrix.ofExceedances_exact.2 ⟨rfl, hpoes, rfl, rfl, hvalues⟩
  exact .add .empty (.ofExceedances hmatrix) rfl

theorem get?_singleResults (pne : ℝ) (k : ResultKey ℝ) :
    (singleResults pne).get? k =
      if k = key then some (single pne) else none := by
  rw [singleResults, SortedMap.get?_insert, SortedMap.get?_empty]

/-- Two partial results for one cell, the second one first and with empty results between them. -/
theorem swapped_merged :
    ∃ r m, Grouping.merged (.both (.part (singleResults (3 / 4)))
        (.both (.part SortedMap.empty) (.part (singleResults (1 / 2))))) = .ok r ∧
      r.get? key = some m ∧ m.level = 1 ∧
      m.pne ⟨0, 0, 0, 0, 0⟩ 0 = 1 / 2 * (3 / 4) := by
  have hbuilt : ∀ part ∈ [singleResults (1 / 2), singleResults (3 / 4)], part.Built := by
    simp only [List.forall_mem_cons]
    exact ⟨singleResults_built (by norm_num) (by norm_num),
      singleResults_built (by norm_num) (by norm_num), by simp⟩
  have hfound : ∀ k, ∀ m ∈ found k [singleResults (1 / 2), singleResults (3 / 4)],
      m.level = 1 ∧ m.shape = ⟨1, 1, 1, 1, 1, 1⟩ := by
    intro k m hm
    obtain ⟨part, hpart, hm⟩ := mem_found.1 hm
    obtain ⟨pne, rfl⟩ : ∃ pne, part = singleResults pne := by
      rcases List.mem_pair.1 hpart with rfl | rfl
      · exact ⟨_, rfl⟩
      · exact ⟨_, rfl⟩
    rw [get?_singleResults] at hm
    split at hm
    next => exact Option.some.inj hm ▸ ⟨rfl, rfl⟩
    next => simp at hm
  obtain ⟨hsucceeds, hspec, _⟩ := merged_of_covers hbuilt
    (fun k m hm n hn => (hfound k m hm).1.trans (hfound k n hn).1.symm)
    (g := .both (.part (singleResults (3 / 4)))
      (.both (.part SortedMap.empty) (.part (singleResults (1 / 2)))))
    ⟨1, List.Perm.trans (.cons _ (.swap _ _ _)) (.swap _ _ _)⟩
  obtain ⟨r, hr⟩ := hsucceeds.2
    fun k m hm n hn => (hfound k m hm).2.trans (hfound k n hn).2.symm
  obtain ⟨hkeys, hcells⟩ := hspec r hr key
  have hfirst : (singleResults (1 / 2)).get? key = some (single (1 / 2)) := by
    rw [get?_singleResults, if_pos rfl]
  have hsecond : (singleResults (3 / 4)).get? key = some (single (3 / 4)) := by
    rw [get?_singleResults, if_pos rfl]
  obtain ⟨m, hm⟩ := hkeys.2 ⟨_, List.mem_cons_self, _, hfirst⟩
  obtain ⟨hframe, hpne⟩ := hcells m hm
  obtain ⟨hshape, hlevel⟩ := hframe _ List.mem_cons_self _ hfirst
  refine ⟨r, m, hr, hm, hlevel, ?_⟩
  rw [hpne _ _ (hshape ▸ rfl) (hshape ▸ Nat.one_pos)]
  simp only [List.filterMap_cons, hfirst, hsecond]
  simp [single, Matrix.pne, Shape.index]

end Sample

end SeismicHazard

end
