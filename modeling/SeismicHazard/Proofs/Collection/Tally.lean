import SeismicHazard.Collection
import SeismicHazard.Proofs.Results.Shares

/-!
# Shares of placed contributions

Every contribution that has something for a target has one share under the key of the target. The
matrix of a target counts these shares, and the results of a site count those of all targets,
however often a target is repeated.
-/

noncomputable section

namespace SeismicHazard.Collection

open Scalar Share

/-- A contribution with its cell. -/
abbrev Placed (R : Type) : Type := Contribution R × Cell

variable {R : Type} [Scalar R]

/-- What a placed contribution counts with under the key of a target. -/
def sharesFor (site : Site R) (ctx : SiteContext R) (key : TargetKey R) (placed : Placed R) :
    Except (Error R) (List (Share R)) :=
  match placed.1.forTarget? key with
  | none => .ok []
  | some bands => do
      let shape ← ctx.edges.shape ctx.regions.size
      shape.reserve
      checkProbabilities bands.pnes
      match shape.locate? placed.2 with
      | none => .error (.broken .cellInShape)
      | some cell =>
          if shape.eps = bands.pnes.length then
            .ok [⟨resultKey site ctx key, shape, bands.level, cell, bands.pnes⟩]
          else .error (.shapeMismatch [shape.eps] [bands.pnes.length])

variable {site : Site R} {ctx : SiteContext R} {key : TargetKey R}

theorem sharesFor_of_some {placed : Placed R} {bands : BandNonExceedance R}
    {shares : List (Share R)}
    (hbands : placed.1.forTarget? key = some bands) :
    sharesFor site ctx key placed = .ok shares ↔
      ∃ shape cell, ctx.edges.shape ctx.regions.size = .ok shape ∧
        shape.reserve (R := R) = .ok () ∧ (∀ p ∈ bands.pnes, isProbability p = true) ∧
        shape.locate? placed.2 = some cell ∧ shape.eps = bands.pnes.length ∧
        shares = [⟨resultKey site ctx key, shape, bands.level, cell, bands.pnes⟩] := by
  simp only [sharesFor, hbands, bind_eq_ok, ← checkProbabilities_eq_ok_iff]
  constructor
  · rintro ⟨shape, hshape, _, hreserve, _, hcheck, h⟩
    split at h
    next => simp at h
    next cell hcell =>
      split at h
      next hlength => exact ⟨shape, cell, hshape, hreserve, hcheck, hcell, hlength,
        (Except.ok.inj h).symm⟩
      next => simp at h
  · rintro ⟨shape, cell, hshape, hreserve, hcheck, hcell, hlength, rfl⟩
    exact ⟨shape, hshape, (), hreserve, (), hcheck, by simp [hcell, hlength]⟩

/-- A share lies in its matrix, whose shape follows from the edges, and is kept under the key of the
target. -/
theorem mem_sharesFor {placed : Placed R} {s : Share R}
    (hs : s ∈ listed (sharesFor site ctx key placed)) :
    s.Fits ∧ s.key = resultKey site ctx key ∧ ctx.edges.shape ctx.regions.size = .ok s.shape ∧
      s.shape.reserve (R := R) = .ok () ∧ s.shape.locate? placed.2 = some s.cell ∧
      placed.1.forTarget? key = some ⟨s.level, s.pnes⟩ := by
  cases hshares : sharesFor site ctx key placed with
  | error e => simp [hshares, listed] at hs
  | ok shares =>
      rw [hshares, listed_ok] at hs
      cases hbands : placed.1.forTarget? key with
      | none =>
          rw [sharesFor, hbands] at hshares
          rw [← Except.ok.inj hshares] at hs
          simp at hs
      | some bands =>
          obtain ⟨shape, cell, hshape, hreserve, hcheck, hcell, hlength, rfl⟩ :=
            (sharesFor_of_some hbands).1 hshares
          rw [List.mem_singleton.1 hs]
          exact ⟨⟨Shape.holds_of_locate? hcell, hlength, hcheck⟩, rfl, hshape, hreserve, hcell, rfl⟩

/-! ## The matrix of a target -/

/-- The matrix that a contribution is multiplied into: the first one starts from the matrix without
exceedance. -/
def opening (ctx : SiteContext R) (level : R) : Option (Matrix R) → Except (Error R) (Matrix R)
  | some m => .ok m
  | none => do Matrix.create (← ctx.edges.shape ctx.regions.size) level

theorem add_of_some {matrix? : Option (Matrix R)} {placed : Placed R} {bands : BandNonExceedance R}
    (hbands : placed.1.forTarget? key = some bands) :
    Arrangement.add key ctx.edges ctx.regions.size matrix? placed = (do
      let m ← opening ctx bands.level matrix?
      some <$> m.accumulate placed.2 bands.pnes) := by
  rw [Arrangement.add, hbands]
  cases matrix? with
  | none => simp [opening]
  | some m => rfl

theorem arrangement_add {matrix? : Option (Matrix R)} {placed : Placed R} {xs ys : List (Share R)}
    (hcounts : MatrixCounts matrix? xs) (hshares : sharesFor site ctx key placed = .ok ys)
    (hxs : ∀ s ∈ xs, ∀ t ∈ ys, s.shape = t.shape ∧ s.level = t.level) :
    ∃ next, Arrangement.add key ctx.edges ctx.regions.size matrix? placed = .ok next ∧
      MatrixCounts next (xs ++ ys) := by
  cases hbands : placed.1.forTarget? key with
  | none =>
      rw [sharesFor, hbands] at hshares
      refine ⟨matrix?, by simp [Arrangement.add, hbands], ?_⟩
      rwa [← Except.ok.inj hshares, List.append_nil]
  | some bands =>
      obtain ⟨shape, cell, hshape, hreserve, hcheck, hcell, hlength, rfl⟩ :=
        (sharesFor_of_some hbands).1 hshares
      -- the first contribution starts from the empty matrix, which counts no shares
      obtain ⟨m, hm, hframe, hmcounts⟩ : ∃ m, opening ctx bands.level matrix? = .ok m ∧
          (m.shape = shape ∧ m.level = bands.level) ∧ m.Counts xs := by
        cases matrix? with
        | none =>
            refine ⟨.empty shape bands.level, ?_, ⟨rfl, rfl⟩, ?_⟩
            · exact bind_eq_ok.2 ⟨shape, hshape, Matrix.create_eq_ok.2 ⟨hreserve, rfl⟩⟩
            · have hnil : xs = [] := hcounts
              subst hnil
              exact .empty shape bands.level
        | some m =>
            obtain ⟨⟨s, hs⟩, hmcounts⟩ := hcounts
            obtain ⟨hsshape, hslevel⟩ := hmcounts.frame s hs
            obtain ⟨hsame, hsame'⟩ := hxs s hs _ List.mem_cons_self
            exact ⟨m, rfl, ⟨hsshape.symm.trans hsame, hslevel.symm.trans hsame'⟩, hmcounts⟩
      obtain ⟨rfl, hlevel⟩ := hframe
      refine ⟨some (m.multiplied cell bands.pnes), ?_,
        ⟨_, List.mem_append_right _ List.mem_cons_self⟩, ?_⟩
      · rw [add_of_some hbands]
        refine bind_eq_ok.2 ⟨m, hm, map_eq_ok.2 ⟨_, ?_, rfl⟩⟩
        exact Matrix.accumulate_eq_ok.2 ⟨hcheck, hlength, cell, hcell, rfl⟩
      · have hfits : Fits ⟨resultKey site ctx key, m.shape, bands.level, cell, bands.pnes⟩ :=
          ⟨Shape.holds_of_locate? hcell, hlength, hcheck⟩
        have hnext := hmcounts.multiplied hfits ⟨rfl, hlevel.symm⟩
        exact hnext

theorem succeeds_sharesFor (site : Site R) {matrix? next : Option (Matrix R)} {placed : Placed R}
    (hframe : ∀ m, matrix? = some m → ctx.edges.shape ctx.regions.size = .ok m.shape ∧
      m.shape.reserve (R := R) = .ok ())
    (hadd : Arrangement.add key ctx.edges ctx.regions.size matrix? placed = .ok next) :
    Succeeds (sharesFor site ctx key placed) ∧
      ∀ m, next = some m → ctx.edges.shape ctx.regions.size = .ok m.shape ∧
        m.shape.reserve (R := R) = .ok () := by
  cases hbands : placed.1.forTarget? key with
  | none =>
      rw [Arrangement.add, hbands] at hadd
      rw [sharesFor, hbands, ← Except.ok.inj hadd]
      exact ⟨⟨_, rfl⟩, hframe⟩
  | some bands =>
      rw [add_of_some hbands] at hadd
      obtain ⟨m, hm, hadd⟩ := bind_eq_ok.1 hadd
      obtain ⟨m', hm', rfl⟩ := map_eq_ok.1 hadd
      obtain ⟨hcheck, hlength, cell, hcell, rfl⟩ := Matrix.accumulate_eq_ok.1 hm'
      have hshape : ctx.edges.shape ctx.regions.size = .ok m.shape ∧
          m.shape.reserve (R := R) = .ok () := by
        cases matrix? with
        | none =>
            obtain ⟨shape, hshape, hm⟩ := bind_eq_ok.1 hm
            obtain ⟨hreserve, rfl⟩ := Matrix.create_eq_ok.1 hm
            exact ⟨hshape, hreserve⟩
        | some present => exact hframe m (congrArg some (Except.ok.inj hm))
      refine ⟨⟨_, (sharesFor_of_some hbands).2 ⟨m.shape, cell, hshape.1, hshape.2, hcheck, hcell,
        hlength, rfl⟩⟩, ?_⟩
      intro n hn
      rw [← Option.some.inj hn]
      exact hshape

variable {contributions : List (Contribution R)} {cells : List Cell}

/-- All shares of placed contributions under the key of a target. -/
def targetShares (site : Site R) (ctx : SiteContext R) (placed : List (Placed R))
    (key : TargetKey R) : List (Share R) :=
  placed.flatMap (fun p => listed (sharesFor site ctx key p))

theorem counts_matrix?
    (hplaced : ∀ p ∈ contributions.zip cells, Succeeds (sharesFor site ctx key p))
    (hcoherent : Coherent (targetShares site ctx (contributions.zip cells) key)) :
    ∃ matrix?,
      Arrangement.matrix? contributions cells key ctx.edges ctx.regions.size = .ok matrix? ∧
      MatrixCounts matrix? (targetShares site ctx (contributions.zip cells) key) := by
  refine foldlM_of_step (motive := fun before matrix? =>
    MatrixCounts matrix? (targetShares site ctx before key)) (b := none) rfl ?_
  intro before p after matrix? hsplit hcounts
  obtain ⟨ys, hys⟩ := hplaced p (by simp [hsplit])
  have hall : targetShares site ctx (contributions.zip cells) key =
      targetShares site ctx before key ++ (ys ++ targetShares site ctx after key) := by
    simp [targetShares, hsplit, hys]
  have hstep := arrangement_add hcounts hys fun s hs t ht => by
    have hsmem : s ∈ targetShares site ctx (contributions.zip cells) key := by simp [hall, hs]
    have htmem : t ∈ targetShares site ctx (contributions.zip cells) key := by simp [hall, ht]
    apply hcoherent s hsmem t htmem
    obtain ⟨q, _, hsq⟩ := List.mem_flatMap.1 hs
    rw [(mem_sharesFor hsq).2.1, (mem_sharesFor (s := t) (by rw [hys]; exact ht)).2.1]
  simpa [targetShares, hys] using hstep

theorem succeeds_of_matrix? {matrix? : Option (Matrix R)}
    (hmatrix : Arrangement.matrix? contributions cells key ctx.edges ctx.regions.size
      = .ok matrix?) : ∀ p ∈ contributions.zip cells, Succeeds (sharesFor site ctx key p) := by
  refine (step_of_foldlM (motive := fun before (matrix? : Option (Matrix R)) =>
    (∀ p ∈ before, Succeeds (sharesFor site ctx key p)) ∧
    ∀ m, matrix? = some m → ctx.edges.shape ctx.regions.size = .ok m.shape ∧
      m.shape.reserve (R := R) = .ok ()) hmatrix (by simp) ?_).1
  intro before p after matrix? next _ hbefore hnext
  obtain ⟨hp, hframe⟩ := succeeds_sharesFor site hbefore.2 hnext
  refine ⟨fun q hq => ?_, hframe⟩
  rcases List.mem_append.1 hq with h | h
  · exact hbefore.1 q h
  · rwa [List.mem_singleton.1 h]

/-! ## The results of all targets -/

/-- All shares of placed contributions, target by target. -/
def tallyShares (site : Site R) (ctx : SiteContext R) (placed : List (Placed R))
    (targets : List (Target R)) : List (Share R) :=
  targets.flatMap fun t => targetShares site ctx placed t.key

theorem tallyShares_append (placed : List (Placed R)) (ts us : List (Target R)) :
    tallyShares site ctx placed (ts ++ us) =
      tallyShares site ctx placed ts ++ tallyShares site ctx placed us :=
  List.flatMap_append

theorem tallyShares_cons (placed : List (Placed R)) (t : Target R) (ts : List (Target R)) :
    tallyShares site ctx placed (t :: ts) =
      targetShares site ctx placed t.key ++ tallyShares site ctx placed ts :=
  List.flatMap_cons

theorem succeeds_of_tally {targets : List (Target R)} {r : Results R}
    (htally : targets.foldlM (addTarget site ctx contributions cells) SortedMap.empty = .ok r) :
    ∀ t ∈ targets, ∀ p ∈ contributions.zip cells, Succeeds (sharesFor site ctx t.key p) := by
  refine step_of_foldlM (motive := fun (before : List (Target R)) _ => ∀ t ∈ before,
    ∀ p ∈ contributions.zip cells, Succeeds (sharesFor site ctx t.key p)) htally (by simp) ?_
  intro before t after acc next _ hbefore hnext u hu
  rcases List.mem_append.1 hu with h | h
  · exact hbefore u h
  · obtain ⟨matrix?, hmatrix, _⟩ := bind_eq_ok.1 hnext
    rw [List.mem_singleton.1 h]
    exact succeeds_of_matrix? hmatrix

variable [KeyRules R] [ProbabilityRules R]

theorem counts_addTarget {acc : Results R} {xs : List (Share R)} {t : Target R}
    (hacc : acc.Counts xs)
    (hplaced : ∀ p ∈ contributions.zip cells, Succeeds (sharesFor site ctx t.key p))
    (hcoherent : Coherent (xs ++ targetShares site ctx (contributions.zip cells) t.key)) :
    ∃ next, addTarget site ctx contributions cells acc t = .ok next ∧
      next.Counts (xs ++ targetShares site ctx (contributions.zip cells) t.key) := by
  have hkeys : ∀ s ∈ targetShares site ctx (contributions.zip cells) t.key,
      s.key = resultKey site ctx t.key ∧ s.Fits := by
    intro s hs
    obtain ⟨p, _, hsp⟩ := List.mem_flatMap.1 hs
    exact ⟨(mem_sharesFor hsp).2.1, (mem_sharesFor hsp).1⟩
  obtain ⟨matrix?, hmatrix, hcounts⟩ := counts_matrix? hplaced
    (hcoherent.mono fun s hs => List.mem_append_right _ hs)
  unfold addTarget
  rw [hmatrix]
  cases matrix? with
  | none =>
      have hnil : targetShares site ctx (contributions.zip cells) t.key = [] := hcounts
      exact ⟨acc, rfl, by rwa [hnil, List.append_nil]⟩
  | some m =>
      exact hacc.add hcounts.2 hcounts.1 (fun s hs => (hkeys s hs).1) hcoherent
        fun s hs => (hkeys s hs).2

/-- The results of all targets count the shares of every target, as often as it is there. -/
theorem counts_tally {targets : List (Target R)}
    (hplaced : ∀ t ∈ targets, ∀ p ∈ contributions.zip cells,
      Succeeds (sharesFor site ctx t.key p))
    (hcoherent : Coherent (tallyShares site ctx (contributions.zip cells) targets)) :
    ∃ r, targets.foldlM (addTarget site ctx contributions cells) SortedMap.empty = .ok r ∧
      Results.Counts r (tallyShares site ctx (contributions.zip cells) targets) := by
  have hstep : ∀ before t after acc, targets = before ++ t :: after →
      Results.Counts acc (tallyShares site ctx (contributions.zip cells) before) →
      ∃ next, addTarget site ctx contributions cells acc t = .ok next ∧
        next.Counts (tallyShares site ctx (contributions.zip cells) (before ++ [t])) := by
    intro before t after acc hsplit hacc
    have hall : tallyShares site ctx (contributions.zip cells) targets =
        tallyShares site ctx (contributions.zip cells) (before ++ [t]) ++
          tallyShares site ctx (contributions.zip cells) after := by
      rw [← tallyShares_append, List.append_assoc, hsplit]
      rfl
    have hlast : tallyShares site ctx (contributions.zip cells) (before ++ [t]) =
        tallyShares site ctx (contributions.zip cells) before ++
          targetShares site ctx (contributions.zip cells) t.key := by
      rw [tallyShares_append, tallyShares_cons]
      exact congrArg _ (List.append_nil _)
    rw [hlast]
    apply counts_addTarget hacc (hplaced t (by simp [hsplit]))
    apply hcoherent.mono
    intro s hs
    rw [hall, hlast]
    exact List.mem_append_left _ hs
  exact foldlM_of_step (f := addTarget site ctx contributions cells) (b := SortedMap.empty)
    (motive := fun before acc =>
      Results.Counts acc (tallyShares site ctx (contributions.zip cells) before))
    Results.Counts.empty hstep

end SeismicHazard.Collection

end
