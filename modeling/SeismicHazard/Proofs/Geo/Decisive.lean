import SeismicHazard.Proofs.Geo.BoundingBox

/-!
# Which longitudes decide a box

A few longitudes of a list decide its box when every other one lies between two of them on its own
side of the meridian of Greenwich. The extremes are then the same, and what is left of the list lies
across the antimeridian exactly when the few do.
-/

noncomputable section

namespace SeismicHazard

open Longitude

/-! ## Extremes of parts of lists -/

/-- What is picked out of a list is picked out of each part of it that goes as far. -/
theorem picked_eq_of_part {op : ℝ → ℝ → ℝ} {r : ℝ → ℝ → Prop} (hrefl : ∀ a, r a a)
    (htrans : ∀ a b c, r a b → r b c → r a c) (hantisymm : ∀ a b, r a b → r b a → a = b)
    (hchoice : ∀ a b, op a b = a ∨ op a b = b) (hleft : ∀ a b, r (op a b) a)
    (hright : ∀ a b, r (op a b) b) {part xs : List ℝ} (hpart : ∀ x ∈ part, x ∈ xs)
    (hfar : ∀ x ∈ xs, ∃ y ∈ part, r y x) : picked op xs = picked op part := by
  by_cases hnil : xs = []
  · subst hnil
    rw [List.eq_nil_iff_forall_not_mem.2 fun x hx => List.not_mem_nil (hpart x hx)]
  · obtain ⟨m, hm, hpicked, hall⟩ := picked_spec hrefl htrans hchoice hleft hright hnil
    obtain ⟨y, hy, hym⟩ := hfar m hm
    obtain ⟨n, hn, hpicked', hall'⟩ :=
      picked_spec hrefl htrans hchoice hleft hright (List.ne_nil_of_mem hy)
    rw [hpicked, hpicked', hantisymm m n (hall n (hpart n hn)) (htrans _ _ _ (hall' y hy) hym)]

theorem least?_eq_of_part {part xs : List ℝ} (hpart : ∀ x ∈ part, x ∈ xs)
    (hfar : ∀ x ∈ xs, ∃ y ∈ part, y ≤ x) : Scalar.least? xs = Scalar.least? part := by
  rw [least?_eq_picked, least?_eq_picked]
  exact picked_eq_of_part le_refl (fun _ _ _ => le_trans) (fun _ _ => le_antisymm) min_choice
    min_le_left min_le_right hpart hfar

theorem greatest?_eq_of_part {part xs : List ℝ} (hpart : ∀ x ∈ part, x ∈ xs)
    (hfar : ∀ x ∈ xs, ∃ y ∈ part, x ≤ y) : Scalar.greatest? xs = Scalar.greatest? part := by
  rw [greatest?_eq_picked, greatest?_eq_picked]
  exact picked_eq_of_part (r := fun a b => b ≤ a) le_refl (fun _ _ _ hab hbc => hbc.trans hab)
    (fun _ _ hab hba => le_antisymm hba hab) max_choice le_max_left le_max_right hpart hfar

namespace BoundingBox

/-- A few longitudes of a list that every other one lies between. -/
structure Decides (few lons : List ℝ) : Prop where
  mem : ∀ lon ∈ few, lon ∈ lons
  between : ∀ lon ∈ lons, Between few lon

namespace Decides

variable {few lons : List ℝ}

theorem least?_eq (h : Decides few lons) : Scalar.least? lons = Scalar.least? few :=
  least?_eq_of_part h.mem fun lon hlon => (h.between lon hlon).least

theorem greatest?_eq (h : Decides few lons) : Scalar.greatest? lons = Scalar.greatest? few :=
  greatest?_eq_of_part h.mem fun lon hlon => (h.between lon hlon).greatest

theorem leastPositive_eq (h : Decides few lons) :
    Scalar.least? (lons.filter fun lon => decide (0 < lon)) =
      Scalar.least? (few.filter fun lon => decide (0 < lon)) := by
  apply least?_eq_of_part
  · intro lon hlon
    obtain ⟨hlon, hpos⟩ := List.mem_filter.1 hlon
    exact List.mem_filter.2 ⟨h.mem lon hlon, hpos⟩
  · intro lon hlon
    obtain ⟨hlon, hpos⟩ := List.mem_filter.1 hlon
    obtain ⟨p, hp, hppos, hle⟩ := (h.between lon hlon).positive (of_decide_eq_true hpos)
    exact ⟨p, List.mem_filter.2 ⟨hp, decide_eq_true hppos⟩, hle⟩

theorem greatestNegative_eq (h : Decides few lons) :
    Scalar.greatest? (lons.filter fun lon => decide (lon < 0)) =
      Scalar.greatest? (few.filter fun lon => decide (lon < 0)) := by
  apply greatest?_eq_of_part
  · intro lon hlon
    obtain ⟨hlon, hneg⟩ := List.mem_filter.1 hlon
    exact List.mem_filter.2 ⟨h.mem lon hlon, hneg⟩
  · intro lon hlon
    obtain ⟨hlon, hneg⟩ := List.mem_filter.1 hlon
    obtain ⟨q, hq, hqneg, hle⟩ := (h.between lon hlon).negative (of_decide_eq_true hneg)
    exact ⟨q, List.mem_filter.2 ⟨hq, decide_eq_true hqneg⟩, hle⟩

/-- A way across the antimeridian stays shorter than half a turn when it is made shorter, or a
full turn back. -/
theorem turn_lt_of_le {x y : ℝ} (hlow : -360 ≤ y) (hle : y ≤ x) (hneg : x < 0)
    (hhalf : turn x < 180) : turn y < 180 := by
  rcases hlow.eq_or_lt with rfl | hlow
  · rw [turn_eq_of (-1) (y := 0) (by norm_num) le_rfl (by norm_num)]
    norm_num
  · have hx : turn x = x + 360 :=
      turn_eq_of (-1) (by push_cast; ring) (by linarith) (by linarith)
    rw [turn_eq_of (-1) (y := y + 360) (by push_cast; ring) (by linarith) (by linarith)]
    linarith

/-- All longitudes lie between two edges across the antimeridian when the few do. -/
theorem all_between (h : Decides few lons) (hrange : ∀ lon ∈ lons, -180 ≤ lon ∧ lon ≤ 180)
    {west east : ℝ} (hwest : west ∈ few) (hpos : 0 < west)
    (hleast : ∀ lon ∈ lons, 0 < lon → west ≤ lon) (heast : east ∈ few) (hneg : east < 0)
    (hgreatest : ∀ lon ∈ lons, lon < 0 → lon ≤ east)
    (hfew : ∀ lon ∈ few, turn (lon - west) < 180 ∧ turn (east - lon) < 180) {lon : ℝ}
    (hlon : lon ∈ lons) : turn (lon - west) < 180 ∧ turn (east - lon) < 180 := by
  have hway := (hfew west hwest).2
  obtain ⟨hlow, hhigh⟩ := hrange lon hlon
  have hwesthigh := (hrange west (h.mem west hwest)).2
  have heastlow := (hrange east (h.mem east heast)).1
  rcases lt_trichotomy lon 0 with hlonneg | rfl | hlonpos
  · have hle := hgreatest lon hlon hlonneg
    constructor
    · exact turn_lt_of_le (by linarith) (by linarith) (by linarith) hway
    · rw [turn_eq_self (by linarith) (by linarith)]
      linarith
  · exact hfew 0 ((h.between 0 hlon).greenwich rfl)
  · have hle := hleast lon hlon hlonpos
    constructor
    · rw [turn_eq_self (by linarith) (by linarith)]
      linarith
    · exact turn_lt_of_le (by linarith) (by linarith) (by linarith) hway

theorem acrossAntimeridian?_eq (h : Decides few lons)
    (hrange : ∀ lon ∈ lons, -180 ≤ lon ∧ lon ≤ 180) :
    acrossAntimeridian? lons = acrossAntimeridian? few := by
  simp only [acrossAntimeridian?, Scalar.zero_exact, h.leastPositive_eq, h.greatestNegative_eq]
  cases hwest : Scalar.least? (few.filter fun lon => decide (0 < lon)) with
  | none => rfl
  | some west =>
      cases heast : Scalar.greatest? (few.filter fun lon => decide (lon < 0)) with
      | none => rfl
      | some east =>
          obtain ⟨hwestmem, hpos⟩ := List.mem_filter.1 (mem_of_least? hwest)
          obtain ⟨heastmem, hneg⟩ := List.mem_filter.1 (mem_of_greatest? heast)
          rw [← h.leastPositive_eq] at hwest
          rw [← h.greatestNegative_eq] at heast
          have hall : lons.all (BoundingBox.between west east) =
              few.all (BoundingBox.between west east) := by
            rw [Bool.eq_iff_iff, List.all_eq_true, List.all_eq_true]
            constructor
            · exact fun hlons lon hlon => hlons lon (h.mem lon hlon)
            · intro hfew lon hlon
              rw [between_exact]
              exact h.all_between hrange hwestmem (of_decide_eq_true hpos)
                (fun lon hlon hpos => le_of_least? hwest
                  (List.mem_filter.2 ⟨hlon, decide_eq_true hpos⟩))
                heastmem (of_decide_eq_true hneg)
                (fun lon hlon hneg => le_of_greatest? heast
                  (List.mem_filter.2 ⟨hlon, decide_eq_true hneg⟩))
                (fun lon hlon => (between_exact _ _ lon).1 (hfew lon hlon)) hlon
          simp only [Option.bind_eq_bind, Option.bind_some, hall]

/-- The box of some points has the edges of the box of the few that decide it. Only its latitudes
are those of all points. -/
theorem ofPoints_eq (h : Decides few lons) (hnonempty : lons ≠ []) {lats lats' : List ℝ}
    (hlength : lons.length = lats.length) (hlength' : few.length = lats'.length) :
    ofPoints lons lats =
      (fun box => { box with north := greatestOf lats, south := leastOf lats }) <$>
        ofPoints few lats' := by
  have hfew : few ≠ [] := by
    obtain ⟨lon, hlon⟩ := List.exists_mem_of_ne_nil lons hnonempty
    obtain ⟨least, hleast, _⟩ := (h.between lon hlon).least
    exact List.ne_nil_of_mem hleast
  have hleast : leastOf lons = leastOf few := by rw [leastOf, leastOf, h.least?_eq]
  have hgreatest : greatestOf lons = greatestOf few := by
    rw [greatestOf, greatestOf, h.greatest?_eq]
  have hlengths : (lons.isEmpty || lons.length != lats.length) = false := by
    simp [hnonempty, hlength]
  have hlengths' : (few.isEmpty || few.length != lats'.length) = false := by
    simp [hfew, hlength']
  simp only [ofPoints, hleast, hgreatest, hlengths, hlengths', Bool.false_eq_true, if_false]
  split
  next => rfl
  next hrange =>
    rw [← hleast, ← hgreatest] at hrange
    rw [h.acrossAntimeridian?_eq (within_of_extremes hrange)]
    split
    next =>
      cases acrossAntimeridian? few with
      | none => rfl
      | some edges => rfl
    next => rfl

end Decides

end BoundingBox

end SeismicHazard

end
