import SeismicHazard.Geo.BoundingBox
import SeismicHazard.Proofs.Geo.Longitude

/-!
# What a box reaches around

The box of some longitudes reaches around each of them and around everything between, unless they
lie at both ends of the range. Those two ends are the same meridian, and the box of a full turn
has no extent.
-/

noncomputable section

namespace SeismicHazard

/-! ## Extremes of lists -/

/-- The value that an operation picks out of a list, if it holds any. -/
def picked (op : ℝ → ℝ → ℝ) (xs : List ℝ) : Option ℝ :=
  xs.foldl (fun acc x => some (acc.elim x (fun a => op a x))) none

theorem least?_eq_picked (xs : List ℝ) : Scalar.least? xs = picked min xs := by
  simp only [Scalar.least?, picked, Scalar.isNaN_exact, Bool.false_eq_true, if_false,
    Scalar.lesser_exact]

theorem greatest?_eq_picked (xs : List ℝ) : Scalar.greatest? xs = picked max xs := by
  simp only [Scalar.greatest?, picked, Scalar.isNaN_exact, Bool.false_eq_true, if_false,
    Scalar.greater_exact]

theorem picked_append (op : ℝ → ℝ → ℝ) (xs : List ℝ) (x : ℝ) :
    picked op (xs ++ [x]) = some ((picked op xs).elim x (fun a => op a x)) := by
  simp [picked]

/-- What is picked is in the list, and is related to all of it. -/
theorem picked_spec {op : ℝ → ℝ → ℝ} {r : ℝ → ℝ → Prop} (hrefl : ∀ a, r a a)
    (htrans : ∀ a b c, r a b → r b c → r a c) (hchoice : ∀ a b, op a b = a ∨ op a b = b)
    (hleft : ∀ a b, r (op a b) a) (hright : ∀ a b, r (op a b) b) {xs : List ℝ}
    (hnonempty : xs ≠ []) : ∃ m ∈ xs, picked op xs = some m ∧ ∀ x ∈ xs, r m x := by
  induction xs using List.reverseRecOn with
  | nil => exact absurd rfl hnonempty
  | append_singleton before x ih =>
      rw [picked_append]
      by_cases hbefore : before = []
      · subst hbefore
        exact ⟨x, List.mem_cons_self, rfl, by simpa using hrefl x⟩
      · obtain ⟨m, hm, hpicked, hall⟩ := ih hbefore
        refine ⟨op m x, ?_, by rw [hpicked]; rfl, fun y hy => ?_⟩
        · rcases hchoice m x with h | h
          · rw [h]
            exact List.mem_append_left _ hm
          · rw [h]
            exact List.mem_append_right _ List.mem_cons_self
        · rcases List.mem_append.1 hy with hy | hy
          · exact htrans _ m _ (hleft m x) (hall y hy)
          · rw [List.mem_singleton.1 hy]
            exact hright m x

theorem least?_spec {xs : List ℝ} (hnonempty : xs ≠ []) :
    ∃ m ∈ xs, Scalar.least? xs = some m ∧ ∀ x ∈ xs, m ≤ x := by
  rw [least?_eq_picked]
  exact picked_spec le_refl (fun _ _ _ => le_trans) min_choice min_le_left min_le_right hnonempty

theorem greatest?_spec {xs : List ℝ} (hnonempty : xs ≠ []) :
    ∃ m ∈ xs, Scalar.greatest? xs = some m ∧ ∀ x ∈ xs, x ≤ m := by
  rw [greatest?_eq_picked]
  exact picked_spec (r := fun a b => b ≤ a) le_refl (fun _ _ _ hab hbc => hbc.trans hab) max_choice
    le_max_left le_max_right hnonempty

theorem mem_of_least? {xs : List ℝ} {m : ℝ} (h : Scalar.least? xs = some m) : m ∈ xs := by
  have hnonempty : xs ≠ [] := by
    rintro rfl
    simp [Scalar.least?] at h
  obtain ⟨m', hm', hleast, _⟩ := least?_spec hnonempty
  rw [Option.some.inj (h.symm.trans hleast)]
  exact hm'

theorem mem_of_greatest? {xs : List ℝ} {m : ℝ} (h : Scalar.greatest? xs = some m) : m ∈ xs := by
  have hnonempty : xs ≠ [] := by
    rintro rfl
    simp [Scalar.greatest?] at h
  obtain ⟨m', hm', hgreatest, _⟩ := greatest?_spec hnonempty
  rw [Option.some.inj (h.symm.trans hgreatest)]
  exact hm'

theorem le_of_least? {xs : List ℝ} {m x : ℝ} (h : Scalar.least? xs = some m) (hx : x ∈ xs) :
    m ≤ x := by
  obtain ⟨m', _, hleast, hall⟩ := least?_spec (List.ne_nil_of_mem hx)
  rw [Option.some.inj (h.symm.trans hleast)]
  exact hall x hx

theorem le_of_greatest? {xs : List ℝ} {m x : ℝ} (h : Scalar.greatest? xs = some m) (hx : x ∈ xs) :
    x ≤ m := by
  obtain ⟨m', _, hgreatest, hall⟩ := greatest?_spec (List.ne_nil_of_mem hx)
  rw [Option.some.inj (h.symm.trans hgreatest)]
  exact hall x hx

namespace BoundingBox

open Longitude

/-- A longitude between some of a list, on its own side of the meridian of Greenwich. -/
structure Between (lons : List ℝ) (lon : ℝ) : Prop where
  least : ∃ a ∈ lons, a ≤ lon
  greatest : ∃ b ∈ lons, lon ≤ b
  positive : 0 < lon → ∃ p ∈ lons, 0 < p ∧ p ≤ lon
  negative : lon < 0 → ∃ q ∈ lons, q < 0 ∧ lon ≤ q
  greenwich : lon = 0 → (0 : ℝ) ∈ lons

theorem between_exact (west east lon : ℝ) :
    between west east lon = true ↔ turn (lon - west) < 180 ∧ turn (east - lon) < 180 := by
  simp only [between, Bool.and_eq_true, decide_eq_true_eq, Scalar.zero_exact, extent_nonneg_iff]

/-- Edges across the antimeridian have the sign of their side, and no longitude lies outside. -/
theorem acrossAntimeridian?_eq_some {lons : List ℝ} {west east : ℝ}
    (h : acrossAntimeridian? lons = some (west, east)) :
    (west ∈ lons ∧ 0 < west ∧ ∀ lon ∈ lons, 0 < lon → west ≤ lon) ∧
      (east ∈ lons ∧ east < 0 ∧ ∀ lon ∈ lons, lon < 0 → lon ≤ east) ∧
      ∀ lon ∈ lons, turn (lon - west) < 180 ∧ turn (east - lon) < 180 := by
  simp only [acrossAntimeridian?, Option.bind_eq_bind, Option.bind_eq_some_iff, guard,
    Scalar.zero_exact] at h
  obtain ⟨w, hwest, e, heast, _, hguard, hpair⟩ := h
  obtain ⟨rfl, rfl⟩ := Prod.mk.inj (Option.some.inj hpair)
  have hw := List.mem_filter.1 (mem_of_least? hwest)
  have he := List.mem_filter.1 (mem_of_greatest? heast)
  refine ⟨⟨hw.1, of_decide_eq_true hw.2, fun lon hlon hpos =>
    le_of_least? hwest (List.mem_filter.2 ⟨hlon, decide_eq_true hpos⟩)⟩,
    ⟨he.1, of_decide_eq_true he.2, fun lon hlon hneg =>
    le_of_greatest? heast (List.mem_filter.2 ⟨hlon, decide_eq_true hneg⟩)⟩, fun lon hlon => ?_⟩
  split at hguard
  next hall => exact (between_exact _ _ lon).1 (List.all_eq_true.1 hall lon hlon)
  next => simp [failure] at hguard

/-- Longitudes lie in the range when the least and the greatest of them do. -/
theorem within_of_extremes {lons : List ℝ}
    (hrange : ¬((!Scalar.within (-180) 180 (leastOf lons) ||
      !Scalar.within (-180) 180 (greatestOf lons)) = true)) :
    ∀ lon ∈ lons, -180 ≤ lon ∧ lon ≤ 180 := by
  intro lon hlon
  obtain ⟨west, _, hleast, hall⟩ := least?_spec (List.ne_nil_of_mem hlon)
  obtain ⟨east, _, hgreatest, hall'⟩ := greatest?_spec (List.ne_nil_of_mem hlon)
  simp only [leastOf, greatestOf, hleast, hgreatest, Option.getD_some, Scalar.within,
    Bool.or_eq_true, not_or, Bool.not_eq_true', Bool.not_eq_false, Bool.and_eq_true,
    decide_eq_true_eq] at hrange
  obtain ⟨⟨hlow, _⟩, _, hhigh⟩ := hrange
  have hge := hall lon hlon
  have hle := hall' lon hlon
  exact ⟨by linarith, by linarith⟩

/-- What the edges of a box are, in either case. -/
theorem ofPoints_eq_ok {lons lats : List ℝ} {box : BoundingBox ℝ}
    (hbox : ofPoints lons lats = .ok box) :
    lons ≠ [] ∧ lons.length = lats.length ∧ box.north = greatestOf lats ∧
      box.south = leastOf lats ∧ (∀ lon ∈ lons, -180 ≤ lon ∧ lon ≤ 180) ∧
      (turn (greatestOf lons - leastOf lons) < 180 ∧ box.west = leastOf lons ∧
          box.east = greatestOf lons ∨
        ¬turn (greatestOf lons - leastOf lons) < 180 ∧
          acrossAntimeridian? lons = some (box.west, box.east)) := by
  simp only [ofPoints] at hbox
  split at hbox
  next => simp at hbox
  next hlengths =>
    simp only [Bool.or_eq_true, not_or, List.isEmpty_iff, bne_iff_ne, ne_eq, not_not] at hlengths
    obtain ⟨hnonempty, hlength⟩ := hlengths
    split at hbox
    next => simp at hbox
    next hrange =>
      have hwithin := within_of_extremes hrange
      refine ⟨hnonempty, hlength, ?_⟩
      split at hbox
      next hextent =>
        rw [Scalar.zero_exact, ← not_le, extent_nonneg_iff] at hextent
        split at hbox
        next w e hacross =>
          rw [← Except.ok.inj hbox]
          exact ⟨rfl, rfl, hwithin, .inr ⟨hextent, hacross⟩⟩
        next => simp at hbox
      next hextent =>
        rw [← Except.ok.inj hbox]
        rw [Scalar.zero_exact, not_lt, extent_nonneg_iff] at hextent
        exact ⟨rfl, rfl, hwithin, .inl ⟨hextent, rfl, rfl⟩⟩

/-- From the least longitude to the greatest one, unless they are the two ends of the range. -/
theorem turn_le_of_between {west east lon : ℝ} (hlow : -180 ≤ west) (hhigh : east ≤ 180)
    (hends : ¬(west = -180 ∧ east = 180)) (hwest : west ≤ lon) (heast : lon ≤ east) :
    turn (lon - west) ≤ turn (east - west) := by
  -- a difference of a whole turn needs both ends
  have hlt : east - west < 360 := by
    rcases lt_or_eq_of_le hlow with hgt | heq
    · linarith
    · rcases lt_or_eq_of_le hhigh with hlt | heq'
      · linarith
      · exact absurd ⟨heq.symm, heq'⟩ hends
  rw [turn_eq_self (by linarith) hlt, turn_eq_self (by linarith) (by linarith)]
  linarith

/-- From the least positive longitude across the antimeridian to the greatest negative one. -/
theorem turn_le_of_across {lons : List ℝ} {west east : ℝ}
    (hacross : acrossAntimeridian? lons = some (west, east))
    (hrange : ∀ lon ∈ lons, -180 ≤ lon ∧ lon ≤ 180)
    (hends : ¬((-180 : ℝ) ∈ lons ∧ (180 : ℝ) ∈ lons)) {lon : ℝ} (hlon : Between lons lon) :
    turn (lon - west) ≤ turn (east - west) := by
  obtain ⟨⟨hp, hpos, hpall⟩, ⟨hq, hneg, hqall⟩, hall⟩ := acrossAntimeridian?_eq_some hacross
  obtain ⟨a, ha, hale⟩ := hlon.least
  obtain ⟨b, hb, hble⟩ := hlon.greatest
  have hlow := (hrange a ha).1
  have hhigh := (hrange b hb).2
  have hpw := (hrange _ hp).2
  have hqe := (hrange _ hq).1
  have hgt : -360 < east - west := by
    rcases lt_or_eq_of_le hpw with hlt | heq
    · linarith
    · rcases lt_or_eq_of_le hqe with hlt' | heq'
      · linarith
      · exact absurd ⟨heq' ▸ hq, heq ▸ hp⟩ hends
  have hway : turn (east - west) = east - west + 360 :=
    turn_eq_of (-1) (by push_cast; ring) (by linarith) (by linarith)
  rcases lt_trichotomy lon 0 with hlt | rfl | hlt
  · obtain ⟨q, hq', hqneg, hle⟩ := hlon.negative hlt
    have hqle := hqall q hq' hqneg
    rw [hway, turn_eq_of (-1) (y := lon - west + 360) (by push_cast; ring) (by linarith)
      (by linarith)]
    linarith
  · -- the meridian of Greenwich would be more than half a turn east of the west edge
    have hzero := (hall 0 (hlon.greenwich rfl)).1
    rw [turn_eq_of (-1) (y := 0 - west + 360) (by push_cast; ring) (by linarith)
      (by linarith)] at hzero
    linarith
  · obtain ⟨p, hp', hppos, hle⟩ := hlon.positive hlt
    have hple := hpall p hp' hppos
    rw [hway, turn_eq_self (by linarith) (by linarith)]
    linarith

/-- A box without a full turn reaches around what lies between its longitudes. -/
theorem turn_le_of_ofPoints {lons lats : List ℝ} {box : BoundingBox ℝ}
    (hbox : ofPoints lons lats = .ok box) (hends : ¬((-180 : ℝ) ∈ lons ∧ (180 : ℝ) ∈ lons)) :
    turn (box.east - box.west) < 180 ∧
      ∀ lon, Between lons lon → turn (lon - box.west) ≤ turn (box.east - box.west) := by
  obtain ⟨hnonempty, _, _, _, hrange, hcases⟩ := ofPoints_eq_ok hbox
  obtain ⟨w, hw, hleast, hwest⟩ := least?_spec hnonempty
  obtain ⟨e, he, hgreatest, heast⟩ := greatest?_spec hnonempty
  rcases hcases with ⟨hhalf, hbwest, hbeast⟩ | ⟨_, hacross⟩
  · simp only [leastOf, greatestOf, hleast, hgreatest, Option.getD_some] at hhalf hbwest hbeast
    rw [hbwest, hbeast]
    refine ⟨hhalf, fun lon hlon => ?_⟩
    obtain ⟨a, ha, hale⟩ := hlon.least
    obtain ⟨b, hb, hble⟩ := hlon.greatest
    apply turn_le_of_between (hrange w hw).1 (hrange e he).2
    · rintro ⟨rfl, rfl⟩
      exact hends ⟨hw, he⟩
    · exact (hwest a ha).trans hale
    · exact hble.trans (heast b hb)
  · obtain ⟨⟨hp, _⟩, _, hall⟩ := acrossAntimeridian?_eq_some hacross
    exact ⟨(hall _ hp).2, fun lon hlon => turn_le_of_across hacross hrange hends hlon⟩

/-- Points at one place have a box without extent. -/
theorem ofPoints_of_same {lons lats : List ℝ} {lon lat : ℝ} (hnonempty : lons ≠ [])
    (hlength : lons.length = lats.length) (hlons : ∀ x ∈ lons, x = lon)
    (hlats : ∀ x ∈ lats, x = lat) (hrange : -180 ≤ lon ∧ lon ≤ 180) :
    ofPoints lons lats = .ok ⟨lon, lon, lat, lat⟩ := by
  have hnonempty' : lats ≠ [] := by
    rintro rfl
    exact hnonempty (List.length_eq_zero_iff.1 hlength)
  obtain ⟨west, hwest, hleast, _⟩ := least?_spec hnonempty
  obtain ⟨east, heast, hgreatest, _⟩ := greatest?_spec hnonempty
  obtain ⟨south, hsouth, hleast', _⟩ := least?_spec hnonempty'
  obtain ⟨north, hnorth, hgreatest', _⟩ := greatest?_spec hnonempty'
  have hextent : ¬ Longitude.extent lon lon < 0 := by
    rw [not_lt, extent_nonneg_iff, sub_self, turn_eq_self le_rfl (by norm_num)]
    norm_num
  have hwithin : Scalar.within (-180) 180 lon = true := by
    simp only [Scalar.within, Bool.and_eq_true, decide_eq_true_eq]
    exact ⟨by linarith [hrange.1], by linarith [hrange.2]⟩
  simp only [ofPoints, leastOf, greatestOf, hleast, hgreatest, hleast', hgreatest',
    Option.getD_some, hlons _ hwest, hlons _ heast, hlats _ hsouth, hlats _ hnorth, hwithin,
    Scalar.zero_exact]
  rw [if_neg (by simp [hnonempty, hlength]), if_neg (by simp), if_neg hextent]

/-- The box of longitudes at both ends of the range goes from one end to the other. -/
theorem west_east_of_ends {lons lats : List ℝ} {box : BoundingBox ℝ}
    (hbox : ofPoints lons lats = .ok box) (hlow : (-180 : ℝ) ∈ lons) (hhigh : (180 : ℝ) ∈ lons) :
    box.west = -180 ∧ box.east = 180 := by
  obtain ⟨hnonempty, _, _, _, hrange, hcases⟩ := ofPoints_eq_ok hbox
  obtain ⟨w, hw, hleast, hwest⟩ := least?_spec hnonempty
  obtain ⟨e, he, hgreatest, heast⟩ := greatest?_spec hnonempty
  have hw' : w = -180 := le_antisymm (hwest _ hlow) (hrange w hw).1
  have he' : e = 180 := le_antisymm (hrange e he).2 (heast _ hhigh)
  simp only [leastOf, greatestOf, hleast, hgreatest, Option.getD_some, hw', he'] at hcases
  rcases hcases with ⟨_, hbox⟩ | ⟨hhalf, _⟩
  · exact hbox
  · have hzero : turn (180 - -180) = 0 :=
      turn_eq_of 1 (by norm_num) le_rfl (by norm_num)
    rw [hzero] at hhalf
    norm_num at hhalf

end BoundingBox

end SeismicHazard

end
