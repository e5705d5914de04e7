import SeismicHazard.Proofs.Geo.BoundingBox
import SeismicHazard.Proofs.Outcome

/-!
# Which longitudes have a box

Longitudes have a box when they lie on an eastward arc shorter than half a turn, and the box then is
the shortest such arc. Longitudes at both ends of the range have a box too, wherever the others lie,
and that box reaches around the two ends alone.
-/

noncomputable section

namespace SeismicHazard.BoundingBox

open Longitude

/-- All longitudes lie, up to whole turns, on one eastward arc shorter than half a turn. -/
def OnShortArc (lons : List ℝ) : Prop :=
  ∃ start width : ℝ, width < 180 ∧
    ∀ lon ∈ lons, ∃ k : ℤ, start ≤ lon + 360 * k ∧ lon + 360 * k ≤ start + width

/-- Longitudes at both ends of the range, which are one meridian. -/
def BothEnds (lons : List ℝ) : Prop := (-180 : ℝ) ∈ lons ∧ (180 : ℝ) ∈ lons

variable {lons lats : List ℝ} {box : BoundingBox ℝ}

/-- The places of longitudes along an arc: whole turns are added so that any two of them are less
than half a turn apart. -/
def Along (lons : List ℝ) (turns : ℝ → ℤ) : Prop :=
  ∀ a ∈ lons, ∀ b ∈ lons, a + 360 * turns a < b + 360 * turns b + 180

theorem OnShortArc.exists_along (h : OnShortArc lons) : ∃ turns, Along lons turns := by
  obtain ⟨start, width, hwidth, harc⟩ := h
  choose! turns hturns using harc
  refine ⟨turns, fun a ha b hb => ?_⟩
  have hhigh := (hturns a ha).2
  have hlow := (hturns b hb).1
  linarith

theorem onShortArc_of_turn_le {west width : ℝ} (hwidth : width < 180)
    (hall : ∀ lon ∈ lons, turn (lon - west) ≤ width) : OnShortArc lons := by
  refine ⟨west, width, hwidth, fun lon hlon => ?_⟩
  obtain ⟨k, hk⟩ := exists_turn (lon - west)
  have hle := hall lon hlon
  have hnonneg := turn_nonneg (lon - west)
  refine ⟨-k, ?_, ?_⟩
  · push_cast
    linarith
  · push_cast
    linarith

/-- An eastward way within an arc is less than half a turn. -/
theorem Along.turn_lt {turns : ℝ → ℤ} (h : Along lons turns) {a b : ℝ} (ha : a ∈ lons)
    (hb : b ∈ lons) (hle : a + 360 * turns a ≤ b + 360 * turns b) : turn (b - a) < 180 := by
  have hlt := h b hb a ha
  rw [turn_eq_of (turns a - turns b) (y := b + 360 * turns b - (a + 360 * turns a))
    (by push_cast; ring) (by linarith) (by linarith)]
  linarith

/-- Along an arc that crosses the antimeridian the positive longitudes come first, the negative ones
a turn later, and no longitude is between them. -/
def Sides (lons : List ℝ) (turns : ℝ → ℤ) (n : ℤ) : Prop :=
  ∀ lon ∈ lons, 0 < lon ∧ turns lon = n ∨ lon < 0 ∧ turns lon = n + 1

theorem Sides.of_pos {turns : ℝ → ℤ} {n : ℤ} (h : Sides lons turns n) {lon : ℝ}
    (hlon : lon ∈ lons) (hpos : 0 < lon) : turns lon = n := by
  rcases h lon hlon with ⟨_, hturns⟩ | ⟨hneg, _⟩
  · exact hturns
  · exact absurd hneg hpos.not_gt

theorem Sides.of_neg {turns : ℝ → ℤ} {n : ℤ} (h : Sides lons turns n) {lon : ℝ}
    (hlon : lon ∈ lons) (hneg : lon < 0) : turns lon = n + 1 := by
  rcases h lon hlon with ⟨hpos, _⟩ | ⟨_, hturns⟩
  · exact absurd hneg hpos.not_gt
  · exact hturns

/-- An arc crosses the antimeridian where the least and the greatest longitude are half a turn or
more apart. -/
theorem Along.sides {turns : ℝ → ℤ} (h : Along lons turns) {west east : ℝ} (hwest : west ∈ lons)
    (heast : east ∈ lons) (hrange : ∀ lon ∈ lons, west ≤ lon ∧ lon ≤ east)
    (hlow : -180 ≤ west) (hhigh : east ≤ 180) (hwide : 180 ≤ east - west)
    (hlt : east - west < 360) :
    turns west = turns east + 1 ∧ Sides lons turns (turns east) := by
  have hfirst := h east heast west hwest
  have hsecond := h west hwest east heast
  have hone : turns west = turns east + 1 := by
    have hgt : turns east < turns west := by
      have hreal : (turns east : ℝ) < turns west := by linarith
      exact_mod_cast hreal
    have hle : turns west < turns east + 2 := by
      have hreal : (turns west : ℝ) < turns east + 2 := by linarith
      exact_mod_cast hreal
    omega
  refine ⟨hone, fun lon hlon => ?_⟩
  obtain ⟨hge, hle⟩ := hrange lon hlon
  have hleast := h east heast lon hlon
  have hnear := h west hwest lon hlon
  have hfar := h lon hlon east heast
  rw [hone] at hnear
  push_cast at hnear
  rcases lt_trichotomy (turns lon) (turns east) with hbefore | hsame | hafter
  · have hreal : (turns lon : ℝ) + 1 ≤ turns east := by exact_mod_cast hbefore
    linarith
  · rw [hsame] at hnear
    exact .inl ⟨by linarith, hsame⟩
  · have hreal : (turns east : ℝ) + 1 ≤ turns lon := by exact_mod_cast hafter
    refine .inr ⟨by linarith, ?_⟩
    have hlt' : (turns lon : ℝ) < turns east + 2 := by linarith
    have hint : turns lon < turns east + 2 := by exact_mod_cast hlt'
    omega

/-- Edges across the antimeridian are found when every longitude lies between the least positive and
the greatest negative one. -/
theorem exists_acrossAntimeridian? (hpositive : ∃ lon ∈ lons, 0 < lon)
    (hnegative : ∃ lon ∈ lons, lon < 0)
    (hbetween : ∀ west ∈ lons, 0 < west → (∀ lon ∈ lons, 0 < lon → west ≤ lon) →
      ∀ east ∈ lons, east < 0 → (∀ lon ∈ lons, lon < 0 → lon ≤ east) →
      ∀ lon ∈ lons, turn (lon - west) < 180 ∧ turn (east - lon) < 180) :
    ∃ edges, acrossAntimeridian? lons = some edges := by
  obtain ⟨p, hp, hpos⟩ := hpositive
  obtain ⟨q, hq, hneg⟩ := hnegative
  have hpmem : p ∈ lons.filter (fun lon => decide (0 < lon)) :=
    List.mem_filter.2 ⟨hp, decide_eq_true hpos⟩
  have hqmem : q ∈ lons.filter (fun lon => decide (lon < 0)) :=
    List.mem_filter.2 ⟨hq, decide_eq_true hneg⟩
  obtain ⟨west, hwest, hleast, hwestall⟩ := least?_spec (List.ne_nil_of_mem hpmem)
  obtain ⟨east, heast, hgreatest, heastall⟩ := greatest?_spec (List.ne_nil_of_mem hqmem)
  obtain ⟨hwest, hwestpos⟩ := List.mem_filter.1 hwest
  obtain ⟨heast, heastneg⟩ := List.mem_filter.1 heast
  have hall : ∀ lon ∈ lons, between west east lon = true := by
    intro lon hlon
    rw [between_exact]
    exact hbetween west hwest (of_decide_eq_true hwestpos)
      (fun lon hlon hpos => hwestall lon (List.mem_filter.2 ⟨hlon, decide_eq_true hpos⟩))
      east heast (of_decide_eq_true heastneg)
      (fun lon hlon hneg => heastall lon (List.mem_filter.2 ⟨hlon, decide_eq_true hneg⟩)) lon hlon
  refine ⟨(west, east), ?_⟩
  simp only [acrossAntimeridian?, Scalar.zero_exact, hleast, hgreatest, Option.bind_eq_bind,
    Option.bind_some, guard, List.all_eq_true, if_pos hall]
  rfl

/-- An arc that crosses the antimeridian starts at the least positive longitude and ends at the
greatest negative one. -/
theorem Along.exists_across {turns : ℝ → ℤ} (h : Along lons turns) {west east : ℝ}
    (hwest : west ∈ lons) (heast : east ∈ lons)
    (hrange : ∀ lon ∈ lons, west ≤ lon ∧ lon ≤ east) (hlow : -180 ≤ west) (hhigh : east ≤ 180)
    (hwide : 180 ≤ east - west) (hlt : east - west < 360) :
    ∃ edges, acrossAntimeridian? lons = some edges := by
  obtain ⟨hone, hsides⟩ := h.sides hwest heast hrange hlow hhigh hwide hlt
  have hwestneg : west < 0 := by
    rcases hsides west hwest with ⟨_, hturns⟩ | ⟨hneg, _⟩
    · omega
    · exact hneg
  have heastpos : 0 < east := by
    rcases hsides east heast with ⟨hpos, _⟩ | ⟨_, hturns⟩
    · exact hpos
    · omega
  refine exists_acrossAntimeridian? ⟨east, heast, heastpos⟩ ⟨west, hwest, hwestneg⟩ ?_
  intro p hp hpos hleast q hq hneg hgreatest lon hlon
  have hpturns := hsides.of_pos hp hpos
  have hqturns := hsides.of_neg hq hneg
  have hptop := (hrange p hp).2
  have hqbottom := (hrange q hq).1
  -- positive longitudes are on the near side of the antimeridian, negative ones on the far side
  constructor
  · apply h.turn_lt hp hlon
    rcases hsides lon hlon with ⟨hlonpos, hturns⟩ | ⟨hlonneg, hturns⟩
    · rw [hpturns, hturns]
      linarith [hleast lon hlon hlonpos]
    · rw [hpturns, hturns]
      push_cast
      linarith [(hrange lon hlon).1]
  · apply h.turn_lt hlon hq
    rcases hsides lon hlon with ⟨hlonpos, hturns⟩ | ⟨hlonneg, hturns⟩
    · rw [hqturns, hturns]
      push_cast
      linarith [(hrange lon hlon).2]
    · rw [hqturns, hturns]
      linarith [hgreatest lon hlon hlonneg]

/-- There is a box when the way from the least to the greatest longitude is less than half a turn,
or there are edges across the antimeridian. -/
theorem succeeds_ofPoints {west east : ℝ} (hlength : lons.length = lats.length)
    (hrange : ∀ lon ∈ lons, -180 ≤ lon ∧ lon ≤ 180) (hwest : west ∈ lons) (heast : east ∈ lons)
    (hleast : Scalar.least? lons = some west) (hgreatest : Scalar.greatest? lons = some east)
    (hedges : turn (east - west) < 180 ∨ ∃ edges, acrossAntimeridian? lons = some edges) :
    Succeeds (ofPoints lons lats) := by
  have hwithin : ∀ lon ∈ lons, Scalar.within (-180) 180 lon = true := by
    intro lon hlon
    obtain ⟨hlow, hhigh⟩ := hrange lon hlon
    simp only [Scalar.within, Bool.and_eq_true, decide_eq_true_eq]
    exact ⟨by linarith, by linarith⟩
  have hnonempty : lons ≠ [] := List.ne_nil_of_mem hwest
  simp only [ofPoints, leastOf, greatestOf, hleast, hgreatest, Option.getD_some,
    hwithin west hwest, hwithin east heast, Scalar.zero_exact]
  rw [if_neg (by simp [hnonempty, hlength]), if_neg (by simp)]
  split
  next hextent =>
    rw [← not_le, extent_nonneg_iff] at hextent
    obtain ⟨edges, hacross⟩ := hedges.resolve_left hextent
    simp [hacross]
  next => exact succeeds_ok _

theorem BothEnds.extremes (h : BothEnds lons) (hrange : ∀ lon ∈ lons, -180 ≤ lon ∧ lon ≤ 180)
    {west east : ℝ} (hwest : west ∈ lons) (heast : east ∈ lons)
    (hextremes : ∀ lon ∈ lons, west ≤ lon ∧ lon ≤ east) : west = -180 ∧ east = 180 :=
  ⟨le_antisymm (hextremes _ h.1).1 (hrange west hwest).1,
    le_antisymm (hrange east heast).2 (hextremes _ h.2).2⟩

theorem turn_ends : turn (180 - -180) = 0 := turn_eq_of 1 (by norm_num) le_rfl (by norm_num)

/-- Longitudes on a short arc have a box, and so have longitudes at both ends of the range. -/
theorem succeeds_of_onShortArc (h : OnShortArc lons ∨ BothEnds lons) (hnonempty : lons ≠ [])
    (hlength : lons.length = lats.length) (hrange : ∀ lon ∈ lons, -180 ≤ lon ∧ lon ≤ 180) :
    Succeeds (ofPoints lons lats) := by
  obtain ⟨west, hwest, hleast, hwestall⟩ := least?_spec hnonempty
  obtain ⟨east, heast, hgreatest, heastall⟩ := greatest?_spec hnonempty
  have hextremes : ∀ lon ∈ lons, west ≤ lon ∧ lon ≤ east :=
    fun lon hlon => ⟨hwestall lon hlon, heastall lon hlon⟩
  have hlow := (hrange west hwest).1
  have hhigh := (hrange east heast).2
  apply succeeds_ofPoints hlength hrange hwest heast hleast hgreatest
  by_cases hends : BothEnds lons
  · obtain ⟨rfl, rfl⟩ := hends.extremes hrange hwest heast hextremes
    rw [turn_ends]
    exact .inl (by norm_num)
  · obtain ⟨turns, hturns⟩ := (h.resolve_right hends).exists_along
    have hlt : east - west < 360 := by
      by_contra hfull
      have hwest' : west = -180 := by linarith
      have heast' : east = 180 := by linarith
      exact hends ⟨hwest' ▸ hwest, heast' ▸ heast⟩
    rcases lt_or_ge (east - west) 180 with hnarrow | hwide
    · rw [turn_eq_self (by linarith [hextremes east heast]) hlt]
      exact .inl hnarrow
    · exact .inr (hturns.exists_across hwest heast hextremes hlow hhigh hwide hlt)

/-! ## What the box reaches around -/

theorem Between.of_mem {lon : ℝ} (hlon : lon ∈ lons) : Between lons lon where
  least := ⟨lon, hlon, le_rfl⟩
  greatest := ⟨lon, hlon, le_rfl⟩
  positive hpos := ⟨lon, hlon, hpos, le_rfl⟩
  negative hneg := ⟨lon, hlon, hneg, le_rfl⟩
  greenwich hzero := hzero ▸ hlon

/-- A longitude is on the way of a box of less than half a turn when it is no farther east of the
west edge than the east edge is. -/
theorem extent_mem_iff {west east : ℝ} (hhalf : turn (east - west) < 180) (lon : ℝ) :
    0 ≤ Longitude.extent west lon ∧ Longitude.extent west lon ≤ Longitude.extent west east ↔
      turn (lon - west) ≤ turn (east - west) := by
  rw [extent_nonneg_iff, extent_exact west lon, extent_exact west east, if_pos hhalf]
  constructor
  · rintro ⟨hlt, hle⟩
    rwa [if_pos hlt] at hle
  · intro hle
    have hlt : turn (lon - west) < 180 := by linarith
    exact ⟨hlt, by rwa [if_pos hlt]⟩

/-- A full turn leaves nothing of the way from one end of the range to a longitude there. -/
theorem turn_end_eq_zero_iff {lon : ℝ} (hrange : -180 ≤ lon ∧ lon ≤ 180) :
    turn (lon - -180) ≤ 0 ↔ lon = -180 ∨ lon = 180 := by
  constructor
  · intro hzero
    by_contra hinside
    obtain ⟨hlow, hhigh⟩ := not_or.1 hinside
    have hgt : -180 < lon := lt_of_le_of_ne hrange.1 (Ne.symm hlow)
    have hlt : lon < 180 := lt_of_le_of_ne hrange.2 hhigh
    rw [turn_eq_self (by linarith) (by linarith)] at hzero
    linarith
  · rintro (rfl | rfl)
    · rw [sub_self, turn_eq_self le_rfl (by norm_num)]
    · rw [turn_ends]

/-- The edges of a box are longitudes of the list, less than half a turn apart. -/
theorem edges_mem_of_ofPoints (hbox : ofPoints lons lats = .ok box) :
    box.west ∈ lons ∧ box.east ∈ lons ∧ turn (box.east - box.west) < 180 := by
  obtain ⟨hnonempty, _, _, _, _, hcases⟩ := ofPoints_eq_ok hbox
  rcases hcases with ⟨hhalf, hwest, heast⟩ | ⟨_, hacross⟩
  · obtain ⟨west, hmem, hleast, _⟩ := least?_spec hnonempty
    obtain ⟨east, hmem', hgreatest, _⟩ := greatest?_spec hnonempty
    rw [← hwest, ← heast] at hhalf
    rw [leastOf, hleast, Option.getD_some] at hwest
    rw [greatestOf, hgreatest, Option.getD_some] at heast
    exact ⟨hwest ▸ hmem, heast ▸ hmem', hhalf⟩
  · obtain ⟨⟨hwest, _⟩, ⟨heast, _⟩, hall⟩ := acrossAntimeridian?_eq_some hacross
    exact ⟨hwest, heast, (hall _ hwest).2⟩

theorem latitudes_of_ofPoints (hbox : ofPoints lons lats = .ok box) :
    (box.south ∈ lats ∧ ∀ lat ∈ lats, box.south ≤ lat) ∧
      box.north ∈ lats ∧ ∀ lat ∈ lats, lat ≤ box.north := by
  obtain ⟨hnonempty, hlength, hnorth, hsouth, _⟩ := ofPoints_eq_ok hbox
  have hlats : lats ≠ [] := by
    rintro rfl
    exact hnonempty (List.length_eq_zero_iff.1 hlength)
  obtain ⟨south, hmem, hleast, hall⟩ := least?_spec hlats
  obtain ⟨north, hmem', hgreatest, hall'⟩ := greatest?_spec hlats
  rw [hnorth, hsouth, leastOf, hleast, greatestOf, hgreatest]
  exact ⟨⟨hmem, hall⟩, hmem', hall'⟩

/-- A box reaches around all longitudes, unless they lie at both ends of the range and elsewhere. -/
theorem reaches_iff (hbox : ofPoints lons lats = .ok box) :
    (∀ lon ∈ lons, turn (lon - box.west) ≤ turn (box.east - box.west)) ↔
      (BothEnds lons → ∀ lon ∈ lons, lon = -180 ∨ lon = 180) := by
  by_cases hends : BothEnds lons
  · obtain ⟨hwest, heast⟩ := west_east_of_ends hbox hends.1 hends.2
    obtain ⟨_, _, _, _, hrange, _⟩ := ofPoints_eq_ok hbox
    rw [hwest, heast, turn_ends]
    constructor
    · exact fun hall _ lon hlon => (turn_end_eq_zero_iff (hrange lon hlon)).1 (hall lon hlon)
    · exact fun hall lon hlon => (turn_end_eq_zero_iff (hrange lon hlon)).2 (hall hends lon hlon)
  · refine ⟨fun _ h => absurd h hends, fun _ lon hlon => ?_⟩
    exact (turn_le_of_ofPoints hbox hends).2 lon (.of_mem hlon)

theorem onShortArc_of_ofPoints (hbox : ofPoints lons lats = .ok box) (hends : ¬BothEnds lons) :
    OnShortArc lons :=
  onShortArc_of_turn_le (edges_mem_of_ofPoints hbox).2.2
    ((reaches_iff hbox).2 fun h => absurd h hends)

/-- Longitudes in the range have a box exactly when they lie on an eastward arc shorter than half a
turn, or at both ends of the range. The edges of the box are longitudes of the list, less than half
a turn apart, and its latitudes the least and the greatest one. All longitudes lie within, unless
some are at both ends of the range and others are not. -/
theorem ofPoints_of_arc (hnonempty : lons ≠ []) (hlength : lons.length = lats.length)
    (hrange : ∀ lon ∈ lons, -180 ≤ lon ∧ lon ≤ 180) :
    (Succeeds (ofPoints lons lats) ↔ OnShortArc lons ∨ BothEnds lons) ∧
      ∀ box, ofPoints lons lats = .ok box →
        (box.west ∈ lons ∧ box.east ∈ lons ∧ 0 ≤ box.lonExtent ∧ box.lonExtent < 180) ∧
        (box.south ∈ lats ∧ ∀ lat ∈ lats, box.south ≤ lat) ∧
        (box.north ∈ lats ∧ ∀ lat ∈ lats, lat ≤ box.north) ∧
        ((∀ lon ∈ lons,
            0 ≤ Longitude.extent box.west lon ∧ Longitude.extent box.west lon ≤ box.lonExtent) ↔
          (BothEnds lons → ∀ lon ∈ lons, lon = -180 ∨ lon = 180)) := by
  constructor
  · constructor
    · rintro ⟨box, hbox⟩
      by_cases hends : BothEnds lons
      · exact .inr hends
      · exact .inl (onShortArc_of_ofPoints hbox hends)
    · exact fun h => succeeds_of_onShortArc h hnonempty hlength hrange
  · intro box hbox
    obtain ⟨hwest, heast, hhalf⟩ := edges_mem_of_ofPoints hbox
    obtain ⟨hsouth, hnorth⟩ := latitudes_of_ofPoints hbox
    refine ⟨⟨hwest, heast, ?_⟩, hsouth, hnorth, ?_⟩
    · rw [lonExtent, extent_exact, if_pos hhalf]
      exact ⟨turn_nonneg _, hhalf⟩
    · simp only [lonExtent, extent_mem_iff hhalf]
      exact reaches_iff hbox

/-- Three places around the antimeridian, one of them on it. -/
theorem ofPoints_of_arc_antimeridian :
    ([170, -175, -180] : List ℝ) ≠ [] ∧
      (∀ lon ∈ ([170, -175, -180] : List ℝ), -180 ≤ lon ∧ lon ≤ 180) ∧
      ∃ box, ofPoints [170, -175, -180] [0, 1, (2 : ℝ)] = .ok box ∧
        ∀ lon ∈ ([170, -175, -180] : List ℝ),
          0 ≤ Longitude.extent box.west lon ∧ Longitude.extent box.west lon ≤ box.lonExtent := by
  have hnonempty : ([170, -175, -180] : List ℝ) ≠ [] := List.cons_ne_nil _ _
  have hrange : ∀ lon ∈ ([170, -175, -180] : List ℝ), -180 ≤ lon ∧ lon ≤ 180 := by
    norm_num
  have hlength : ([170, -175, -180] : List ℝ).length = [0, 1, (2 : ℝ)].length := rfl
  have harc : OnShortArc [170, -175, -180] := by
    refine ⟨170, 15, by norm_num, ?_⟩
    simp only [List.forall_mem_cons]
    exact ⟨⟨0, by norm_num⟩, ⟨1, by norm_num⟩, ⟨1, by norm_num⟩, by simp⟩
  have hends : ¬BothEnds [170, -175, -180] := by
    rintro ⟨_, hhigh⟩
    norm_num at hhigh
  have hfound := ofPoints_of_arc hnonempty hlength hrange
  obtain ⟨box, hbox⟩ := hfound.1.2 (.inl harc)
  obtain ⟨_, _, _, haround⟩ := hfound.2 box hbox
  exact ⟨hnonempty, hrange, box, hbox, haround.2 fun h => absurd h hends⟩

end SeismicHazard.BoundingBox

end
