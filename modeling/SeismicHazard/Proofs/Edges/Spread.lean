import SeismicHazard.Proofs.Edges.Alike
import SeismicHazard.Proofs.Geo.BoundingBox

/-!
# What bounds reach around

The extremes of some ruptures enclose each of them, and every extreme is that of a rupture. The box
of their closest points therefore contains all of these points, as long as they do not lie at both
ends of the range of longitudes.
-/

noncomputable section

namespace SeismicHazard

open Longitude

namespace Spread

/-- A rupture, given by its distance and closest point, within some extremes. -/
structure Covers (s : Spread ℝ) (x : ℝ × Point ℝ) : Prop where
  dist : s.minDist ≤ x.1 ∧ x.1 ≤ s.maxDist
  lon : s.minLon ≤ x.2.lon ∧ x.2.lon ≤ s.maxLon
  lat : s.minLat ≤ x.2.lat ∧ x.2.lat ≤ s.maxLat
  positive : 0 < x.2.lon → ∃ p, s.minPositiveLon = some p ∧ p ≤ x.2.lon
  negative : x.2.lon < 0 → ∃ q, s.maxNegativeLon = some q ∧ x.2.lon ≤ q
  greenwich : x.2.lon = 0 → s.onGreenwich = true

theorem covers_single (x : ℝ × Point ℝ) : (single x.1 x.2).Covers x where
  dist := ⟨le_rfl, le_rfl⟩
  lon := ⟨le_rfl, le_rfl⟩
  lat := ⟨le_rfl, le_rfl⟩
  positive h := ⟨x.2.lon, by simp [single, h], le_rfl⟩
  negative h := ⟨x.2.lon, by simp [single, h], le_rfl⟩
  greenwich h := by simp [single, h]

theorem Covers.join_left {s t : Spread ℝ} {x : ℝ × Point ℝ} (h : s.Covers x) :
    (s.join t).Covers x where
  dist := by
    simp only [join, Scalar.lesser_exact, Scalar.greater_exact]
    exact ⟨min_le_of_left_le h.dist.1, le_max_of_le_left h.dist.2⟩
  lon := by
    simp only [join, Scalar.lesser_exact, Scalar.greater_exact]
    exact ⟨min_le_of_left_le h.lon.1, le_max_of_le_left h.lon.2⟩
  lat := by
    simp only [join, Scalar.lesser_exact, Scalar.greater_exact]
    exact ⟨min_le_of_left_le h.lat.1, le_max_of_le_left h.lat.2⟩
  positive hpos := by
    obtain ⟨p, hp, hle⟩ := h.positive hpos
    simp only [join, hp]
    cases t.minPositiveLon with
    | none => exact ⟨p, rfl, hle⟩
    | some q => exact ⟨_, rfl, by rw [Scalar.lesser_exact]; exact min_le_of_left_le hle⟩
  negative hneg := by
    obtain ⟨q, hq, hle⟩ := h.negative hneg
    simp only [join, hq]
    cases t.maxNegativeLon with
    | none => exact ⟨q, rfl, hle⟩
    | some p => exact ⟨_, rfl, by rw [Scalar.greater_exact]; exact le_max_of_le_left hle⟩
  greenwich hzero := by simp [join, h.greenwich hzero]

theorem Covers.join_right {s t : Spread ℝ} {x : ℝ × Point ℝ} (h : t.Covers x) :
    (s.join t).Covers x :=
  (join_comm t s).eq ▸ h.join_left

theorem mem_decisiveLons {s : Spread ℝ} {lon : ℝ} :
    lon ∈ s.decisiveLons ↔ lon = s.minLon ∨ lon = s.maxLon ∨ s.minPositiveLon = some lon ∨
      s.maxNegativeLon = some lon ∨ s.onGreenwich = true ∧ lon = 0 := by
  cases hgreenwich : s.onGreenwich <;> simp [decisiveLons, hgreenwich]

theorem lon_of_mem_single {x : ℝ × Point ℝ} {lon : ℝ}
    (hlon : lon ∈ (single x.1 x.2).decisiveLons) : lon = x.2.lon := by
  rcases mem_decisiveLons.1 hlon with h | h | h | h | ⟨hzero, rfl⟩
  · exact h
  · exact h
  · simp only [single] at h
    split at h
    next => exact (Option.some.inj h).symm
    next => simp at h
  · simp only [single] at h
    split at h
    next => exact (Option.some.inj h).symm
    next => simp at h
  · have heq := (Scalar.same_exact _ _).1 hzero
    rw [Scalar.zero_exact] at heq
    exact heq.symm

theorem combine_choice {op : ℝ → ℝ → ℝ} (hchoice : ∀ a b, op a b = a ∨ op a b = b)
    {a b : Option ℝ} {lon : ℝ} (h : combine op a b = some lon) : a = some lon ∨ b = some lon := by
  cases a with
  | none => exact .inr h
  | some x =>
      cases b with
      | none => exact .inl h
      | some y =>
          rw [← Option.some.inj h]
          exact (hchoice x y).imp (fun heq => congrArg some heq.symm)
            (fun heq => congrArg some heq.symm)

theorem lesser_choice (a b : ℝ) : Scalar.lesser a b = a ∨ Scalar.lesser a b = b := by
  rw [Scalar.lesser_exact]
  exact min_choice a b

theorem greater_choice (a b : ℝ) : Scalar.greater a b = a ∨ Scalar.greater a b = b := by
  rw [Scalar.greater_exact]
  exact max_choice a b

/-- What decides a box of two sets of ruptures decides that of one of them. -/
theorem mem_decisiveLons_join {s t : Spread ℝ} {lon : ℝ} (hlon : lon ∈ (s.join t).decisiveLons) :
    lon ∈ s.decisiveLons ∨ lon ∈ t.decisiveLons := by
  simp only [mem_decisiveLons]
  rcases mem_decisiveLons.1 hlon with rfl | rfl | h | h | ⟨hzero, rfl⟩
  · exact (lesser_choice s.minLon t.minLon).imp .inl .inl
  · exact (greater_choice s.maxLon t.maxLon).imp (.inr ∘ .inl) (.inr ∘ .inl)
  · exact (combine_choice lesser_choice h).imp (.inr ∘ .inr ∘ .inl) (.inr ∘ .inr ∘ .inl)
  · exact (combine_choice greater_choice h).imp (.inr ∘ .inr ∘ .inr ∘ .inl)
      (.inr ∘ .inr ∘ .inr ∘ .inl)
  · rcases Bool.or_eq_true_iff.1 hzero with h | h
    · exact .inl (.inr (.inr (.inr (.inr ⟨h, rfl⟩))))
    · exact .inr (.inr (.inr (.inr (.inr ⟨h, rfl⟩))))

/-- Extremes that are those of some ruptures and enclose all of them. -/
structure Of (s : Spread ℝ) (xs : List (ℝ × Point ℝ)) : Prop where
  covers : ∀ x ∈ xs, s.Covers x
  decisive : ∀ lon ∈ s.decisiveLons, ∃ x ∈ xs, x.2.lon = lon
  positive : ∀ p, s.minPositiveLon = some p → 0 < p
  negative : ∀ q, s.maxNegativeLon = some q → q < 0

theorem of_single (x : ℝ × Point ℝ) : (single x.1 x.2).Of [x] where
  covers := by simpa using covers_single x
  decisive _ hlon := ⟨x, List.mem_cons_self, (lon_of_mem_single hlon).symm⟩
  positive p hp := by
    simp only [single, Scalar.zero_exact] at hp
    split at hp
    next hpos => exact Option.some.inj hp ▸ hpos
    next => simp at hp
  negative q hq := by
    simp only [single, Scalar.zero_exact] at hq
    split at hq
    next hneg => exact Option.some.inj hq ▸ hneg
    next => simp at hq

theorem Of.join {s t : Spread ℝ} {xs ys : List (ℝ × Point ℝ)} (hs : s.Of xs) (ht : t.Of ys) :
    (s.join t).Of (xs ++ ys) where
  covers x hx := by
    rcases List.mem_append.1 hx with hx | hx
    · exact (hs.covers x hx).join_left
    · exact (ht.covers x hx).join_right
  decisive lon hlon := by
    rcases mem_decisiveLons_join hlon with hlon | hlon
    · obtain ⟨x, hx, heq⟩ := hs.decisive lon hlon
      exact ⟨x, List.mem_append_left _ hx, heq⟩
    · obtain ⟨x, hx, heq⟩ := ht.decisive lon hlon
      exact ⟨x, List.mem_append_right _ hx, heq⟩
  positive p hp := (combine_choice lesser_choice hp).elim (hs.positive p) (ht.positive p)
  negative q hq := (combine_choice greater_choice hq).elim (hs.negative q) (ht.negative q)

/-- Extremes that some ruptures take, and the number of the ruptures. -/
structure Attains (s : Spread ℝ) (xs : List (ℝ × Point ℝ)) : Prop where
  count : s.count = xs.length
  minDist : ∃ x ∈ xs, x.1 = s.minDist
  maxDist : ∃ x ∈ xs, x.1 = s.maxDist
  minLat : ∃ x ∈ xs, x.2.lat = s.minLat
  maxLat : ∃ x ∈ xs, x.2.lat = s.maxLat

theorem attains_single (x : ℝ × Point ℝ) : (single x.1 x.2).Attains [x] where
  count := rfl
  minDist := ⟨x, List.mem_cons_self, rfl⟩
  maxDist := ⟨x, List.mem_cons_self, rfl⟩
  minLat := ⟨x, List.mem_cons_self, rfl⟩
  maxLat := ⟨x, List.mem_cons_self, rfl⟩

/-- The value that an operation picks out of two is taken in one of two lists. -/
theorem exists_of_choice {op : ℝ → ℝ → ℝ} (hchoice : ∀ a b, op a b = a ∨ op a b = b)
    {value : ℝ × Point ℝ → ℝ} {xs ys : List (ℝ × Point ℝ)} {a b : ℝ}
    (ha : ∃ x ∈ xs, value x = a) (hb : ∃ y ∈ ys, value y = b) :
    ∃ z ∈ xs ++ ys, value z = op a b := by
  obtain ⟨x, hx, rfl⟩ := ha
  obtain ⟨y, hy, rfl⟩ := hb
  rcases hchoice (value x) (value y) with h | h
  · exact ⟨x, List.mem_append_left _ hx, h.symm⟩
  · exact ⟨y, List.mem_append_right _ hy, h.symm⟩

theorem Attains.join {s t : Spread ℝ} {xs ys : List (ℝ × Point ℝ)} (hs : s.Attains xs)
    (ht : t.Attains ys) : (s.join t).Attains (xs ++ ys) where
  count := by rw [List.length_append, ← hs.count, ← ht.count]; rfl
  minDist := exists_of_choice lesser_choice hs.minDist ht.minDist
  maxDist := exists_of_choice greater_choice hs.maxDist ht.maxDist
  minLat := exists_of_choice lesser_choice hs.minLat ht.minLat
  maxLat := exists_of_choice greater_choice hs.maxLat ht.maxLat

theorem Of.between {s : Spread ℝ} {xs : List (ℝ × Point ℝ)} (hs : s.Of xs) {x : ℝ × Point ℝ}
    (hx : x ∈ xs) : BoundingBox.Between s.decisiveLons x.2.lon where
  least := ⟨s.minLon, mem_decisiveLons.2 (.inl rfl), (hs.covers x hx).lon.1⟩
  greatest := ⟨s.maxLon, mem_decisiveLons.2 (.inr (.inl rfl)), (hs.covers x hx).lon.2⟩
  positive hpos := by
    obtain ⟨p, hp, hle⟩ := (hs.covers x hx).positive hpos
    exact ⟨p, mem_decisiveLons.2 (.inr (.inr (.inl hp))), hs.positive p hp, hle⟩
  negative hneg := by
    obtain ⟨q, hq, hle⟩ := (hs.covers x hx).negative hneg
    exact ⟨q, mem_decisiveLons.2 (.inr (.inr (.inr (.inl hq)))), hs.negative q hq, hle⟩
  greenwich hzero :=
    mem_decisiveLons.2 (.inr (.inr (.inr (.inr ⟨(hs.covers x hx).greenwich hzero, rfl⟩))))

theorem boundingBox_eq_ok {s : Spread ℝ} {box : BoundingBox ℝ} (hbox : s.boundingBox = .ok box) :
    ∃ b, BoundingBox.ofPoints s.decisiveLons (List.replicate s.decisiveLons.length s.minLat) =
      .ok b ∧ box = { b with north := s.maxLat } := by
  obtain ⟨b, hb, heq⟩ := bind_eq_ok.1 hbox
  exact ⟨b, hb, (pure_eq_ok.1 heq).symm⟩

theorem south_boundingBox {s : Spread ℝ} {box : BoundingBox ℝ} (hbox : s.boundingBox = .ok box) :
    box.south = s.minLat := by
  obtain ⟨b, hb, rfl⟩ := boundingBox_eq_ok hbox
  obtain ⟨hnonempty, _, _, hsouth, _⟩ := BoundingBox.ofPoints_eq_ok hb
  have hlats : List.replicate s.decisiveLons.length s.minLat ≠ [] := by simpa using hnonempty
  obtain ⟨lat, hlat, hleast, _⟩ := least?_spec hlats
  change b.south = s.minLat
  rw [hsouth, BoundingBox.leastOf, hleast, Option.getD_some, List.eq_of_mem_replicate hlat]

theorem north_boundingBox {s : Spread ℝ} {box : BoundingBox ℝ} (hbox : s.boundingBox = .ok box) :
    box.north = s.maxLat := by
  obtain ⟨b, _, rfl⟩ := boundingBox_eq_ok hbox
  rfl

/-- The box of some ruptures is less than half a turn wide and reaches around all of them. -/
theorem Of.turn_le {s : Spread ℝ} {xs : List (ℝ × Point ℝ)} {box : BoundingBox ℝ} (hs : s.Of xs)
    (hbox : s.boundingBox = .ok box)
    (hends : ¬((∃ x ∈ xs, x.2.lon = -180) ∧ ∃ x ∈ xs, x.2.lon = 180)) :
    turn (box.east - box.west) < 180 ∧
      ∀ x ∈ xs, turn (x.2.lon - box.west) ≤ turn (box.east - box.west) := by
  obtain ⟨b, hb, rfl⟩ := boundingBox_eq_ok hbox
  obtain ⟨hhalf, hall⟩ := BoundingBox.turn_le_of_ofPoints hb fun hboth =>
    hends ⟨hs.decisive _ hboth.1, hs.decisive _ hboth.2⟩
  exact ⟨hhalf, fun x hx => hall _ (hs.between hx)⟩

/-- The box of closest points at both ends of the range of longitudes. -/
theorem Of.west_east_of_ends {s : Spread ℝ} {xs : List (ℝ × Point ℝ)} {box : BoundingBox ℝ}
    (hs : s.Of xs) (hbox : s.boundingBox = .ok box) {x y : ℝ × Point ℝ} (hx : x ∈ xs)
    (hlow : x.2.lon = -180) (hy : y ∈ xs) (hhigh : y.2.lon = 180) :
    box.west = -180 ∧ box.east = 180 := by
  obtain ⟨b, hb, rfl⟩ := boundingBox_eq_ok hbox
  obtain ⟨_, _, _, _, hrange, _⟩ := BoundingBox.ofPoints_eq_ok hb
  have hmin : s.minLon ∈ s.decisiveLons := mem_decisiveLons.2 (.inl rfl)
  have hmax : s.maxLon ∈ s.decisiveLons := mem_decisiveLons.2 (.inr (.inl rfl))
  have hminLon : s.minLon = -180 :=
    le_antisymm (hlow ▸ (hs.covers x hx).lon.1) (hrange _ hmin).1
  have hmaxLon : s.maxLon = 180 :=
    le_antisymm (hrange _ hmax).2 (hhigh ▸ (hs.covers y hy).lon.2)
  change b.west = -180 ∧ b.east = 180
  exact BoundingBox.west_east_of_ends hb (hminLon ▸ hmin) (hmaxLon ▸ hmax)

end Spread

namespace SiteBounds

/-- Bounds that are those of some ruptures. -/
def Of (bounds : SiteBounds ℝ) (xs : List (ℝ × Point ℝ)) : Prop :=
  match bounds.spread? with
  | none => xs = []
  | some s => s.Of xs ∧ s.Attains xs

theorem Of.size {bounds : SiteBounds ℝ} {xs : List (ℝ × Point ℝ)} (h : bounds.Of xs) :
    bounds.size = xs.length := by
  obtain ⟨spread?⟩ := bounds
  cases spread? with
  | none =>
      obtain rfl : xs = [] := h
      rfl
  | some s => exact h.2.count

theorem Of.merge {a b : SiteBounds ℝ} {xs ys : List (ℝ × Point ℝ)} (ha : a.Of xs)
    (hb : b.Of ys) : (a.merge b).Of (xs ++ ys) := by
  obtain ⟨left?⟩ := a
  obtain ⟨right?⟩ := b
  cases right? with
  | none =>
      obtain rfl : ys = [] := hb
      cases left? <;> simpa [SiteBounds.merge] using ha
  | some t =>
      cases left? with
      | none =>
          obtain rfl : xs = [] := ha
          exact hb
      | some s => exact ⟨ha.1.join hb.1, ha.2.join hb.2⟩

theorem of_single (x : ℝ × Point ℝ) : (single x.1 x.2).Of [x] :=
  ⟨Spread.of_single x, Spread.attains_single x⟩

theorem ofList_of (xs : List (ℝ × Point ℝ)) : (ofList xs).Of xs := by
  induction xs using List.reverseRecOn with
  | nil => rfl
  | append_singleton before x ih =>
      rw [ofList_append_singleton]
      exact ih.merge (of_single x)

/-- The bounds of some ruptures are their extremes. -/
theorem of_ofList {xs : List (ℝ × Point ℝ)} {s : Spread ℝ} (hbounds : ofList xs = ⟨some s⟩) :
    s.Of xs := by
  have hof := ofList_of xs
  rw [hbounds] at hof
  exact hof.1

end SiteBounds

/-- The range of some magnitudes encloses them. -/
theorem MagRange.encloses_ofList {mags : List ℝ} {range : MagRange ℝ}
    (hrange : MagRange.ofList mags = some range) {mag : ℝ} (hmag : mag ∈ mags) :
    range.low ≤ mag ∧ mag ≤ range.high := by
  induction mags using List.reverseRecOn generalizing range with
  | nil => simp at hmag
  | append_singleton before last ih =>
      rw [MagRange.ofList, List.foldl_append, List.foldl_cons, List.foldl_nil,
        ← MagRange.ofList] at hrange
      cases hbefore : (MagRange.ofList before : Option (MagRange ℝ)) with
      | none =>
          have hnil : before = [] := by
            by_contra hnonempty
            obtain ⟨r, hr⟩ := MagRange.exists_range hnonempty
            simp [hr] at hbefore
          subst hnil
          rw [hbefore] at hrange
          rw [← Option.some.inj hrange, List.mem_singleton.1 hmag]
          exact ⟨le_rfl, le_rfl⟩
      | some r =>
          rw [hbefore] at hrange
          rw [← Option.some.inj hrange]
          simp only [Scalar.lesser_exact, Scalar.greater_exact]
          rcases List.mem_append.1 hmag with hmag | hmag
          · obtain ⟨hlow, hhigh⟩ := ih hbefore hmag
            exact ⟨min_le_of_left_le hlow, le_max_of_le_left hhigh⟩
          · rw [List.mem_singleton.1 hmag]
            exact ⟨min_le_right _ _, le_max_right _ _⟩

end SeismicHazard

end
