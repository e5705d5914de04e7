import SeismicHazard.Proofs.Edges.Spread
import SeismicHazard.Proofs.Geo.Decisive

/-!
# Bounds gathered from parts

Bounds are gathered one rupture at a time and from parts, in any order. What is gathered is the
count of the ruptures, their nearest and farthest distance, and as much of their closest points as
decides their box: a box of all of the points is the same, and so is the reason why there is none.
-/

noncomputable section

namespace SeismicHazard

open Scalar

namespace Spread

variable {s : Spread ℝ} {xs ys : List (ℝ × Point ℝ)}

theorem Of.perm (hs : s.Of xs) (hperm : xs.Perm ys) : s.Of ys where
  covers x hx := hs.covers x (hperm.mem_iff.2 hx)
  decisive lon hlon := by
    obtain ⟨x, hx, heq⟩ := hs.decisive lon hlon
    exact ⟨x, hperm.mem_iff.1 hx, heq⟩
  positive := hs.positive
  negative := hs.negative

theorem exists_of_perm {value : ℝ × Point ℝ → ℝ} {a : ℝ} (h : ∃ x ∈ xs, value x = a)
    (hperm : xs.Perm ys) : ∃ y ∈ ys, value y = a := by
  obtain ⟨x, hx, heq⟩ := h
  exact ⟨x, hperm.mem_iff.1 hx, heq⟩

theorem Attains.perm (hs : s.Attains xs) (hperm : xs.Perm ys) : s.Attains ys where
  count := hs.count.trans hperm.length_eq
  minDist := exists_of_perm hs.minDist hperm
  maxDist := exists_of_perm hs.maxDist hperm
  minLat := exists_of_perm hs.minLat hperm
  maxLat := exists_of_perm hs.maxLat hperm

theorem Of.decides (hs : s.Of xs) :
    BoundingBox.Decides s.decisiveLons (xs.map fun x => x.2.lon) where
  mem lon hlon := by
    obtain ⟨x, hx, heq⟩ := hs.decisive lon hlon
    exact List.mem_map.2 ⟨x, hx, heq⟩
  between lon hlon := by
    obtain ⟨x, hx, rfl⟩ := List.mem_map.1 hlon
    exact hs.between hx

theorem least_lat (hs : s.Of xs) (hattains : s.Attains xs) :
    BoundingBox.leastOf (xs.map fun x => x.2.lat) = s.minLat := by
  obtain ⟨x, hx, hlat⟩ := hattains.minLat
  have hmem : s.minLat ∈ xs.map fun x => x.2.lat := List.mem_map.2 ⟨x, hx, hlat⟩
  obtain ⟨m, hm, hleast, hall⟩ := least?_spec (List.ne_nil_of_mem hmem)
  obtain ⟨y, hy, rfl⟩ := List.mem_map.1 hm
  rw [BoundingBox.leastOf, hleast, Option.getD_some]
  exact le_antisymm (hall _ hmem) (hs.covers y hy).lat.1

theorem greatest_lat (hs : s.Of xs) (hattains : s.Attains xs) :
    BoundingBox.greatestOf (xs.map fun x => x.2.lat) = s.maxLat := by
  obtain ⟨x, hx, hlat⟩ := hattains.maxLat
  have hmem : s.maxLat ∈ xs.map fun x => x.2.lat := List.mem_map.2 ⟨x, hx, hlat⟩
  obtain ⟨m, hm, hgreatest, hall⟩ := greatest?_spec (List.ne_nil_of_mem hmem)
  obtain ⟨y, hy, rfl⟩ := List.mem_map.1 hm
  rw [BoundingBox.greatestOf, hgreatest, Option.getD_some]
  exact le_antisymm (hs.covers y hy).lat.2 (hall _ hmem)

/-- The box of some extremes is the box of all closest points. -/
theorem boundingBox_eq_ofPoints (hs : s.Of xs) (hattains : s.Attains xs) :
    s.boundingBox =
      BoundingBox.ofPoints (xs.map fun x => x.2.lon) (xs.map fun x => x.2.lat) := by
  obtain ⟨x, hx, _⟩ := hattains.minDist
  have hnonempty : xs.map (fun x => x.2.lon) ≠ [] := by
    simpa using List.ne_nil_of_mem hx
  have hlength : (xs.map fun x => x.2.lon).length = (xs.map fun x => x.2.lat).length := by simp
  have hlength' : s.decisiveLons.length =
      (List.replicate s.decisiveLons.length s.minLat).length := by simp
  rw [hs.decides.ofPoints_eq hnonempty hlength hlength', least_lat hs hattains,
    greatest_lat hs hattains]
  cases hbox : BoundingBox.ofPoints s.decisiveLons
      (List.replicate s.decisiveLons.length s.minLat) with
  | error e => simp only [boundingBox, hbox]; rfl
  | ok box =>
      have hbox' : s.boundingBox = .ok { box with north := s.maxLat } := by
        simp only [boundingBox, hbox]
        rfl
      have hsouth := south_boundingBox hbox'
      rw [hbox', ← hsouth]
      rfl

theorem isLeast_minDist (hs : s.Of xs) (hattains : s.Attains xs) :
    IsLeast {d | d ∈ xs.map Prod.fst} s.minDist := by
  constructor
  · obtain ⟨x, hx, hdist⟩ := hattains.minDist
    exact List.mem_map.2 ⟨x, hx, hdist⟩
  · intro d hd
    obtain ⟨x, hx, rfl⟩ := List.mem_map.1 hd
    exact (hs.covers x hx).dist.1

theorem isGreatest_maxDist (hs : s.Of xs) (hattains : s.Attains xs) :
    IsGreatest {d | d ∈ xs.map Prod.fst} s.maxDist := by
  constructor
  · obtain ⟨x, hx, hdist⟩ := hattains.maxDist
    exact List.mem_map.2 ⟨x, hx, hdist⟩
  · intro d hd
    obtain ⟨x, hx, rfl⟩ := List.mem_map.1 hd
    exact (hs.covers x hx).dist.2

end Spread

namespace SiteBounds

/-- A way to gather the bounds of ruptures: none, one more of them, or those of two parts. -/
inductive Gathering where
  | nothing
  | insert (part : Gathering) (distance : ℝ) (closest : Point ℝ)
  | merge (left right : Gathering)

namespace Gathering

/-- The ruptures that are gathered, by their distances and closest points. -/
def ruptures : Gathering → List (ℝ × Point ℝ)
  | nothing => []
  | insert part distance closest => part.ruptures ++ [(distance, closest)]
  | merge left right => left.ruptures ++ right.ruptures

/-- The bounds that are gathered, as long as the ruptures can be counted. -/
def bounds : Gathering → Except (Error ℝ) (SiteBounds ℝ)
  | nothing => .ok empty
  | insert part distance closest => do (← part.bounds).join (single distance closest)
  | merge left right => do (← left.bounds).join (← right.bounds)

end Gathering

theorem Of.perm {bounds : SiteBounds ℝ} {xs ys : List (ℝ × Point ℝ)} (h : bounds.Of xs)
    (hperm : xs.Perm ys) : bounds.Of ys := by
  obtain ⟨spread?⟩ := bounds
  cases spread? with
  | none =>
      obtain rfl : xs = [] := h
      exact List.perm_nil.1 hperm.symm
  | some s => exact ⟨h.1.perm hperm, h.2.perm hperm⟩

/-- What joining two parts gives when each part is gathered, or too large to be counted. -/
theorem bind_join_eq {left right : Except (Error ℝ) (SiteBounds ℝ)} {a b : SiteBounds ℝ}
    {m n : Nat} (ha : a.size = m) (hb : b.size = n)
    (hleft : left = if maxCount < m then .error (.broken .ruptureCount) else .ok a)
    (hright : right = if maxCount < n then .error (.broken .ruptureCount) else .ok b) :
    (do (← left).join (← right)) =
      if maxCount < m + n then .error (.broken .ruptureCount) else .ok (a.merge b) := by
  subst ha hb
  by_cases hm : maxCount < a.size
  · rw [hleft, if_pos hm, if_pos (by omega)]
    rfl
  · rw [hleft, if_neg hm]
    by_cases hn : maxCount < b.size
    · rw [hright, if_pos hn, if_pos (by omega)]
      rfl
    · rw [hright, if_neg hn]
      rfl

/-- However bounds are gathered, they are those of the ruptures, or the ruptures are too many to be
counted. -/
theorem exists_bounds (g : Gathering) : ∃ bounds : SiteBounds ℝ, bounds.Of g.ruptures ∧
    g.bounds =
      if maxCount < g.ruptures.length then .error (.broken .ruptureCount) else .ok bounds := by
  induction g with
  | nothing => exact ⟨empty, rfl, rfl⟩
  | insert part distance closest ih =>
      obtain ⟨a, ha, hpart⟩ := ih
      have hof := of_single (distance, closest)
      have hsingle : (.ok (single distance closest) : Except (Error ℝ) (SiteBounds ℝ)) =
          if maxCount < 1 then .error (.broken .ruptureCount)
          else .ok (single distance closest) := rfl
      refine ⟨a.merge (single distance closest), ha.merge hof, ?_⟩
      rw [Gathering.ruptures, List.length_append]
      exact bind_join_eq ha.size hof.size hpart hsingle
  | merge left right ihleft ihright =>
      obtain ⟨a, ha, hleft⟩ := ihleft
      obtain ⟨b, hb, hright⟩ := ihright
      refine ⟨a.merge b, ha.merge hb, ?_⟩
      rw [Gathering.ruptures, List.length_append]
      exact bind_join_eq ha.size hb.size hleft hright

/-- Bounds gathered in any way from parts of a list of ruptures have their number, their nearest and
farthest distance and the box of their closest points, with the same reason if there is none. -/
theorem bounds_of_perm {xs : List (ℝ × Point ℝ)} (hnonempty : xs ≠ []) {g : Gathering}
    (hperm : g.ruptures.Perm xs) :
    ∃ (bounds : SiteBounds ℝ) (nearest farthest : ℝ),
      g.bounds =
        (if maxCount < xs.length then .error (.broken .ruptureCount) else .ok bounds) ∧
      bounds.size = xs.length ∧
      bounds.distanceRange? = some (nearest, farthest) ∧
      IsLeast {d | d ∈ xs.map Prod.fst} nearest ∧
      IsGreatest {d | d ∈ xs.map Prod.fst} farthest ∧
      bounds.boundingBox? = some <$>
        BoundingBox.ofPoints (xs.map fun x => x.2.lon) (xs.map fun x => x.2.lat) := by
  obtain ⟨bounds, hof, hbounds⟩ := exists_bounds g
  rw [hperm.length_eq] at hbounds
  replace hof := hof.perm hperm
  obtain ⟨spread?⟩ := bounds
  cases spread? with
  | none => exact absurd hof hnonempty
  | some s =>
      obtain ⟨hs, hattains⟩ := hof
      exact ⟨_, s.minDist, s.maxDist, hbounds, hattains.count, rfl, s.isLeast_minDist hs hattains,
        s.isGreatest_maxDist hs hattains,
        congrArg (some <$> ·) (s.boundingBox_eq_ofPoints hs hattains)⟩

/-- Three ruptures around the antimeridian. -/
def antimeridianRuptures : List (ℝ × Point ℝ) := [(12, ⟨179, 1⟩), (55, ⟨-178, -1⟩), (31, ⟨180, 0⟩)]

/-- The last two of them are gathered after nothing, and the first one apart. -/
def antimeridianGathering : Gathering :=
  .merge (.merge .nothing (.insert (.insert .nothing 31 ⟨180, 0⟩) 55 ⟨-178, -1⟩))
    (.insert .nothing 12 ⟨179, 1⟩)

theorem bounds_of_antimeridianGathering :
    antimeridianRuptures ≠ [] ∧ antimeridianGathering.ruptures.Perm antimeridianRuptures ∧
      ∃ bounds, antimeridianGathering.bounds = .ok bounds ∧ bounds.size = 3 ∧
        bounds.distanceRange? = some (12, 55) ∧
        bounds.boundingBox? = some <$> BoundingBox.ofPoints [179, -178, 180] [1, -1, 0] := by
  have hnonempty : antimeridianRuptures ≠ [] := List.cons_ne_nil _ _
  have hperm : antimeridianGathering.ruptures.Perm antimeridianRuptures :=
    List.reverse_perm antimeridianRuptures
  obtain ⟨bounds, nearest, farthest, hbounds, hsize, hrange, hnearest, hfarthest, hbox⟩ :=
    bounds_of_perm hnonempty hperm
  have hleast : IsLeast {d | d ∈ antimeridianRuptures.map Prod.fst} 12 := by
    constructor
    · simp [antimeridianRuptures]
    · intro d (hd : d ∈ antimeridianRuptures.map Prod.fst)
      simp only [antimeridianRuptures, List.map_cons, List.map_nil, List.mem_cons,
        List.not_mem_nil, or_false] at hd
      rcases hd with rfl | rfl | rfl <;> norm_num
  have hgreatest : IsGreatest {d | d ∈ antimeridianRuptures.map Prod.fst} 55 := by
    constructor
    · simp [antimeridianRuptures]
    · intro d (hd : d ∈ antimeridianRuptures.map Prod.fst)
      simp only [antimeridianRuptures, List.map_cons, List.map_nil, List.mem_cons,
        List.not_mem_nil, or_false] at hd
      rcases hd with rfl | rfl | rfl <;> norm_num
  rw [hnearest.unique hleast, hfarthest.unique hgreatest] at hrange
  rw [if_neg (by rw [antimeridianRuptures]; decide)] at hbounds
  exact ⟨hnonempty, hperm, bounds, hbounds, hsize, hrange, hbox⟩

end SiteBounds

end SeismicHazard

end
