import SeismicHazard.Proofs.HazardCurve.Levels

/-!
# Levels invert hazard curves

Between its points a hazard curve is straight in the space of its scale. For a probability that the
curve brackets, the level that is read off it is one at which the line between two neighbouring
points has that probability; where points have the probability themselves, it is the lowest of
their levels. For other probabilities there is no level, or the one at the nearer end, and over all
probabilities levels do not rise.
-/

noncomputable section

namespace SeismicHazard.HazardCurve

variable {scale : InterpolationScale} {p : ℝ} {lower upper : ℝ × ℝ}

/-- The points of a curve from the lowest level up, each with its probability first. -/
def points (curve : HazardCurve ℝ) : List (ℝ × ℝ) := curve.poes.zip curve.levels

theorem map_snd_points (curve : HazardCurve ℝ) : curve.points.map Prod.snd = curve.levels :=
  List.map_snd_zip (accepted_of_fault? curve.accepted).length_eq.le

theorem reverse_points (curve : HazardCurve ℝ) : curve.points.reverse = curve.ascending := rfl

/-! ## Lines between points -/

/-- Where a level lies in the space in which curves of a scale are straight. -/
def coordinate (scale : InterpolationScale) (level : ℝ) : ℝ :=
  match scale with
  | .linear => level
  | .log => Real.log level

/-- The probability that the line through two points has at a level. -/
def onLine (scale : InterpolationScale) (a b : ℝ × ℝ) (level : ℝ) : ℝ :=
  a.1 + (coordinate scale level - coordinate scale a.2) /
    (coordinate scale b.2 - coordinate scale a.2) * (b.1 - a.1)

theorem coordinate_lt {a b : ℝ} (hlt : a < b) (hpositive : scale = .log → 0 < a) :
    coordinate scale a < coordinate scale b := by
  cases scale with
  | linear => exact hlt
  | log => exact Real.log_lt_log (hpositive rfl) hlt

theorem coordinate_interpolate (scale : InterpolationScale) (p : ℝ) (lower upper : ℝ × ℝ) :
    coordinate scale (interpolate scale p lower upper) =
      coordinate scale lower.2 + (p - lower.1) / (upper.1 - lower.1) *
        (coordinate scale upper.2 - coordinate scale lower.2) := by
  cases scale with
  | linear => rfl
  | log => exact Real.log_exp _

/-- The line between two points has the probability for which its level was sought. -/
theorem onLine_interpolate (hpoes : lower.1 < upper.1) (hlevels : upper.2 < lower.2)
    (hpositive : scale = .log → 0 < upper.2) :
    onLine scale upper lower (interpolate scale p lower upper) = p := by
  have hpoes' : upper.1 - lower.1 ≠ 0 := (sub_pos.2 hpoes).ne'
  have hlevels' : coordinate scale lower.2 - coordinate scale upper.2 ≠ 0 :=
    (sub_pos.2 (coordinate_lt hlevels hpositive)).ne'
  rw [onLine, coordinate_interpolate]
  field_simp
  ring

theorem onLine_left (scale : InterpolationScale) (a b : ℝ × ℝ) : onLine scale a b a.2 = a.1 := by
  simp [onLine]

/-! ## Points with a probability -/

theorem exists_getElem?_of_infix {α : Type} {a b : α} {xs : List α} (h : [a, b] <:+: xs) :
    ∃ k, xs[k]? = some a ∧ xs[k + 1]? = some b := by
  obtain ⟨before, after, rfl⟩ := h
  exact ⟨before.length, by simp, by simp⟩

/-- Of the points that have a probability, the last one before the probabilities rise above it has
the lowest level. -/
theorem Descends.lower_of_mem {points : List (ℝ × ℝ)} (h : Descends scale points)
    (hpart : [lower, upper] <:+: points) (hlower : lower.1 ≤ p) (hupper : p < upper.1) {l : ℝ}
    (hmem : (p, l) ∈ points) : lower.1 = p ∧ lower.2 ≤ l := by
  obtain ⟨before, after, rfl⟩ := hpart
  have hordered := h.ordered
  rw [List.append_assoc, List.cons_append, List.cons_append, List.nil_append,
    List.pairwise_append] at hordered
  obtain ⟨_, hrest, hbefore⟩ := hordered
  have hafter := (List.pairwise_cons.1 (List.pairwise_cons.1 hrest).2).1
  simp only [List.append_assoc, List.cons_append, List.nil_append, List.mem_append,
    List.mem_cons] at hmem
  rcases hmem with hmem | heq | heq | hmem
  · obtain ⟨hpoe, hlevel⟩ := hbefore _ hmem lower List.mem_cons_self
    exact ⟨le_antisymm hlower hpoe, hlevel.le⟩
  · exact ⟨congrArg Prod.fst heq.symm, (congrArg Prod.snd heq.symm).le⟩
  · exact absurd (congrArg Prod.fst heq) hupper.ne
  · exact absurd (hafter _ hmem).1 (not_le.2 hupper)

/-! ## Levels of probabilities -/

/-- A level is the inverse of a curve at a probability. -/
structure Inverts (curve : HazardCurve ℝ) (p level : ℝ) : Prop where
  /-- The level is the only one of the curve, or lies between two neighbouring ones, and the line
  between their points has the probability there. -/
  segment : curve.points = [(p, level)] ∨
    ∃ k a b, curve.points[k]? = some a ∧ curve.points[k + 1]? = some b ∧
      a.2 ≤ level ∧ level ≤ b.2 ∧ onLine curve.scale a b level = p
  /-- If points have the probability, the level is the lowest of theirs. -/
  lowest : (∃ l, (p, l) ∈ curve.points) → IsLeast {l | (p, l) ∈ curve.points} level
  /-- Below the highest probability the level is interpolated between the first point with a higher
  one, counted from the highest level down, and the point before that. -/
  interpolated : (∀ bottom ∈ curve.points.head?, p < bottom.1) →
    ∃ j lower upper, curve.ascending[j]? = some lower ∧ curve.ascending[j + 1]? = some upper ∧
      (∀ point ∈ curve.ascending.take (j + 1), point.1 ≤ p) ∧ p < upper.1 ∧
      upper.1 - lower.1 ≠ 0 ∧ level = interpolate curve.scale p lower upper

variable {curve : HazardCurve ℝ} {top bottom : ℝ × ℝ}

theorem inverts_bottom (hbottom : curve.points.head? = some bottom) :
    curve.Inverts bottom.1 bottom.2 := by
  have hmem : bottom ∈ curve.points := List.mem_of_mem_head? hbottom
  have hlowest : ∀ point ∈ curve.points, bottom.2 ≤ point.2 := by
    intro point hpoint
    have hlast : curve.ascending.getLast? = some bottom := by
      rw [← reverse_points, List.getLast?_reverse, hbottom]
    exact curve.descends.getLast_le hlast (List.mem_reverse.2 hpoint)
  refine ⟨?_, fun _ => ⟨hmem, fun l hl => hlowest _ hl⟩, fun hlt => ?_⟩
  · cases hpoints : curve.points with
    | nil => simp [hpoints] at hbottom
    | cons a rest =>
        rw [hpoints, List.head?_cons, Option.some.injEq] at hbottom
        subst hbottom
        cases rest with
        | nil => exact .inl rfl
        | cons b rest =>
            refine .inr ⟨0, a, b, rfl, rfl, le_rfl, hlowest b ?_, onLine_left _ _ _⟩
            simp [hpoints]
  · exact absurd (hlt bottom hbottom) (lt_irrefl _)

theorem inverts_interpolate (htop : curve.ascending.head? = some top)
    (hbottom : curve.ascending.getLast? = some bottom) (hlow : top.1 ≤ p) (hhigh : p < bottom.1)
    (hbracket : bracket? p curve.ascending = some (lower, upper)) :
    curve.Inverts p (interpolate curve.scale p lower upper) := by
  have hdescends := curve.descends
  have hlow' : ∀ a ∈ curve.ascending.head?, a.1 ≤ p := by simpa [htop] using hlow
  have hhigh' : ∀ b ∈ curve.ascending.getLast?, p < b.1 := by simpa [hbottom] using hhigh
  obtain ⟨hpart, hlower, hupper⟩ := bracket?_spec hbracket hlow' hhigh'
  obtain ⟨hlevels, hpositive⟩ := hdescends.of_infix hpart
  obtain ⟨hmin, hmax⟩ := interpolate_mem hlower hupper hlevels.le hpositive
  have hpoes : lower.1 < upper.1 := hlower.trans_lt hupper
  refine ⟨.inr ?_, fun ⟨l, hl⟩ => ?_, fun _ => ?_⟩
  · -- upward the two points follow each other the other way round
    have hpart' : [upper, lower] <:+: curve.points := by
      rw [← List.reverse_infix, reverse_points]
      exact hpart
    obtain ⟨k, hk, hk'⟩ := exists_getElem?_of_infix hpart'
    exact ⟨k, upper, lower, hk, hk', hmin, hmax, onLine_interpolate hpoes hlevels hpositive⟩
  · have hpoint : ∀ l, (p, l) ∈ curve.points → lower.1 = p ∧ lower.2 ≤ l :=
      fun l hl => hdescends.lower_of_mem hpart hlower hupper (List.mem_reverse.2 hl)
    have heq : lower.1 = p := (hpoint l hl).1
    have hlevel : interpolate curve.scale p lower upper = lower.2 := by
      rw [← heq]
      exact interpolate_lower fun hlog => (hpositive hlog).trans hlevels
    rw [hlevel]
    refine ⟨?_, fun l hl => (hpoint l hl).2⟩
    change (p, lower.2) ∈ curve.points
    rw [← heq]
    exact List.mem_reverse.1 (hpart.subset List.mem_cons_self)
  · obtain ⟨before, after, hpoints⟩ := hpart
    refine ⟨before.length, lower, upper, ?_, ?_, fun point hpoint => ?_, hupper,
      (sub_pos.2 hpoes).ne', rfl⟩
    · simp [← hpoints]
    · simp [← hpoints]
    · have htake : curve.ascending.take (before.length + 1) = before ++ [lower] := by
        simp [← hpoints, List.take_append]
      rw [htake, List.mem_append, List.mem_singleton] at hpoint
      rcases hpoint with hbefore | rfl
      · have hordered := hdescends.ordered
        rw [← hpoints, List.append_assoc, List.pairwise_append] at hordered
        exact (hordered.2.2 point hbefore lower List.mem_cons_self).1.trans hlower
      · exact hlower

/-- A probability that a curve brackets has a level that inverts the curve at it. -/
theorem exists_inverts (htop : curve.ascending.head? = some top)
    (hbottom : curve.ascending.getLast? = some bottom) (hlow : top.1 ≤ p) (hhigh : p ≤ bottom.1) :
    ∃ level, (∀ policy, curve.levelFor p policy = .ok level) ∧ curve.Inverts p level := by
  obtain ⟨level, hlevel⟩ := exists_levelFor_of_mem htop hbottom hlow hhigh
  refine ⟨level, hlevel, ?_⟩
  obtain ⟨first, last, hfirst, hlast, hcases⟩ := levelFor_cases (hlevel .clamp)
  obtain rfl : top = first := Option.some.inj (htop.symm.trans hfirst)
  obtain rfl : bottom = last := Option.some.inj (hbottom.symm.trans hlast)
  rcases hcases with ⟨hbelow, _⟩ | ⟨_, hbeyond, rfl⟩ | ⟨_, hinside, lower, upper, hbracket, rfl⟩
  · exact absurd hlow (not_le.2 hbelow)
  · obtain rfl : p = bottom.1 := le_antisymm hhigh hbeyond
    rw [← reverse_points, List.getLast?_reverse] at hbottom
    exact inverts_bottom hbottom
  · exact inverts_interpolate htop hbottom hlow hinside hbracket

/-- The level that a curve answers with is the inverse of the curve where the curve brackets the
probability. Elsewhere it is the highest or the lowest level, or there is none. -/
theorem levelFor_inverts (curve : HazardCurve ℝ) (p : ℝ) :
    ∃ bottom top level, curve.points.head? = some bottom ∧ curve.points.getLast? = some top ∧
      curve.levelFor p .reject =
        (if p < top.1 ∨ bottom.1 < p then .error (.curve (.notBracketed p top.1 bottom.1))
          else .ok level) ∧
      curve.levelFor p .clamp =
        .ok (if p < top.1 then top.2 else if bottom.1 < p then bottom.2 else level) ∧
      (top.1 ≤ p → p ≤ bottom.1 → curve.Inverts p level) := by
  obtain ⟨top, bottom, htop, hbottom⟩ := curve.exists_ends
  have hhead : curve.points.head? = some bottom := by
    rw [← hbottom, ← reverse_points, List.getLast?_reverse]
  have hlast : curve.points.getLast? = some top := by
    rw [← htop, ← reverse_points, List.head?_reverse]
  by_cases houtside : p < top.1 ∨ bottom.1 < p
  · obtain ⟨hreject, hclamp⟩ := levelFor_of_not_mem htop hbottom houtside
    refine ⟨bottom, top, bottom.2, hhead, hlast, by rw [hreject, if_pos houtside], ?_,
      fun hlow hhigh => ?_⟩
    · rw [hclamp, ite_self]
    · exact absurd houtside (not_or.2 ⟨not_lt.2 hlow, not_lt.2 hhigh⟩)
  · have hinside := houtside
    rw [not_or, not_lt, not_lt] at hinside
    obtain ⟨level, hlevel, hinverts⟩ := exists_inverts htop hbottom hinside.1 hinside.2
    refine ⟨bottom, top, level, hhead, hlast, by rw [hlevel, if_neg houtside], ?_,
      fun _ _ => hinverts⟩
    rw [hlevel, if_neg (not_lt.2 hinside.1), if_neg (not_lt.2 hinside.2)]

/-! ## Falling levels -/

/-- The levels of a curve, clamped to its ends, do not rise with the probability and lie between the
lowest and the highest one. Where probabilities that are not bracketed have no level, all others
have the same levels. -/
theorem exists_antitone_levelFor (curve : HazardCurve ℝ) :
    ∃ lowest highest, curve.levels.head? = some lowest ∧ curve.levels.getLast? = some highest ∧
      ∃ level : ℝ → ℝ, Antitone level ∧ (∀ p, lowest ≤ level p ∧ level p ≤ highest) ∧
        (∀ p, curve.levelFor p .clamp = .ok (level p)) ∧
        ∀ p y, curve.levelFor p .reject = .ok y → y = level p := by
  obtain ⟨top, bottom, htop, hbottom⟩ := curve.exists_ends
  choose level hlevel using curve.exists_levelFor
  refine ⟨bottom.2, top.2, ?_, ?_, level, fun p q hle => ?_, fun p => ?_, hlevel, fun p y hy => ?_⟩
  · rw [← map_snd_points, List.head?_map, ← List.getLast?_reverse, reverse_points, hbottom]
    rfl
  · rw [← map_snd_points, List.getLast?_map, ← List.head?_reverse, reverse_points, htop]
    rfl
  · exact levelFor_anti hle (hlevel p) (hlevel q)
  · exact levelFor_mem (hlevel p) htop hbottom
  · by_cases houtside : p < top.1 ∨ bottom.1 < p
    · rw [(levelFor_of_not_mem htop hbottom houtside).1] at hy
      cases hy
    · rw [not_or, not_lt, not_lt] at houtside
      obtain ⟨same, hsame⟩ := exists_levelFor_of_mem htop hbottom houtside.1 houtside.2
      have hreject : y = same := Except.ok.inj (hy.symm.trans (hsame .reject))
      have hclamp : level p = same := Except.ok.inj ((hlevel p).symm.trans (hsame .clamp))
      rw [hreject, hclamp]

end SeismicHazard.HazardCurve

end
