import SeismicHazard.HazardCurve
import SeismicHazard.Proofs.Numeric.Exact

/-!
# Levels on hazard curves

A curve is read backwards between the two of its points that bracket a probability. The level lies
between those of the two points, and a lower probability never has a lower level: not along one
straight line, not from one line to another, and not where a probability is clamped to an end.
-/

noncomputable section

namespace SeismicHazard.HazardCurve

/-- Points from the highest level down. Probabilities may stay the same from one point to the next,
levels may not. -/
structure Descends (scale : InterpolationScale) (points : List (ℝ × ℝ)) : Prop where
  ordered : points.Pairwise fun a b => a.1 ≤ b.1 ∧ b.2 < a.2
  positive : scale = .log → ∀ point ∈ points, 0 < point.2

variable {scale : InterpolationScale} {points : List (ℝ × ℝ)} {p q : ℝ} {lower upper : ℝ × ℝ}

theorem Descends.tail {point : ℝ × ℝ} (h : Descends scale (point :: points)) :
    Descends scale points where
  ordered := h.ordered.of_cons
  positive hlog q hq := h.positive hlog q (List.mem_cons_of_mem _ hq)

theorem allNeighbours_iff {R : Type} [Scalar R] {test : R → R → Bool} {xs : List R} :
    allNeighbours test xs = true ↔ xs.IsChain fun a b => test a b = true := by
  induction xs with
  | nil => simp [allNeighbours]
  | cons x rest ih =>
      cases rest with
      | nil => simp [allNeighbours]
      | cons y rest =>
          rw [List.isChain_cons_cons, ← ih]
          simp [allNeighbours]

/-- Points that are a curve. -/
structure Accepted (levels poes : List ℝ) (scale : InterpolationScale) : Prop where
  nonempty : levels ≠ []
  length_eq : levels.length = poes.length
  increasing : levels.Pairwise (· < ·)
  probabilities : ∀ p ∈ poes, 0 ≤ p ∧ p ≤ 1
  decreasing : poes.Pairwise (· ≥ ·)
  positive : scale = .log → ∀ level ∈ levels, 0 < level

theorem accepted_of_fault? {levels poes : List ℝ} (h : fault? levels poes scale = none) :
    Accepted levels poes scale := by
  unfold fault? at h
  split_ifs at h with hlengths hlevels hprobabilities hpoes hpositive
  simp only [Bool.or_eq_true, not_or, List.isEmpty_iff, bne_iff_ne, ne_eq, not_not] at hlengths
  simp only [Bool.not_eq_true', Bool.not_eq_false, allNeighbours_iff, decide_eq_true_eq,
    decide_eq_false_iff_not, not_lt] at hlevels hpoes
  have hincreasing : levels.Pairwise (· < ·) := List.isChain_iff_pairwise.1 hlevels
  refine ⟨hlengths.1, hlengths.2, hincreasing, ?_, List.isChain_iff_pairwise.1 hpoes, ?_⟩
  · simpa [Scalar.isProbability_exact] using hprobabilities
  · -- all other levels are above the lowest
    rintro rfl
    cases levels with
    | nil => simp
    | cons lowest rest =>
        have hlowest : 0 < lowest := by simpa using hpositive
        refine List.forall_mem_cons.2 ⟨hlowest, fun level hlevel => ?_⟩
        exact hlowest.trans ((List.pairwise_cons.1 hincreasing).1 level hlevel)

theorem descends (curve : HazardCurve ℝ) : Descends curve.scale curve.ascending := by
  have h := accepted_of_fault? curve.accepted
  have hpoes : (curve.poes.zip curve.levels).map Prod.fst = curve.poes :=
    List.map_fst_zip h.length_eq.ge
  have hlevels : (curve.poes.zip curve.levels).map Prod.snd = curve.levels :=
    List.map_snd_zip h.length_eq.le
  constructor
  · have hfirst := h.decreasing
    have hsecond := h.increasing
    rw [← hpoes, List.pairwise_map] at hfirst
    rw [← hlevels, List.pairwise_map] at hsecond
    exact List.pairwise_reverse.2 (hfirst.and hsecond)
  · intro hlog point hpoint
    exact h.positive hlog _ (hlevels ▸ List.mem_map_of_mem (List.mem_reverse.1 hpoint))

/-! ## Along one line -/

/-- On a line from a higher to a lower level, a lower probability has a higher level. -/
theorem interpolate_anti (hpoes : lower.1 < upper.1) (hlevels : upper.2 ≤ lower.2)
    (hpositive : scale = .log → 0 < upper.2) :
    Antitone fun p => interpolate scale p lower upper := by
  intro p q hle
  have hwidth : 0 < upper.1 - lower.1 := sub_pos.2 hpoes
  have ht : (p - lower.1) / (upper.1 - lower.1) ≤ (q - lower.1) / (upper.1 - lower.1) := by
    gcongr
  cases scale with
  | linear =>
      exact add_le_add_right (mul_le_mul_of_nonpos_right ht (sub_nonpos.2 hlevels)) _
  | log =>
      have hlog : Real.log upper.2 ≤ Real.log lower.2 := Real.log_le_log (hpositive rfl) hlevels
      apply Real.exp_le_exp.2
      exact add_le_add_right (mul_le_mul_of_nonpos_right ht (sub_nonpos.2 hlog)) _

theorem interpolate_lower (hpositive : scale = .log → 0 < lower.2) :
    interpolate scale lower.1 lower upper = lower.2 := by
  unfold interpolate
  cases scale with
  | linear => simp
  | log =>
      simp only [sub_self, zero_div, zero_mul, add_zero]
      exact Real.exp_log (hpositive rfl)

theorem interpolate_upper (hpoes : lower.1 < upper.1) (hpositive : scale = .log → 0 < upper.2) :
    interpolate scale upper.1 lower upper = upper.2 := by
  unfold interpolate
  rw [div_self (sub_pos.2 hpoes).ne']
  cases scale with
  | linear => simp
  | log =>
      simp only [one_mul, add_sub_cancel]
      exact Real.exp_log (hpositive rfl)

/-- Between two points the level is between theirs. -/
theorem interpolate_mem (hlow : lower.1 ≤ p) (hhigh : p < upper.1) (hlevels : upper.2 ≤ lower.2)
    (hpositive : scale = .log → 0 < upper.2) :
    upper.2 ≤ interpolate scale p lower upper ∧ interpolate scale p lower upper ≤ lower.2 := by
  have hpoes : lower.1 < upper.1 := hlow.trans_lt hhigh
  have hanti := interpolate_anti hpoes hlevels hpositive
  constructor
  · rw [← interpolate_upper hpoes hpositive]
    exact hanti hhigh.le
  · rw [← interpolate_lower fun hlog => (hpositive hlog).trans_le hlevels]
    exact hanti hlow

/-! ## From line to line -/

/-- A probability below the highest one lies between two neighbouring points. -/
theorem bracket?_spec (h : bracket? p points = some (lower, upper))
    (hlow : ∀ a ∈ points.head?, a.1 ≤ p) (hhigh : ∀ b ∈ points.getLast?, p < b.1) :
    [lower, upper] <:+: points ∧ lower.1 ≤ p ∧ p < upper.1 := by
  fun_induction bracket? p points with
  | case1 a b rest hhere =>
      obtain ⟨rfl, rfl⟩ := Prod.mk.inj (Option.some.inj h)
      refine ⟨⟨[], rest, by simp⟩, hlow _ rfl, ?_⟩
      rw [Bool.or_eq_true, decide_eq_true_eq] at hhere
      rcases hhere with hupper | hlast
      · exact hupper
      · rw [List.isEmpty_iff.1 hlast] at hhigh
        exact hhigh _ rfl
  | case2 a b rest hbeyond ih =>
      rw [Bool.or_eq_true, not_or, decide_eq_true_eq, not_lt] at hbeyond
      obtain ⟨hpart, hbounds⟩ := ih h (by simpa using hbeyond.1) (by simpa using hhigh)
      exact ⟨hpart.trans (List.suffix_cons a (b :: rest)).isInfix, hbounds⟩
  | case3 => simp at h

/-- Of two neighbouring points, the second one has the lower level. -/
theorem Descends.of_infix (h : Descends scale points) (hpart : [lower, upper] <:+: points) :
    upper.2 < lower.2 ∧ (scale = .log → 0 < upper.2) := by
  have hpair := h.ordered.sublist hpart.sublist
  refine ⟨((List.pairwise_cons.1 hpair).1 upper (by simp)).2, fun hlog => ?_⟩
  exact h.positive hlog upper (hpart.subset (by simp))

/-- The first point has the highest level. -/
theorem Descends.le_head {first point : ℝ × ℝ} (h : Descends scale (first :: points))
    (hpoint : point ∈ first :: points) : point.2 ≤ first.2 := by
  rcases List.mem_cons.1 hpoint with rfl | hrest
  · exact le_rfl
  · exact ((List.pairwise_cons.1 h.ordered).1 point hrest).2.le

/-- A probability between two points has a level between theirs. -/
theorem Descends.interpolate_mem (h : Descends scale points)
    (hp : bracket? p points = some (lower, upper)) (hlow : ∀ a ∈ points.head?, a.1 ≤ p)
    (hhigh : ∀ b ∈ points.getLast?, p < b.1) :
    upper.2 ≤ interpolate scale p lower upper ∧ interpolate scale p lower upper ≤ lower.2 := by
  obtain ⟨hpart, hlower, hupper⟩ := bracket?_spec hp hlow hhigh
  obtain ⟨hlevels, hpositive⟩ := h.of_infix hpart
  exact HazardCurve.interpolate_mem hlower hupper hlevels.le hpositive

theorem Descends.interpolate_anti {lower' upper' : ℝ × ℝ} (h : Descends scale points) (hle : p ≤ q)
    (hp : bracket? p points = some (lower, upper))
    (hq : bracket? q points = some (lower', upper'))
    (hlow : ∀ a ∈ points.head?, a.1 ≤ p) (hhigh : ∀ b ∈ points.getLast?, q < b.1) :
    interpolate scale q lower' upper' ≤ interpolate scale p lower upper := by
  -- the induction is on the points that the search for the lower probability passes
  fun_induction bracket? p points with
  | case1 a b rest hhere =>
      obtain ⟨rfl, rfl⟩ := Prod.mk.inj (Option.some.inj hp)
      have hupper : p < b.1 := by
        rw [Bool.or_eq_true, decide_eq_true_eq] at hhere
        rcases hhere with hupper | hlast
        · exact hupper
        · rw [List.isEmpty_iff.1 hlast] at hhigh
          exact hle.trans_lt (hhigh _ rfl)
      have hpart : [a, b] <:+: a :: b :: rest := ⟨[], rest, by simp⟩
      obtain ⟨hlevels, hpositive⟩ := h.of_infix hpart
      have hlower : a.1 ≤ p := hlow _ rfl
      rw [bracket?] at hq
      split at hq
      next =>
        obtain ⟨rfl, rfl⟩ := Prod.mk.inj (Option.some.inj hq)
        exact HazardCurve.interpolate_anti (hlower.trans_lt hupper) hlevels.le hpositive hle
      next hbeyond =>
        -- the level of the upper point lies between the two
        rw [Bool.or_eq_true, not_or, decide_eq_true_eq, not_lt] at hbeyond
        have hlow' : ∀ a ∈ (b :: rest).head?, a.1 ≤ q := by simpa using hbeyond.1
        have hhigh' : ∀ b' ∈ (b :: rest).getLast?, q < b'.1 := by simpa using hhigh
        obtain ⟨hpart', _⟩ := bracket?_spec hq hlow' hhigh'
        calc
          interpolate scale q lower' upper' ≤ lower'.2 :=
            (h.tail.interpolate_mem hq hlow' hhigh').2
          _ ≤ b.2 := h.tail.le_head (hpart'.subset (by simp))
          _ ≤ interpolate scale p a b :=
            (HazardCurve.interpolate_mem hlower hupper hlevels.le hpositive).1
  | case2 a b rest hbeyond ih =>
      rw [Bool.or_eq_true, not_or, decide_eq_true_eq, not_lt] at hbeyond
      rw [bracket?, if_neg] at hq
      · exact ih h.tail hp hq (by simpa using hbeyond.1) (by simpa using hhigh)
      · rw [Bool.or_eq_true, not_or, decide_eq_true_eq, not_lt]
        exact ⟨hbeyond.1.trans hle, hbeyond.2⟩
  | case3 => simp at hp

/-! ## Over the whole curve -/

/-- The level of a probability: that of the highest or lowest point where the probability lies
outside, and the one between two points where it lies inside. -/
theorem levelFor_cases {curve : HazardCurve ℝ} {policy : Extrapolation} {level : ℝ}
    (h : curve.levelFor p policy = .ok level) :
    ∃ first last, curve.ascending.head? = some first ∧ curve.ascending.getLast? = some last ∧
      ((p < first.1 ∧ level = first.2) ∨ (first.1 ≤ p ∧ last.1 ≤ p ∧ level = last.2) ∨
        (first.1 ≤ p ∧ p < last.1 ∧ ∃ lower upper,
          bracket? p curve.ascending = some (lower, upper) ∧
          level = interpolate curve.scale p lower upper)) := by
  unfold levelFor at h
  split at h
  next first highLevel last lowLevel hfirst hlast =>
    refine ⟨_, _, hfirst, hlast, ?_⟩
    split at h
    next houtside =>
      cases policy with
      | reject => simp at h
      | clamp =>
          rw [← Except.ok.inj h]
          split
          next hlow => exact .inl ⟨hlow, rfl⟩
          next hlow => exact .inr (.inl ⟨not_lt.1 hlow, (houtside.resolve_left hlow).le, rfl⟩)
    next hinside =>
      rw [not_or, not_lt, not_lt] at hinside
      split at h
      next hlast =>
        have hhighest : last ≤ p := ((Scalar.same_exact _ _).1 hlast).ge
        exact .inr (.inl ⟨hinside.1, hhighest, (Except.ok.inj h).symm⟩)
      next hne =>
        split at h
        next lower upper hbracket =>
          have hlt : p < last := lt_of_le_of_ne hinside.2 fun heq =>
            hne ((Scalar.same_exact _ _).2 heq)
          exact .inr (.inr ⟨hinside.1, hlt, lower, upper, hbracket, (Except.ok.inj h).symm⟩)
        next => simp at h
  next => simp at h

/-- The last point has the lowest level. -/
theorem Descends.getLast_le {last point : ℝ × ℝ} (h : Descends scale points)
    (hlast : points.getLast? = some last) (hpoint : point ∈ points) : last.2 ≤ point.2 := by
  obtain ⟨before, rfl⟩ := List.getLast?_eq_some_iff.1 hlast
  rcases List.mem_append.1 hpoint with hbefore | hsame
  · exact ((List.pairwise_append.1 h.ordered).2.2 point hbefore last (by simp)).2.le
  · rw [List.mem_singleton.1 hsame]

/-- Every level of a curve lies between its lowest and its highest one. -/
theorem levelFor_mem {curve : HazardCurve ℝ} {policy : Extrapolation} {level : ℝ}
    {first last : ℝ × ℝ} (h : curve.levelFor p policy = .ok level)
    (hfirst : curve.ascending.head? = some first) (hlast : curve.ascending.getLast? = some last) :
    last.2 ≤ level ∧ level ≤ first.2 := by
  have hdescends := curve.descends
  have hhead : ∀ point ∈ curve.ascending, point.2 ≤ first.2 := by
    intro point hpoint
    obtain ⟨rest, hpoints⟩ := List.head?_eq_some_iff.1 hfirst
    rw [hpoints] at hpoint hdescends
    exact hdescends.le_head hpoint
  obtain ⟨first', last', hfirst', hlast', hcases⟩ := levelFor_cases h
  obtain rfl : first = first' := Option.some.inj (hfirst.symm.trans hfirst')
  obtain rfl : last = last' := Option.some.inj (hlast.symm.trans hlast')
  rcases hcases with ⟨_, rfl⟩ | ⟨_, _, rfl⟩ | ⟨hlow, hhigh, lower, upper, hbracket, rfl⟩
  · exact ⟨hdescends.getLast_le hlast (List.mem_of_mem_head? hfirst), le_rfl⟩
  · exact ⟨le_rfl, hhead _ (List.mem_of_mem_getLast? hlast)⟩
  · have hlow' : ∀ a ∈ curve.ascending.head?, a.1 ≤ p := by simpa [hfirst] using hlow
    have hhigh' : ∀ b ∈ curve.ascending.getLast?, p < b.1 := by simpa [hlast] using hhigh
    obtain ⟨hpart, _⟩ := bracket?_spec hbracket hlow' hhigh'
    obtain ⟨hupper, hlower⟩ := hdescends.interpolate_mem hbracket hlow' hhigh'
    exact ⟨(hdescends.getLast_le hlast (hpart.subset (by simp))).trans hupper,
      hlower.trans (hhead _ (hpart.subset (by simp)))⟩

/-- The lower of two probabilities has the higher level. -/
theorem levelFor_anti {curve : HazardCurve ℝ} {policy : Extrapolation} {high low : ℝ} (hle : p ≤ q)
    (hp : curve.levelFor p policy = .ok high) (hq : curve.levelFor q policy = .ok low) :
    low ≤ high := by
  obtain ⟨first, last, hfirst, hlast, hp'⟩ := levelFor_cases hp
  obtain ⟨first', last', hfirst', hlast', hq'⟩ := levelFor_cases hq
  obtain rfl : first = first' := Option.some.inj (hfirst.symm.trans hfirst')
  obtain rfl : last = last' := Option.some.inj (hlast.symm.trans hlast')
  rcases hp' with ⟨_, rfl⟩ | ⟨hlow, hbeyond, rfl⟩ | ⟨hlow, _, lower, upper, hbracket, rfl⟩
  · exact (levelFor_mem hq hfirst hlast).2
  · rcases hq' with ⟨hbelow, _⟩ | ⟨_, _, rfl⟩ | ⟨_, hinside, _⟩
    · exact absurd (hlow.trans hle) (not_le.2 hbelow)
    · exact le_rfl
    · exact absurd (hbeyond.trans hle) (not_le.2 hinside)
  · rcases hq' with ⟨hbelow, _⟩ | ⟨_, _, rfl⟩ | ⟨_, hhigh, lower', upper', hbracket', rfl⟩
    · exact absurd (hlow.trans hle) (not_le.2 hbelow)
    · exact (levelFor_mem hp hfirst hlast).1
    · exact curve.descends.interpolate_anti hle hbracket hbracket' (by simpa [hfirst] using hlow)
        (by simpa [hlast] using hhigh)

/-! ## Probabilities that have a level -/

theorem ascending_ne_nil (curve : HazardCurve ℝ) : curve.ascending ≠ [] := by
  have h := accepted_of_fault? curve.accepted
  rw [ascending, ne_eq, List.reverse_eq_nil_iff, List.zip_eq_nil_iff, not_or]
  refine ⟨fun hnil => h.nonempty ?_, h.nonempty⟩
  rw [← List.length_eq_zero_iff, h.length_eq, hnil]
  rfl

theorem bracket?_of_two (poe : ℝ) (lower upper : ℝ × ℝ) (rest : List (ℝ × ℝ)) :
    ∃ pair, bracket? poe (lower :: upper :: rest) = some pair := by
  induction rest generalizing lower upper with
  | nil => exact ⟨(lower, upper), by simp [bracket?]⟩
  | cons next rest ih =>
      unfold bracket?
      split
      next => exact ⟨_, rfl⟩
      next => exact ih upper next

/-- Where a probability lies below that of some point and not below that of the first one, there are
two points at least. -/
theorem exists_bracket? {first last : ℝ × ℝ} (hfirst : points.head? = some first)
    (hlast : points.getLast? = some last) (hlow : first.1 ≤ p) (hhigh : p < last.1) :
    ∃ lower upper, bracket? p points = some (lower, upper) := by
  cases points with
  | nil => simp at hfirst
  | cons a rest =>
      cases rest with
      | nil =>
          -- the probability of a single point brackets no other one
          rw [List.head?_cons, Option.some.injEq] at hfirst
          rw [List.getLast?_singleton, Option.some.injEq] at hlast
          rw [← hfirst] at hlow
          rw [← hlast] at hhigh
          exact absurd hhigh (not_lt.2 hlow)
      | cons b rest =>
          obtain ⟨pair, hpair⟩ := bracket?_of_two p a b rest
          exact ⟨pair.1, pair.2, hpair⟩

/-- A curve has a level for every probability that it brackets. -/
theorem exists_levelFor_of_mem {curve : HazardCurve ℝ} {first last : ℝ × ℝ}
    (hfirst : curve.ascending.head? = some first) (hlast : curve.ascending.getLast? = some last)
    (hlow : first.1 ≤ p) (hhigh : p ≤ last.1) :
    ∃ level, ∀ policy, curve.levelFor p policy = .ok level := by
  have hinside : ¬ (p < first.1 ∨ last.1 < p) := not_or.2 ⟨not_lt.2 hlow, not_lt.2 hhigh⟩
  rcases hhigh.eq_or_lt with heq | hlt
  · refine ⟨last.2, fun policy => ?_⟩
    simp only [levelFor, hfirst, hlast, if_neg hinside, if_pos ((Scalar.same_exact _ _).2 heq)]
  · obtain ⟨lower, upper, hbracket⟩ := exists_bracket? hfirst hlast hlow hlt
    refine ⟨interpolate curve.scale p lower upper, fun policy => ?_⟩
    simp only [levelFor, hfirst, hlast, if_neg hinside,
      if_neg ((Scalar.same_exact _ _).not.2 hlt.ne), hbracket]

/-- What a curve answers for a probability that it does not bracket. -/
theorem levelFor_of_not_mem {curve : HazardCurve ℝ} {first last : ℝ × ℝ}
    (hfirst : curve.ascending.head? = some first) (hlast : curve.ascending.getLast? = some last)
    (houtside : p < first.1 ∨ last.1 < p) :
    curve.levelFor p .reject = .error (.curve (.notBracketed p first.1 last.1)) ∧
      curve.levelFor p .clamp = .ok (if p < first.1 then first.2 else last.2) := by
  simp only [levelFor, hfirst, hlast, if_pos houtside, and_self]

theorem exists_ends (curve : HazardCurve ℝ) :
    ∃ first last, curve.ascending.head? = some first ∧ curve.ascending.getLast? = some last :=
  ⟨_, _, List.head?_eq_some_head curve.ascending_ne_nil,
    List.getLast?_eq_some_getLast curve.ascending_ne_nil⟩

/-- A curve has a level for every probability when those that it does not bracket are clamped. -/
theorem exists_levelFor (curve : HazardCurve ℝ) (poe : ℝ) :
    ∃ level, curve.levelFor poe .clamp = .ok level := by
  obtain ⟨first, last, hfirst, hlast⟩ := curve.exists_ends
  by_cases houtside : poe < first.1 ∨ last.1 < poe
  · exact ⟨_, (levelFor_of_not_mem hfirst hlast houtside).2⟩
  · rw [not_or, not_lt, not_lt] at houtside
    obtain ⟨level, hlevel⟩ := exists_levelFor_of_mem hfirst hlast houtside.1 houtside.2
    exact ⟨level, hlevel .clamp⟩

end SeismicHazard.HazardCurve

end
