import SeismicHazard.Proofs.Binning
import SeismicHazard.Proofs.Collection.Coherence
import SeismicHazard.Proofs.GroundMotion.Bands
import SeismicHazard.Proofs.Results.Product

/-!
# How often a rupture counts

A rupture counts once for every target of the site that has the key of a matrix. There are as many
of those as the probability and the measure stand in the settings, for each time that the
realization stands in the branch.
-/

noncomputable section

namespace SeismicHazard

theorem countP_flatMap_of_unique {α β : Type} [DecidableEq α] {f : α → List β} {p : β → Bool}
    {xs : List α} {a : α} (hother : ∀ x ∈ xs, x ≠ a → (f x).countP p = 0) :
    (xs.flatMap f).countP p = xs.count a * (f a).countP p := by
  induction xs with
  | nil => simp
  | cons x rest ih =>
      rw [List.flatMap_cons, List.countP_append,
        ih fun y hy => hother y (List.mem_cons_of_mem _ hy)]
      by_cases hx : x = a
      · rw [hx, List.count_cons_self]
        ring
      · rw [hother x List.mem_cons_self hx, List.count_cons_of_ne hx, Nat.zero_add]

namespace Occurrence

theorem mapM_poissonian (rate span : ℝ) (bands : List ℝ) :
    bands.mapM (poissonian rate span).noExceedance =
      .ok (bands.map fun band => Real.exp (-rate * span * band)) := by
  rw [mapM_eq_ok, List.forall₂_map_right_iff]
  exact List.forall₂_same.2 fun _ _ => rfl

theorem exp_mem {rate span band : ℝ} (hrate : 0 ≤ rate * span) (hband : 0 ≤ band) :
    0 ≤ Real.exp (-rate * span * band) ∧ Real.exp (-rate * span * band) ≤ 1 := by
  have hexponent : 0 ≤ rate * span * band := mul_nonneg hrate hband
  exact ⟨(Real.exp_pos _).le, Real.exp_le_one_iff.2 (by linarith)⟩

/-- Ruptures that can be disaggregated are Poissonian. -/
theorem mapM_noExceedance {occurrence : Occurrence ℝ} {bands pnes : List ℝ} (hbands : bands ≠ [])
    (hpnes : bands.mapM occurrence.noExceedance = .ok pnes) :
    ∃ rate span, occurrence = .poissonian rate span ∧
      pnes = bands.map fun band => Real.exp (-rate * span * band) := by
  cases occurrence with
  | poissonian rate span =>
      rw [mapM_poissonian, Except.ok.injEq] at hpnes
      exact ⟨rate, span, rfl, hpnes.symm⟩
  | nonParametric probabilities =>
      -- there is a band, and such a rupture is refused for it
      obtain ⟨band, rest, rfl⟩ := List.exists_cons_of_ne_nil hbands
      obtain ⟨pne, _, hhead, _⟩ := List.forall₂_cons_left_iff.1 (mapM_eq_ok.1 hpnes)
      simp [noExceedance] at hhead

end Occurrence

namespace SiteContext

variable {ctx : SiteContext ℝ} {site : Site ℝ} {targets : List (Target ℝ)}

/-- How often a key is asked for. -/
def multiplicity (ctx : SiteContext ℝ) (key : TargetKey ℝ) : Nat :=
  ctx.cfg.targets.count key.poe.value * (ctx.cfg.imts.count key.imt *
    ctx.realizations.countP (fun realization => decide (realization.id = key.realization)))

theorem countP_combinations (key : TargetKey ℝ) :
    ctx.combinations.countP (fun (poe, imt, realization) =>
      decide ((⟨realization.id, ⟨poe⟩, imt⟩ : TargetKey ℝ) = key)) = ctx.multiplicity key := by
  have hne : ∀ {poe : ℝ} {imt : String} {realization : Realization ℝ},
      poe ≠ key.poe.value ∨ imt ≠ key.imt → (⟨realization.id, ⟨poe⟩, imt⟩ : TargetKey ℝ) ≠ key := by
    rintro poe imt realization hor rfl
    rcases hor with h | h
    · exact h rfl
    · exact h rfl
  -- only the probability and the measure of the key have combinations with the key
  rw [combinations, multiplicity, countP_flatMap_of_unique, countP_flatMap_of_unique,
    List.countP_map]
  · congr 2
    apply List.countP_congr
    intro realization _
    obtain ⟨number, ⟨poe⟩, imt⟩ := key
    simp
  · intro imt _ himt
    rw [List.countP_map, List.countP_eq_zero]
    intro realization _
    simpa using hne (.inr himt)
  · intro poe _ hpoe
    rw [List.countP_eq_zero]
    intro combination hmem
    obtain ⟨imt, _, hmem⟩ := List.mem_flatMap.1 hmem
    obtain ⟨realization, _, rfl⟩ := List.mem_map.1 hmem
    simpa using hne (.inl hpoe)

/-- The targets with a key for which a curve is known. -/
theorem countP_targets (htargets : ctx.targets site = .ok targets) {key : TargetKey ℝ}
    (hknown : ∃ curve, ctx.curves.get? ⟨site.id, key.realization, key.imt⟩ = some curve) :
    targets.countP (fun target => decide (target.key = key)) = ctx.multiplicity key := by
  obtain ⟨found, hfound, hfilter⟩ := bind_eq_ok.1 htargets
  rw [← pure_eq_ok.1 hfilter, ← countP_combinations]
  -- the induction is on the combinations, each with the target that was found for it
  have hpairs := mapM_eq_ok.1 hfound
  clear hfound htargets hfilter
  generalize ctx.combinations = combinations at hpairs ⊢
  induction hpairs with
  | nil => rfl
  | @cons combination target? rest found hhead _ ih =>
      obtain ⟨poe, imt, realization⟩ := combination
      rw [List.countP_cons, ← ih]
      cases target? with
      | none =>
          have hkey : (⟨realization.id, ⟨poe⟩, imt⟩ : TargetKey ℝ) ≠ key := by
            rintro rfl
            obtain ⟨curve, hcurve⟩ := hknown
            simp [target?_eq_none.1 hhead] at hcurve
          simp [hkey]
      | some target =>
          have hkey := (target?_eq_some.1 hhead).key
          simp [hkey, List.countP_cons]

end SiteContext

namespace Collection

open Share

variable {ctx : SiteContext ℝ} {site : Site ℝ} {targets : List (Target ℝ)} {source : Source ℝ}
  {key : TargetKey ℝ}

theorem resultKey_inj {a b : TargetKey ℝ} :
    resultKey site ctx a = resultKey site ctx b ↔ a = b := by
  obtain ⟨_, ⟨_⟩, _⟩ := a
  obtain ⟨_, ⟨_⟩, _⟩ := b
  simp [resultKey]

theorem under_sharesFor (t : TargetKey ℝ) (p : Placed ℝ) :
    under (resultKey site ctx key) (listed (sharesFor site ctx t p)) =
      if t = key then listed (sharesFor site ctx key p) else [] := by
  have hkeys : ∀ s ∈ listed (sharesFor site ctx t p), s.key = resultKey site ctx t :=
    fun s hs => (mem_sharesFor hs).2.1
  split
  next ht =>
    subst ht
    exact List.filter_eq_self.2 fun s hs => by simp [hkeys s hs]
  next ht =>
    apply List.filter_eq_nil_iff.2
    intro s hs
    rw [hkeys s hs, decide_eq_true_eq, resultKey_inj]
    exact ht

theorem product_under_targets (p : Placed ℝ) (c : Cell) (eps : Nat) :
    product (under (resultKey site ctx key)
        (targets.flatMap fun t => listed (sharesFor site ctx t.key p))) c eps =
      product (listed (sharesFor site ctx key p)) c eps ^
        targets.countP (fun t => decide (t.key = key)) := by
  induction targets with
  | nil => simp [under, product]
  | cons t rest ih =>
      rw [List.flatMap_cons, under_append, product_append, ih, under_sharesFor, List.countP_cons]
      by_cases ht : t.key = key
      · simp only [ht, if_true, decide_true]
        ring
      · simp [ht, product]

theorem product_under_placed {placed : List (Placed ℝ)}
    (hall : ∀ p ∈ placed, ∀ t ∈ targets, Succeeds (sharesFor site ctx t.key p)) (c : Cell)
    (eps : Nat) :
    product (under (resultKey site ctx key)
        (placed.flatMap fun p => listed (sharesAt site ctx targets p))) c eps =
      product (placed.flatMap fun p => listed (sharesFor site ctx key p)) c eps ^
        targets.countP (fun t => decide (t.key = key)) := by
  induction placed with
  | nil => simp [under, product]
  | cons p rest ih =>
      have hp : listed (sharesAt site ctx targets p) =
          targets.flatMap fun t => listed (sharesFor site ctx t.key p) :=
        listed_gather (hall p List.mem_cons_self)
      simp only [List.flatMap_cons, under_append, product_append, mul_pow]
      rw [ih fun q hq => hall q (List.mem_cons_of_mem _ hq), hp, product_under_targets]

theorem indexOf_eq_ok {regions : Regions} {name : String} {trt : Nat}
    (htrt : regions.indexOf (R := ℝ) name = .ok trt) : regions.names[trt]? = some name := by
  unfold Regions.indexOf at htrt
  split at htrt
  next i hi =>
    obtain ⟨hlt, hname, _⟩ := List.idxOf?_eq_some_iff.1 hi
    rw [← Except.ok.inj htrt, List.getElem?_eq_getElem hlt, hname]
  next => simp at htrt

/-- The product of the probabilities that are located in a cell. -/
def cellProduct (located : List (Cell × List ℝ)) (c : Cell) (eps : Nat) : ℝ :=
  ((located.filter (fun x => decide (x.1 = c))).map (fun x => x.2.getD eps 1)).prod

theorem cellProduct_cons (x : Cell × List ℝ) (rest : List (Cell × List ℝ)) (c : Cell) (eps : Nat) :
    cellProduct (x :: rest) c eps =
      (if x.1 = c then x.2.getD eps 1 else 1) * cellProduct rest c eps := by
  by_cases hx : x.1 = c
  · simp [cellProduct, hx]
  · simp [cellProduct, hx]

theorem cellProduct_append (xs ys : List (Cell × List ℝ)) (c : Cell) (eps : Nat) :
    cellProduct (xs ++ ys) c eps = cellProduct xs c eps * cellProduct ys c eps := by
  simp [cellProduct]

/-- A product of probabilities above zero is one. -/
theorem cellProduct_mem_unit {located : List (Cell × List ℝ)}
    (hlocated : ∀ x ∈ located, ∀ p ∈ x.2, 0 < p ∧ p ≤ 1) (c : Cell) (eps : Nat) :
    0 < cellProduct located c eps ∧ cellProduct located c eps ≤ 1 := by
  induction located with
  | nil => exact ⟨one_pos, le_rfl⟩
  | cons x rest ih =>
      obtain ⟨hpos, hle⟩ := ih fun y hy => hlocated y (List.mem_cons_of_mem _ hy)
      have hhead : 0 < x.2.getD eps 1 ∧ x.2.getD eps 1 ≤ 1 := by
        rw [List.getD_eq_getElem?_getD]
        cases hget : x.2[eps]? with
        | none => exact ⟨one_pos, le_rfl⟩
        | some p => exact hlocated x List.mem_cons_self p (List.mem_of_getElem? hget)
      rw [cellProduct_cons]
      split
      next => exact ⟨mul_pos hhead.1 hpos, mul_le_one₀ hhead.2 hpos.le hle⟩
      next => exact ⟨mul_pos one_pos hpos, by rwa [one_mul]⟩

variable [NormalCdf ℝ]

/-- What a source counts with for a target that is asked for once. -/
def once (site : Site ℝ) (ctx : SiteContext ℝ) (key : TargetKey ℝ) (source : Source ℝ) :
    List (Share ℝ) :=
  (listed (do placedOf site ctx (← ctx.targets site) source)).flatMap
    fun p => listed (sharesFor site ctx key p)

theorem once_eq {placed : List (Placed ℝ)} (htargets : ctx.targets site = .ok targets)
    (hplaced : placedOf site ctx targets source = .ok placed) :
    once site ctx key source = placed.flatMap fun p => listed (sharesFor site ctx key p) := by
  rw [once, htargets]
  exact congrArg (fun x => (listed x).flatMap _) hplaced

/-- What a source counts with under a key is what it counts with once, as many times as the key is
asked for. -/
theorem product_under_shares {ss : List (Share ℝ)} (hshares : shares site ctx source = .ok ss)
    (hknown : ∃ curve, ctx.curves.get? ⟨site.id, key.realization, key.imt⟩ = some curve)
    (c : Cell) (eps : Nat) :
    product (under (resultKey site ctx key) ss) c eps =
      product (once site ctx key source) c eps ^ ctx.multiplicity key := by
  obtain ⟨targets, htargets, _⟩ := bind_eq_ok.1 hshares
  rw [← SiteContext.countP_targets htargets hknown]
  by_cases hnil : targets = []
  · subst hnil
    rw [shares_of_nil htargets, Except.ok.injEq] at hshares
    simp [← hshares, under, product]
  · obtain ⟨placed, hplaced, hall, rfl⟩ := (shares_eq_ok hnil htargets).1 hshares
    rw [once_eq htargets hplaced, product_under_placed hall]

theorem product_under_sources {sources : List (Source ℝ)}
    (hshares : ∀ source ∈ sources, Succeeds (shares site ctx source))
    (hknown : ∃ curve, ctx.curves.get? ⟨site.id, key.realization, key.imt⟩ = some curve)
    (c : Cell) (eps : Nat) :
    product (under (resultKey site ctx key)
        (sources.flatMap fun source => listed (shares site ctx source))) c eps =
      product (sources.flatMap (once site ctx key)) c eps ^ ctx.multiplicity key := by
  induction sources with
  | nil => simp [under, product]
  | cons source rest ih =>
      obtain ⟨ss, hss⟩ := hshares source List.mem_cons_self
      simp only [List.flatMap_cons, under_append, product_append, mul_pow]
      rw [ih fun q hq => hshares q (List.mem_cons_of_mem _ hq), hss, listed_ok,
        product_under_shares hss hknown]

/-! ## What one rupture counts with -/

/-- A rupture of a source falls into a cell and does not exceed the level of a target, by epsilon
band, with some probabilities: those of a Poisson process thinned to the band. -/
structure Contributes (ctx : SiteContext ℝ) (site : Site ℝ) (realization : Realization ℝ)
    (imt : String) (level : ℝ) (source : Source ℝ) (rupture : Rupture ℝ) (cell : Cell)
    (pnes : List ℝ) : Prop where
  region : ctx.regions.names[cell.trt]? = some source.region
  bins : Arrangement.cell ctx.edges (Binning.offsets ctx.edges.lon) ctx.regions.size
    (Contribution.bare site rupture cell.trt) = .ok cell
  bands : ∃ model prediction bands rate span, realization.model source.region = .ok model ∧
    model.predict rupture.mag (rupture.distanceTo site.location) imt = .ok prediction ∧
    Bands.exceedances prediction level ctx.cfg.truncationLevel ctx.cfg.epsilonBins = .ok bands ∧
    rupture.occurrence = .poissonian rate span ∧
    pnes = bands.map fun band => Real.exp (-rate * span * band)
  probabilities : ∀ p ∈ pnes, 0 ≤ p ∧ p ≤ 1

/-- The cell of a rupture has nothing to do with the level. -/
theorem Contributes.cell_eq {realization : Realization ℝ} {imt : String} {level level' : ℝ}
    {rupture : Rupture ℝ} {k l : Cell} {ps qs : List ℝ}
    (h : Contributes ctx site realization imt level source rupture k ps)
    (h' : Contributes ctx site realization imt level' source rupture l qs) : k = l := by
  obtain ⟨hlt, _⟩ := List.getElem?_eq_some_iff.1 h.region
  have htrt : k.trt = l.trt :=
    (List.getElem?_inj hlt ctx.regions.nodup).1 (h.region.trans h'.region.symm)
  have hbins := h'.bins
  rw [← htrt] at hbins
  exact Except.ok.inj (h.bins.symm.trans hbins)

/-- Between two levels only the bands of a rupture differ. -/
theorem Contributes.exists_bands {realization : Realization ℝ} {imt : String} {level level' : ℝ}
    {rupture : Rupture ℝ} {k l : Cell} {ps qs : List ℝ}
    (h : Contributes ctx site realization imt level source rupture k ps)
    (h' : Contributes ctx site realization imt level' source rupture l qs) :
    ∃ (prediction : Prediction ℝ) (bands bands' : List ℝ) (rate span : ℝ),
      Bands.exceedances prediction level ctx.cfg.truncationLevel ctx.cfg.epsilonBins = .ok bands ∧
      Bands.exceedances prediction level' ctx.cfg.truncationLevel ctx.cfg.epsilonBins =
        .ok bands' ∧
      ps = bands.map (fun band => Real.exp (-rate * span * band)) ∧
      qs = bands'.map fun band => Real.exp (-rate * span * band) := by
  obtain ⟨model, prediction, bands, rate, span, hmodel, hpredict, hbands, hoccurrence, hps⟩ :=
    h.bands
  obtain ⟨model', prediction', bands', rate', span', hmodel', hpredict', hbands', hoccurrence',
    hqs⟩ := h'.bands
  obtain rfl : model = model' := Except.ok.inj (hmodel.symm.trans hmodel')
  obtain rfl : prediction = prediction' := Except.ok.inj (hpredict.symm.trans hpredict')
  obtain ⟨rfl, rfl⟩ := Occurrence.poissonian.inj (hoccurrence.symm.trans hoccurrence')
  exact ⟨prediction, bands, bands', rate, span, hbands, hbands', hps, hqs⟩

/-- A rupture contributes one list of probabilities to one cell. -/
theorem Contributes.unique {realization : Realization ℝ} {imt : String} {level : ℝ}
    {rupture : Rupture ℝ} {k l : Cell} {ps qs : List ℝ}
    (h : Contributes ctx site realization imt level source rupture k ps)
    (h' : Contributes ctx site realization imt level source rupture l qs) : k = l ∧ ps = qs := by
  obtain ⟨prediction, bands, bands', rate, span, hbands, hbands', rfl, rfl⟩ := h.exists_bands h'
  obtain rfl : bands = bands' := Except.ok.inj (hbands.symm.trans hbands')
  exact ⟨h.cell_eq h', rfl⟩

theorem Contributes.mem_unit {realization : Realization ℝ} {imt : String} {level : ℝ}
    {rupture : Rupture ℝ} {k : Cell} {ps : List ℝ}
    (h : Contributes ctx site realization imt level source rupture k ps) {p : ℝ} (hp : p ∈ ps) :
    0 < p ∧ p ≤ 1 := by
  refine ⟨?_, (h.probabilities p hp).2⟩
  obtain ⟨_, _, bands, rate, span, _, _, _, _, rfl⟩ := h.bands
  obtain ⟨band, _, rfl⟩ := List.mem_map.1 hp
  exact Real.exp_pos _

theorem contributes_of_placed {realization : Realization ℝ} {target : Target ℝ}
    {rupture : Rupture ℝ} {p : Placed ℝ} (htargets : ctx.targets site = .ok targets)
    (htarget : target ∈ targets) (hrealization : realization ∈ ctx.realizations)
    (hid : target.key.realization = realization.id)
    (hnumbered : ∀ a ∈ ctx.realizations, ∀ b ∈ ctx.realizations, a.id = b.id → a = b)
    (hepsilon : 0 < ctx.cfg.epsilonBins)
    (hplaced : PlacedRupture site ctx targets source rupture p)
    (hshares : Succeeds (sharesFor site ctx target.key p)) :
    ∃ pnes, p.1.forTarget? target.key = some ⟨target.level, pnes⟩ ∧
      Contributes ctx site realization target.key.imt target.level source rupture p.2 pnes := by
  obtain ⟨trt, htrt, hc⟩ := hplaced.contribution
  obtain ⟨value, hvalue⟩ := Contribution.exists_forTarget? htargets hc htarget
  obtain ⟨other, hother, hsame, model, hmodel, hgiven⟩ :=
    (Contribution.forTarget?_eq_some htargets hnumbered hc htarget).1 hvalue
  rw [hnumbered other hother realization hrealization (hsame.symm.trans hid)] at hmodel
  obtain ⟨prediction, hprediction, hgiven⟩ := bind_eq_ok.1 hgiven
  obtain ⟨bands, hbands, hgiven⟩ := bind_eq_ok.1 hgiven
  obtain ⟨pnes, hpnes, hgiven⟩ := bind_eq_ok.1 hgiven
  have hnonempty : bands ≠ [] := by
    rintro rfl
    have hlength := Bands.length_exceedances hbands
    simp at hlength
    omega
  obtain ⟨rate, span, hoccurrence, hmap⟩ := Occurrence.mapM_noExceedance hnonempty hpnes
  obtain ⟨new, _, hfields⟩ := Contribution.ofRupture_eq_ok.1 hc
  have hcell := Arrangement.cell_eq_ok.1 hplaced.cell
  have hvalue' : p.1.forTarget? target.key = some ⟨target.level, pnes⟩ := by
    rw [hvalue, ← pure_eq_ok.1 hgiven]
  obtain ⟨_, hss⟩ := hshares
  obtain ⟨_, _, _, _, hprobabilities, _⟩ := (sharesFor_of_some hvalue').1 hss
  refine ⟨pnes, hvalue', ⟨?_, ?_, ?_, fun p hp =>
    (Scalar.isProbability_exact p).1 (hprobabilities p hp)⟩⟩
  · rw [hcell.2.1, hfields]
    exact indexOf_eq_ok htrt
  · rw [Arrangement.cell_eq_ok]
    rw [hfields] at hcell
    exact ⟨hcell.2.1 ▸ hcell.1, rfl, hcell.2.2⟩
  · exact ⟨model, prediction, bands, rate, span, hmodel, hprediction, hbands, hoccurrence, hmap⟩

theorem product_sharesFor {rupture : Rupture ℝ} {p : Placed ℝ} {level : ℝ} {pnes : List ℝ}
    (hplaced : PlacedRupture site ctx targets source rupture p)
    (hvalue : p.1.forTarget? key = some ⟨level, pnes⟩)
    (hshares : Succeeds (sharesFor site ctx key p)) (c : Cell) (eps : Nat) :
    product (listed (sharesFor site ctx key p)) c eps = if p.2 = c then pnes.getD eps 1 else 1 := by
  obtain ⟨ss, hss⟩ := hshares
  obtain ⟨shape, cell, hshape, _, _, hcell, _, rfl⟩ := (sharesFor_of_some hvalue).1 hss
  have hholds := Arrangement.holds_cell hshape hplaced.cell
  rw [Shape.locate?_of_holds hholds, Option.some.injEq] at hcell
  simp [hss, product, factor, hcell, eq_comm]

/-- Where a target is known, every rupture near the site contributes, and nothing else does. -/
theorem exists_located {realization : Realization ℝ} {target : Target ℝ} {ss : List (Share ℝ)}
    (hshares : shares site ctx source = .ok ss) (htargets : ctx.targets site = .ok targets)
    (htarget : target ∈ targets) (hrealization : realization ∈ ctx.realizations)
    (hid : target.key.realization = realization.id)
    (hnumbered : ∀ a ∈ ctx.realizations, ∀ b ∈ ctx.realizations, a.id = b.id → a = b)
    (hepsilon : 0 < ctx.cfg.epsilonBins) :
    ∃ located : List (Cell × List ℝ),
      List.Forall₂ (fun rupture x =>
          Contributes ctx site realization target.key.imt target.level source rupture x.1 x.2)
        (source.nearby site ctx.cfg.maximumDistance) located ∧
      ∀ c eps, product (once site ctx target.key source) c eps = cellProduct located c eps := by
  have hnil : targets ≠ [] := List.ne_nil_of_mem htarget
  obtain ⟨placed, hplaced, hall, hss⟩ := (shares_eq_ok hnil htargets).1 hshares
  rw [once_eq htargets hplaced]
  -- the induction is on the ruptures near the site, each with its placed contribution
  have hpairs := (placedOf_eq_ok_iff_forall₂.1 hplaced).2
  replace hall := fun p hp => hall p hp target htarget
  clear hplaced hshares hss
  generalize source.nearby site ctx.cfg.maximumDistance = ruptures at hpairs ⊢
  induction hpairs with
  | nil => exact ⟨[], .nil, fun c eps => rfl⟩
  | @cons rupture p ruptures placed hhead _ ih =>
      obtain ⟨located, hlocated, hproduct⟩ := ih fun q hq => hall q (List.mem_cons_of_mem _ hq)
      obtain ⟨pnes, hvalue, hcontributes⟩ :=
        contributes_of_placed htargets htarget hrealization hid hnumbered hepsilon hhead
          (hall p List.mem_cons_self)
      refine ⟨(p.2, pnes) :: located, .cons hcontributes hlocated, fun c eps => ?_⟩
      rw [List.flatMap_cons, product_append, hproduct, cellProduct_cons,
        product_sharesFor hhead hvalue (hall p List.mem_cons_self)]

/-- The ruptures near a site, each with its source. -/
def nearbyRuptures (sources : List (Source ℝ)) (site : Site ℝ) (d : ℝ) :
    List (Source ℝ × Rupture ℝ) :=
  sources.flatMap fun source => (source.nearby site d).map fun rupture => (source, rupture)

theorem exists_located_all {realization : Realization ℝ} {target : Target ℝ}
    {sources : List (Source ℝ)}
    (hshares : ∀ source ∈ sources, Succeeds (shares site ctx source))
    (htargets : ctx.targets site = .ok targets) (htarget : target ∈ targets)
    (hrealization : realization ∈ ctx.realizations)
    (hid : target.key.realization = realization.id)
    (hnumbered : ∀ a ∈ ctx.realizations, ∀ b ∈ ctx.realizations, a.id = b.id → a = b)
    (hepsilon : 0 < ctx.cfg.epsilonBins) :
    ∃ located : List (Cell × List ℝ),
      List.Forall₂ (fun near x =>
          Contributes ctx site realization target.key.imt target.level near.1 near.2 x.1 x.2)
        (nearbyRuptures sources site ctx.cfg.maximumDistance) located ∧
      ∀ c eps, product (sources.flatMap (once site ctx target.key)) c eps =
        cellProduct located c eps := by
  induction sources with
  | nil => exact ⟨[], .nil, fun c eps => rfl⟩
  | cons source rest ih =>
      obtain ⟨ss, hss⟩ := hshares source List.mem_cons_self
      obtain ⟨first, hfirst, hproduct⟩ :=
        exists_located hss htargets htarget hrealization hid hnumbered hepsilon
      obtain ⟨others, hothers, hproducts⟩ := ih fun q hq => hshares q (List.mem_cons_of_mem _ hq)
      refine ⟨first ++ others, ?_, fun c eps => ?_⟩
      · rw [nearbyRuptures, List.flatMap_cons]
        exact List.rel_append (List.forall₂_map_left_iff.2 hfirst) hothers
      · rw [List.flatMap_cons, product_append, cellProduct_append, hproduct, hproducts]

end Collection

end SeismicHazard

end
