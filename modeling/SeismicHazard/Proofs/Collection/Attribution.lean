import SeismicHazard.Proofs.Collection.Origins
import SeismicHazard.Proofs.GroundMotion.Bands
import SeismicHazard.Proofs.GroundMotion.Normal
import SeismicHazard.Proofs.Keys
import SeismicHazard.Proofs.Matrix.Sound
import SeismicHazard.Proofs.Sample
import SeismicHazard.Proofs.SortedMap

/-!
# Which source a failure comes from

Once there are targets, every failure of a collection has its cause in one of the sources. A cause
that shows before contributions are arranged is reported with the name of the source. Coordinates
that cannot be binned, and non-exceedances that are no probabilities, show only when the
contributions of all sources have become one list, and are reported without a name.
-/

namespace SeismicHazard

open Scalar

variable {R : Type} [Scalar R]

omit [Scalar R] in
theorem Ends.named {α : Type} {E : Error R → Prop} {P : α → Prop} {x : Except (Error R) α}
    (hx : Ends E P x) (id : String) :
    Ends (fun e => ∃ cause, E cause ∧ e = cause.inSource id) P (Except.inSource id x) := by
  cases x with
  | error cause => exact ⟨cause, hx, rfl⟩
  | ok a => exact hx

omit [Scalar R] in
theorem Regions.lt_of_indexOf {regions : Regions} {name : String} {trt : Nat}
    (hindex : regions.indexOf (R := R) name = .ok trt) : trt < regions.size := by
  unfold indexOf at hindex
  split at hindex
  next i hi => exact Except.ok.inj hindex ▸ (List.idxOf?_eq_some_iff.1 hi).1
  next => cases hindex

/-- All matrices of the results have one shape and hold probabilities. -/
def Results.AllSound (shape : Shape) (results : Results R) : Prop :=
  ∀ entry ∈ results.entries, entry.2.shape = shape ∧ entry.2.Sound

/-- A matrix of the common shape can always be added. -/
theorem Results.AllSound.exists_add [ProbabilityRules R] {shape : Shape} {results : Results R}
    (hresults : results.AllSound shape) {m : Matrix R} (hm : m.shape = shape) (hsound : m.Sound)
    (key : ResultKey R) : ∃ later, results.add key m = .ok later ∧ later.AllSound shape := by
  have hinsert : ∀ n : Matrix R, n.shape = shape → n.Sound →
      AllSound shape (SortedMap.insert results key n) := by
    intro n hn hsound' entry hentry
    rcases SortedMap.mem_put hentry with rfl | hold
    · exact ⟨hn, hsound'⟩
    · exact hresults entry hold
  unfold add
  cases hpresent : results.get? key with
  | none => exact ⟨_, rfl, hinsert m hm hsound⟩
  | some present =>
      obtain ⟨key', hmem⟩ := SortedMap.exists_mem_of_get? hpresent
      obtain ⟨hshape, hpresent⟩ := hresults _ hmem
      obtain ⟨r, hr⟩ := hsound.exists_merge (hshape.trans hm.symm)
      obtain ⟨hr', hgrows⟩ := hpresent.of_merge hr
      exact ⟨_, bind_eq_ok.2 ⟨r, hr, rfl⟩, hinsert r (hgrows.shape.trans hshape) hr'⟩

section Attribution

variable [NormalCdf R] {ctx : SiteContext R} {site : Site R} {targets : List (Target R)}
  {sources : List (Source R)} {source : Source R}

theorem Gives.length_pnes {rupture : Rupture R} {target : Target R} {value : BandNonExceedance R}
    (h : Gives ctx site source rupture target value) :
    value.pnes.length = ctx.cfg.epsilonBins := by
  obtain ⟨_, _, _, _, hcomputed⟩ := h
  obtain ⟨prediction, _, hcomputed⟩ := bind_eq_ok.1 hcomputed
  obtain ⟨bands, hbands, hcomputed⟩ := bind_eq_ok.1 hcomputed
  obtain ⟨pnes, hpnes, hcomputed⟩ := bind_eq_ok.1 hcomputed
  rw [← pure_eq_ok.1 hcomputed]
  exact (mapM_eq_ok.1 hpnes).length_eq ▸ Bands.length_exceedances hbands

variable (ctx site targets)

/-- What is reported without the name of the source: coordinates of a rupture that cannot be binned,
and a non-exceedance of a rupture that is no probability. -/
inductive Unnamed (source : Source R) : Fault R → Prop
  | place {rupture : Rupture R} {fault : Fault R}
      (kept : source.Keeps site.location ctx.cfg.maximumDistance rupture)
      (unplaceable : Unplaceable ctx.edges rupture.mag (rupture.distanceTo site.location)
        (rupture.closestPoint site.location) fault) : Unnamed source fault
  | product {rupture : Rupture R} {target : Target R} {value : BandNonExceedance R} {p : R}
      (kept : source.Keeps site.location ctx.cfg.maximumDistance rupture)
      (wanted : target ∈ targets) (gives : Gives ctx site source rupture target value)
      (taken : p ∈ value.pnes) (improbable : isProbability p = false) :
      Unnamed source (.mergeRule p)

/-- A failure that comes from one of some sources, with or without its name; or there is no room. -/
def Explained (sources : List (Source R)) (e : Error R) : Prop :=
  (∃ precondition, e.fault = .broken precondition) ∨
    ∃ source ∈ sources,
      (∃ cause, Cause ctx site targets source cause ∧ e = cause.inSource source.id) ∨
        ∃ fault, Unnamed ctx site targets source fault ∧ e = .of fault

variable {ctx site targets}

theorem ends_rupturesNear :
    Ends (Explained ctx site targets sources)
      (fun groups => ∀ group ∈ groups, group.source ∈ sources ∧
        (∃ rupture, rupture ∈ group.ruptures) ∧
        ∀ rupture ∈ group.ruptures,
          group.source.Keeps site.location ctx.cfg.maximumDistance rupture)
      (rupturesNear sources site ctx.cfg.maximumDistance) := by
  have hnear : ∀ source ∈ sources, Ends (Explained ctx site targets sources)
      (fun group? : Option (NearbyRuptures R) => ∀ group, group? = some group →
        group.source ∈ sources ∧ (∃ rupture, rupture ∈ group.ruptures) ∧
        ∀ rupture ∈ group.ruptures,
          group.source.Keeps site.location ctx.cfg.maximumDistance rupture)
      (source.near? site ctx.cfg.maximumDistance) := by
    intro source hsource
    unfold Source.near?
    split
    next => exact fun group hgroup => by cases hgroup
    next hfar =>
      have hfar := Bool.not_eq_true _ ▸ hfar
      apply (((Ends.of (P := fun ruptures => source.ruptures = .ok ruptures)
        (fun e he => (Cause.ruptures hfar he : Cause ctx site targets source e)) fun _ h => h).named
          source.id).weaken fun e he => .inr ⟨source, hsource, .inl he⟩).bind
      intro ruptures _ hruptures group hgroup
      split at hgroup
      next => cases hgroup
      next hsome =>
        obtain rfl := Option.some.inj hgroup
        refine ⟨hsource, ?_, fun rupture hrupture => ?_⟩
        · exact List.exists_mem_of_ne_nil _ fun hnil => hsome (List.isEmpty_iff.2 hnil)
        · obtain ⟨hmem, hle⟩ := List.mem_filter.1 hrupture
          exact ⟨hfar, ⟨ruptures, hruptures, hmem⟩, of_decide_eq_true hle⟩
  apply (Ends.mapM hnear).bind
  intro groups _ hgroups group hgroup
  obtain ⟨group?, hgroup?, hsome⟩ := List.mem_filterMap.1 hgroup
  exact hgroups group? hgroup? group hsome

namespace Contribution

theorem ends_ofSource {group : NearbyRuptures R} (hsome : ∃ rupture, rupture ∈ group.ruptures)
    (hkept : ∀ rupture ∈ group.ruptures,
      group.source.Keeps site.location ctx.cfg.maximumDistance rupture) :
    Ends (fun e => ∃ cause, Cause ctx site targets group.source cause ∧
        e = cause.inSource group.source.id)
      (fun contributions => ∀ c ∈ contributions, ∃ rupture,
        group.source.Keeps site.location ctx.cfg.maximumDistance rupture ∧
          Shows ctx site targets group.source rupture c)
      (ofSource ctx site targets group) := by
  apply Ends.named
  obtain ⟨first, hfirst⟩ := hsome
  apply (Ends.of (P := fun trt => trt < ctx.regions.size)
    (fun e he => .region (hkept first hfirst) he) fun _ => Regions.lt_of_indexOf).bind
  intro trt _ htrt
  apply Ends.mapM
  intro rupture hrupture
  apply (ends_ofRupture (hkept rupture hrupture) htrt).mono
  intro c hc
  exact ⟨rupture, hkept rupture hrupture, hc⟩

end Contribution

/-- Contributions that show ruptures which some sources keep. -/
def ShowKept (ctx : SiteContext R) (site : Site R) (targets : List (Target R))
    (sources : List (Source R)) (contributions : List (Contribution R)) : Prop :=
  ∀ c ∈ contributions, ∃ source ∈ sources, ∃ rupture,
    source.Keeps site.location ctx.cfg.maximumDistance rupture ∧
      c.Shows ctx site targets source rupture

theorem Contribution.ends_ofGroups {groups : List (NearbyRuptures R)}
    (hgroups : ∀ group ∈ groups, group.source ∈ sources ∧
      (∃ rupture, rupture ∈ group.ruptures) ∧
      ∀ rupture ∈ group.ruptures,
        group.source.Keeps site.location ctx.cfg.maximumDistance rupture) :
    Ends (Explained ctx site targets sources) (ShowKept ctx site targets sources)
      (ofGroups ctx site targets groups) := by
  have hgroup : ∀ group ∈ groups, Ends (Explained ctx site targets sources)
      (ShowKept ctx site targets sources) (ofSource ctx site targets group) := by
    intro group hgroup
    obtain ⟨hsource, hsome, hkept⟩ := hgroups group hgroup
    apply ((ends_ofSource hsome hkept).weaken fun e he =>
      .inr ⟨group.source, hsource, .inl he⟩).mono
    intro contributions hcontributions c hc
    exact ⟨group.source, hsource, hcontributions c hc⟩
  apply (Ends.mapM hgroup).bind
  intro found _ hfound c hc
  obtain ⟨part, hpart, hc⟩ := List.mem_flatten.1 hc
  exact hfound part hpart c hc

namespace Arrangement

variable {shape : Shape} {contributions : List (Contribution R)}

theorem ends_cells (hedges : ctx.edges.Counted ctx.cfg)
    (hshape : ctx.edges.shape ctx.regions.size = .ok shape)
    (hshow : ShowKept ctx site targets sources contributions) :
    Ends (Explained ctx site targets sources) (fun cells => ∀ k ∈ cells, shape.holds k = true)
      (cells contributions ctx.edges ctx.regions.size) := by
  apply Ends.mapM
  intro c hc
  obtain ⟨source, hsource, rupture, hkept, hshows⟩ := hshow c hc
  apply (ends_cell hedges hshape hshows.trt).weaken
  rintro e ⟨fault, hfault, rfl⟩
  rw [hshows.mag, hshows.dist, hshows.closest] at hfault
  exact .inr ⟨source, hsource, .inr ⟨fault, .place hkept hfault, rfl⟩⟩

variable [ProbabilityRules R]

/-- What a rupture gives is taken into a matrix with a band for each value, unless one of the values
is no probability. -/
theorem ends_accumulate {m : Matrix R} (hsound : m.Sound) (heps : m.shape.eps = ctx.cfg.epsilonBins)
    {cell : Cell} (hcell : m.shape.holds cell = true) (hsource : source ∈ sources)
    {rupture : Rupture R} (hkept : source.Keeps site.location ctx.cfg.maximumDistance rupture)
    {target : Target R} (htarget : target ∈ targets) {value : BandNonExceedance R}
    (hgives : Gives ctx site source rupture target value) :
    Ends (Explained ctx site targets sources) (fun n : Matrix R => n.shape = m.shape ∧ n.Sound)
      (m.accumulate cell value.pnes) := by
  apply Ends.of
  · intro e he
    cases hcheck : checkProbabilities value.pnes with
    | error e' =>
        rw [Matrix.accumulate, hcheck] at he
        obtain rfl := Except.error.inj he
        obtain ⟨p, hp, hbad, rfl⟩ := checkProbabilities_eq_error hcheck
        exact .inr ⟨source, hsource, .inr ⟨_, .product hkept htarget hgives hp hbad, rfl⟩⟩
    | ok _ =>
        have hlength : m.shape.eps = value.pnes.length := heps.trans hgives.length_pnes.symm
        rw [Matrix.accumulate, hcheck, Shape.locate?_of_holds hcell] at he
        simp [hlength, bind, Except.bind] at he
  · intro n hn
    obtain ⟨hsound', hgrows⟩ := hsound.of_accumulate hn
    exact ⟨hgrows.shape, hsound'⟩

theorem ends_add (hshape : ctx.edges.shape ctx.regions.size = .ok shape)
    (heps : shape.eps = ctx.cfg.epsilonBins) {placed : Contribution R × Cell}
    (hsource : source ∈ sources) {rupture : Rupture R}
    (hkept : source.Keeps site.location ctx.cfg.maximumDistance rupture)
    (hshows : placed.1.Shows ctx site targets source rupture)
    (hcell : shape.holds placed.2 = true) (key : TargetKey R) {matrix? : Option (Matrix R)}
    (hmatrix : ∀ m, matrix? = some m → m.shape = shape ∧ m.Sound) :
    Ends (Explained ctx site targets sources)
      (fun matrix? => ∀ m, matrix? = some m → m.shape = shape ∧ m.Sound)
      (add key ctx.edges ctx.regions.size matrix? placed) := by
  unfold add
  split
  next => exact hmatrix
  next bands hbands =>
    obtain ⟨entry, hentry, rfl⟩ := Option.map_eq_some_iff.1 hbands
    obtain ⟨target, htarget, hgives⟩ := hshows.given entry (List.mem_of_find?_eq_some hentry)
    have haccumulate : ∀ m : Matrix R, m.shape = shape → m.Sound →
        Ends (Explained ctx site targets sources)
          (fun matrix? => ∀ m, matrix? = some m → m.shape = shape ∧ m.Sound)
          (some <$> m.accumulate placed.2 entry.2.pnes) := by
      intro m hm hsound
      apply (ends_accumulate hsound (hm ▸ heps) (hm ▸ hcell) hsource hkept htarget hgives).map
      intro n hn n' hn'
      exact Option.some.inj hn' ▸ ⟨hn.1.trans hm, hn.2⟩
    cases matrix? with
    | some m =>
        obtain ⟨hm, hsound⟩ := hmatrix m rfl
        exact haccumulate m hm hsound
    | none =>
        rw [hshape]
        apply ((Matrix.ends_create shape entry.2.level).weaken fun e he => .inl ⟨_, he⟩).bind
        rintro _ _ rfl
        exact haccumulate _ rfl (Matrix.sound_empty shape entry.2.level)

theorem ends_matrix? (hshape : ctx.edges.shape ctx.regions.size = .ok shape)
    (heps : shape.eps = ctx.cfg.epsilonBins)
    (hshow : ShowKept ctx site targets sources contributions) {cells : List Cell}
    (hcells : ∀ k ∈ cells, shape.holds k = true) (key : TargetKey R) :
    Ends (Explained ctx site targets sources)
      (fun matrix? => ∀ m, matrix? = some m → m.shape = shape ∧ m.Sound)
      (matrix? contributions cells key ctx.edges ctx.regions.size) := by
  apply Ends.foldlM (motive := fun _ (matrix? : Option (Matrix R)) =>
    ∀ m, matrix? = some m → m.shape = shape ∧ m.Sound)
  · exact fun m hm => by cases hm
  · intro before placed after matrix? hsplit hmatrix
    obtain ⟨hc, hk⟩ : placed.1 ∈ contributions ∧ placed.2 ∈ cells :=
      List.of_mem_zip (by rw [hsplit]; simp)
    obtain ⟨source, hsource, rupture, hkept, hshows⟩ := hshow placed.1 hc
    exact ends_add hshape heps hsource hkept hshows (hcells placed.2 hk) key hmatrix

end Arrangement

namespace Collection

variable [ProbabilityRules R]

/-- Once there are targets, every failure is explained by a source. -/
theorem ends_collect (hedges : ctx.edges.Counted ctx.cfg)
    (htargets : ctx.targets site = .ok targets) :
    Ends (Explained ctx site targets sources) (fun _ => True) (collect sources site ctx) := by
  obtain ⟨shape, hshape, heps⟩ := hedges.exists_shape ctx.regions.size
  unfold collect
  rw [htargets]
  change Ends _ _ (if targets.isEmpty then _ else _)
  split
  next => trivial
  next =>
    apply ends_rupturesNear.bind
    intro groups _ hgroups
    split
    next => trivial
    next =>
      apply (Contribution.ends_ofGroups hgroups).bind
      intro contributions _ hshow
      apply (Arrangement.ends_cells hedges hshape hshow).bind
      intro cells _ hcells
      -- all matrices have one shape, so those under one key can be merged
      have hfold : Ends (Explained ctx site targets sources)
          (Results.AllSound shape)
          (targets.foldlM (addTarget site ctx contributions cells) SortedMap.empty) := by
        apply Ends.foldlM (motive := fun _ => Results.AllSound shape)
        · exact fun entry hentry => absurd hentry List.not_mem_nil
        · intro before target after results _ hresults
          apply (Arrangement.ends_matrix? hshape heps hshow hcells target.key).bind
          intro matrix? _ hmatrix
          cases matrix? with
          | none => exact hresults
          | some m =>
              obtain ⟨hm, hsound⟩ := hmatrix m rfl
              exact .of_succeeds (hresults.exists_add hm hsound _)
      exact hfold.mono fun _ _ => trivial

/-- A failure of a collection that has targets comes from one of the sources. If the source cannot
generate its ruptures, or its region, a model, the bands of epsilon or the occurrence fail for it,
then the failure names it, or whichever source the cause already named. If coordinates of one of its
ruptures cannot be binned, or a non-exceedance of one is no probability, then no source is named. -/
theorem source_of_collect_error {bounds : SiteBounds R} {mags : Option (MagRange R)}
    (hedges : BinEdges.ofBounds? bounds mags ctx.cfg = .ok (some ctx.edges))
    (htargets : ctx.targets site = .ok targets) {e : Error R}
    (he : collect sources site ctx = .error e)
    (hroom : ∀ precondition, e.fault ≠ .broken precondition) :
    ∃ source ∈ sources,
      (∃ cause, Cause ctx site targets source cause ∧
        e.source = some (cause.source.getD source.id) ∧ e.fault = cause.fault) ∨
      (e.source = none ∧ Unnamed ctx site targets source e.fault) := by
  have hexplained : Explained ctx site targets sources e :=
    (ends_collect (BinEdges.counted_of_ofBounds? hedges) htargets).failure he
  rcases hexplained with ⟨precondition, hbroken⟩ | ⟨source, hsource, hnamed | hunnamed⟩
  · exact absurd hbroken (hroom precondition)
  · obtain ⟨cause, hcause, rfl⟩ := hnamed
    rw [Error.fault_inSource] at hroom
    exact ⟨source, hsource, .inl ⟨cause, hcause, Error.source_inSource hroom,
      Error.fault_inSource source.id cause⟩⟩
  · obtain ⟨fault, hfault, rfl⟩ := hunnamed
    exact ⟨source, hsource, .inr ⟨rfl, hfault⟩⟩

end Collection

end Attribution

namespace Sample

noncomputable section

/-- A site with one target, at which sources are disaggregated. -/
def context : SiteContext ℝ where
  cfg := cfg [1 / 10] 1
  regions := ⟨["Crust"], List.nodup_singleton _⟩
  realizations := [{ id := 0, weight := 1, models := [("Crust", model)] }]
  edges := edges
  curves := SortedMap.empty.insert ⟨0, 0, "PGA"⟩ curve

theorem context_targets :
    context.targets ⟨0, ⟨0, 0⟩⟩ = .ok [⟨⟨0, ⟨1 / 10⟩, "PGA"⟩, 1⟩] := by
  have hcurve : context.curves.get? ⟨0, 0, "PGA"⟩ = some curve := by
    rw [context, SortedMap.get?_insert, if_pos rfl]
  have htarget : context.target? ⟨0, ⟨0, 0⟩⟩ (1 / 10) "PGA"
      { id := 0, weight := 1, models := [("Crust", model)] } =
        .ok (some ⟨⟨0, ⟨1 / 10⟩, "PGA"⟩, 1⟩) := by
    rw [SiteContext.target?, hcurve]
    exact bind_eq_ok.2 ⟨1, curve_levelFor (1 / 10), rfl⟩
  exact bind_eq_ok.2 ⟨_, mapM_eq_ok.2 (.cons htarget .nil), rfl⟩

/-- A source that cannot say which ruptures it has. -/
def faulty : Source ℝ :=
  { source "b" 1 with ruptures := .error (.config (.occurrenceRate (-1) (11 / 2))) }

theorem near?_source (id : String) (rate : ℝ) :
    (source id rate).near? ⟨0, ⟨0, 0⟩⟩ context.cfg.maximumDistance =
      .ok (some ⟨source id rate, [rupture rate]⟩) := by
  refine Source.near?_eq_ok.2 ⟨fun _ => ⟨_, rfl⟩, ?_⟩
  rw [show context.cfg.maximumDistance = 200 from rfl, nearby_source, if_neg (List.cons_ne_nil _ _)]

/-- The second of two sources fails, and is named. -/
theorem collect_faulty : Collection.collect [source "a" 1, faulty] ⟨0, ⟨0, 0⟩⟩ context =
    .error ⟨some "b", .config (.occurrenceRate (-1) (11 / 2))⟩ := by
  have hfaulty : faulty.near? ⟨0, ⟨0, 0⟩⟩ context.cfg.maximumDistance =
      .error ⟨some "b", .config (.occurrenceRate (-1) (11 / 2))⟩ := by
    have hnear : faulty.isFar ⟨0, 0⟩ context.cfg.maximumDistance = false := by
      change decide ((200 : ℝ) < 15) = false
      norm_num
    simp only [Source.near?, hnear]
    rfl
  have hnear : rupturesNear [source "a" 1, faulty] ⟨0, ⟨0, 0⟩⟩ context.cfg.maximumDistance =
      .error ⟨some "b", .config (.occurrenceRate (-1) (11 / 2))⟩ := by
    simp only [rupturesNear, List.mapM_cons, near?_source, hfaulty]
    rfl
  simp only [Collection.collect, context_targets, hnear]
  rfl

theorem source_of_collect_faulty : ProbabilityRules ℝ ∧
    BinEdges.ofBounds? ⟨some spread⟩ (some ⟨11 / 2, 11 / 2⟩) context.cfg =
      .ok (some context.edges) ∧
    ∃ σ ∈ [source "a" 1, faulty], ∃ cause, Cause context ⟨0, ⟨0, 0⟩⟩
      [⟨⟨0, ⟨1 / 10⟩, "PGA"⟩, 1⟩] σ cause ∧ some "b" = some (cause.source.getD σ.id) := by
  have hedges : BinEdges.ofBounds? ⟨some spread⟩ (some ⟨11 / 2, 11 / 2⟩) context.cfg =
      .ok (some context.edges) := BinEdges.ofBounds?_eq_ok.2 ⟨edges, rfl, edges_built⟩
  refine ⟨inferInstance, hedges, ?_⟩
  have hfound := Collection.source_of_collect_error hedges context_targets
    collect_faulty (fun _ => by simp)
  obtain ⟨σ, hσ, hcause | hnone⟩ := hfound
  · obtain ⟨cause, hcause, hname, _⟩ := hcause
    exact ⟨σ, hσ, cause, hcause, hname⟩
  · cases hnone.1

end

end Sample

end SeismicHazard
