import QBackend.OperatorSoundness
import QBackend.PopulationSeeding

/-!
# The first population within the limits

A nudge that is refused and a repair that does not help leave a registry fixture in the population
that no validator has seen. Its nodes and edges stay what they are through all of this, so that such
a member is valid exactly when the fixture that it comes from is small enough.
-/

namespace QBackend.GenomeDsl

open FallibleSteps
open GeneticSearch (Individual initialGenomeIds nodup_initialGenomeIds)
open StrategyBuilder (maCrossoverGenome)

/-! ## Related lists -/

section Related

variable {α β γ : Type} {R : α → β → Prop} {xs : List α} {ys : List β}

theorem map_eq_of_forall₂ {f : α → γ} {g : β → γ} (h : List.Forall₂ R xs ys)
    (hR : ∀ x y, R x y → g y = f x) : ys.map g = xs.map f := by
  induction h with
  | nil => rfl
  | cons hxy _ ih => rw [List.map_cons, List.map_cons, hR _ _ hxy, ih]

theorem forall_mem_iff_of_forall₂ {P : β → Prop} {Q : α → Prop} (h : List.Forall₂ R xs ys)
    (hR : ∀ x ∈ xs, ∀ y, R x y → (P y ↔ Q x)) : (∀ y ∈ ys, P y) ↔ ∀ x ∈ xs, Q x := by
  induction h with
  | nil => simp
  | cons hxy _ ih =>
    rw [List.forall_mem_cons] at hR
    rw [List.forall_mem_cons, List.forall_mem_cons, hR.1 _ hxy, ih hR.2]

end Related

/-! ## Sizes -/

/-- The genome has no more nodes and no longer chains than the limits allow. -/
def Genome.Fits (genome : Genome) (limits : Limits) : Prop :=
  genome.nodes.length ≤ limits.maxNodes ∧
    ∀ node ∈ genome.nodes, nodeDepth genome genome.nodes.length node.id ≤ limits.maxDepth

instance (genome : Genome) (limits : Limits) : Decidable (genome.Fits limits) :=
  inferInstanceAs (Decidable (_ ∧ _))

section Sizes

variable {F : Type} [PriceFloat F] {genome genome' : Genome} {limits : Limits}

theorem validateDepth_eq_ok {maxDepth : ℕ} {node : GenomeNode} :
    validateDepth genome maxDepth node = .ok () ↔
      nodeDepth genome genome.nodes.length node.id ≤ maxDepth :=
  ensure_eq_ok

theorem ValidWithin.fits (h : ValidWithin F limits genome) : genome.Fits limits := by
  obtain ⟨hcount, -, -, -, hdepth, -⟩ := validateGenome_eq_ok.mp h
  exact ⟨hcount, fun node hnode => validateDepth_eq_ok.mp (hdepth node hnode)⟩

theorem SameGraph.fits_iff (h : SameGraph genome genome') :
    genome'.Fits limits ↔ genome.Fits limits := by
  have hids : ∀ g : Genome,
      (∀ node ∈ g.nodes, GenomeDsl.nodeDepth g g.nodes.length node.id ≤ limits.maxDepth) ↔
      ∀ id ∈ g.ids, GenomeDsl.nodeDepth g g.nodes.length id ≤ limits.maxDepth := by
    intro g
    simp [Genome.ids]
  unfold Genome.Fits
  rw [hids, hids, h.length, h.ids]
  refine and_congr_right fun _ => forall₂_congr fun id _ => ?_
  rw [h.nodeDepth]

theorem fits_policy_iff (policy : Option ExitRulePolicy) :
    ({ genome with exitRulePolicy := policy } : Genome).Fits limits ↔ genome.Fits limits := by
  refine and_congr_right fun _ => forall₂_congr fun node _ => ?_
  rw [nodeDepth_policy]

def ParamValue.isReference : ParamValue → Bool
  | .lit _ => false
  | .ref _ _ => true

/-- All parameters are those of the search. -/
def GenomeNode.RefersOnly (node : GenomeNode) : Prop :=
  ∀ param ∈ node.params, ∃ name negate, param.2 = .ref name negate

theorem validateNode_refersOnly {F' : Type} [PriceFloat F'] {node : GenomeNode}
    (hrefs : node.RefersOnly) (h : validateNode F' genome node = .ok ()) :
    validateNode F genome node = .ok () := by
  simp only [validateNode, seq_eq_ok, forM_eq_ok] at h ⊢
  obtain ⟨hkeys, hparams, hrest⟩ := h
  refine ⟨hkeys, fun param hparam => ?_, hrest⟩
  obtain ⟨name, negate, href⟩ := hrefs param hparam
  have hold := hparams param hparam
  unfold validateParam at hold ⊢
  rw [href] at hold ⊢
  exact hold

end Sizes

/-! ## Registry fixtures -/

section Fixtures

variable {F : Type} [PriceFloat F] {limits : Limits}

theorem registryFixtures_refer : ∀ fixture ∈ registryFixtures,
    ∀ node ∈ fixture.2.nodes, node.RefersOnly := by
  have hall : registryFixtures.all (fun fixture => fixture.2.nodes.all fun node =>
      node.params.all fun param => param.2.isReference) = true := by decide
  intro fixture hfixture node hnode param hparam
  have href := List.all_eq_true.mp (List.all_eq_true.mp (List.all_eq_true.mp hall fixture hfixture)
    node hnode) param hparam
  cases hvalue : param.2 with
  | ref name negate => exact ⟨name, negate, rfl⟩
  | lit value =>
    rw [hvalue] at href
    cases href

theorem registryFixtures_valid : ∀ fixture ∈ registryFixtures,
    ValidWithin ProbePrice ⟨6, 4⟩ fixture.2 := by
  have hall : registryFixtures.all (fun fixture =>
      (validateGenome ProbePrice fixture.2 4 6).toBool) = true := by decide +kernel
  exact fun fixture hfixture => toBool_eq_true.mp (List.all_eq_true.mp hall fixture hfixture)

theorem fixture_valid {fixture : String × Genome} (hfixture : fixture ∈ registryFixtures)
    (hfits : fixture.2.Fits limits) : ValidWithin F limits fixture.2 := by
  obtain ⟨-, hnodup, hnodes, hacyclic, -, hsignals, hpolicy⟩ :=
    validateGenome_eq_ok.mp (registryFixtures_valid fixture hfixture)
  refine validateGenome_eq_ok.mpr ⟨hfits.1, hnodup, fun node hnode => ?_, hacyclic, ?_, hsignals,
    hpolicy⟩
  · exact validateNode_refersOnly (registryFixtures_refer fixture hfixture node hnode)
      (hnodes node hnode)
  · exact fun node hnode => validateDepth_eq_ok.mpr (hfits.2 node hnode)

theorem fixture_fits {fixture : String × Genome} (hfixture : fixture ∈ registryFixtures)
    (hnodes : 6 ≤ limits.maxNodes) (hdepth : 4 ≤ limits.maxDepth) : fixture.2.Fits limits := by
  obtain ⟨hcount, hchains⟩ := (registryFixtures_valid fixture hfixture).fits
  exact ⟨hcount.trans hnodes, fun node hnode => (hchains node hnode).trans hdepth⟩

theorem fallback_mem : ("MACrossover", tradeableRegistryFallback) ∈ registryFixtures :=
  List.mem_cons_self

end Fixtures

/-! ## Members -/

/-- The genome is valid exactly when the condition holds, which settles its size. -/
structure Settles (F : Type) [PriceFloat F] (limits : Limits) (condition : Prop) (genome : Genome) :
    Prop where
  valid : genome.Fits limits → ValidWithin F limits genome
  fits : genome.Fits limits ↔ condition

section Members

variable {F : Type} [ProbeFloat F] {config : SeedingConfig} {supply : SeedingSupply}
  {limits : Limits} {condition : Prop} {genome genome' : Genome} {frame : Frame F}

theorem Settles.valid_iff (h : Settles F limits condition genome) :
    ValidWithin F limits genome ↔ condition :=
  ⟨fun hvalid => h.fits.mp hvalid.fits, fun hcondition => h.valid (h.fits.mpr hcondition)⟩

theorem Settles.congr {condition' : Prop} (h : Settles F limits condition genome)
    (hiff : condition ↔ condition') : Settles F limits condition' genome :=
  ⟨h.valid, h.fits.trans hiff⟩

theorem ValidWithin.settles (h : ValidWithin F limits genome) : Settles F limits True genome :=
  ⟨fun _ => h, iff_of_true h.fits trivial⟩

theorem settles_fixture {fixture : String × Genome} (hfixture : fixture ∈ registryFixtures) :
    Settles F limits (fixture.2.Fits limits) fixture.2 :=
  ⟨fixture_valid hfixture, Iff.rfl⟩

theorem Settles.attach (h : Settles F limits condition genome) {preset : String × List String}
    (hpreset : preset ∈ exitPresets) :
    Settles F limits condition (attachExitRulePolicy genome preset) where
  valid hfits := attachExitRulePolicy_valid (h.valid ((fits_policy_iff _).mp hfits)) hpreset
  fits := (fits_policy_iff _).trans h.fits

theorem Settles.sameGraph (h : Settles F limits condition genome) (hgraph : SameGraph genome genome')
    (hvalid : ValidWithin F limits genome → ValidWithin F limits genome') :
    Settles F limits condition genome' where
  valid hfits := hvalid (h.valid (hgraph.fits_iff.mp hfits))
  fits := hgraph.fits_iff.trans h.fits

/-! ## Repairs keep the graph -/

theorem recenterNode_graph {random : String → F} {trialParams : List (String × Value)}
    {s s' : Recentering} {node : GenomeNode} (hs : SameGraph genome s.child)
    (h : recenterNode random frame trialParams s node = .ok s') : SameGraph genome s'.child := by
  unfold recenterNode at h
  split at h
  · obtain ⟨found, -, h⟩ := bind_eq_ok.mp h
    cases found with
    | none => exact pure_eq_ok.mp h ▸ hs
    | some series =>
      obtain ⟨parent, -, h⟩ := bind_eq_ok.mp h
      obtain ⟨type, -, h⟩ := bind_eq_ok.mp h
      obtain ⟨target, -, h⟩ := bind_eq_ok.mp h
      rw [← pure_eq_ok.mp h]
      exact hs.trans (sameGraph_assign _ _ _ _)
  · exact pure_eq_ok.mp h ▸ hs

theorem shortenNode_shape {node node' : GenomeNode} (h : shortenNode node = .ok node') :
    node'.shape = node.shape := by
  unfold shortenNode at h
  split at h
  · refine foldlM_invariant (fun n => n.shape = node.shape) ?_ rfl h
    intro n key n' _ hn hstep
    unfold shortenKey at hstep
    split at hstep
    · exact pure_eq_ok.mp hstep ▸ hn
    · obtain ⟨shortened, -, hstep⟩ := bind_eq_ok.mp hstep
      rw [← pure_eq_ok.mp hstep]
      exact hn
  · rw [pure_eq_ok.mp h]

theorem relaxEntry_graph {choice : Side → ℕ} {s s' : Recentering} {side : Side}
    (hs : SameGraph genome s.child) (h : relaxEntry choice s side = .ok s') :
    SameGraph genome s'.child := by
  have hset : ∀ ref, SameGraph s.child (s.child.setEntry ref side) := by
    intro ref
    cases side
    · exact ⟨rfl, rfl, rfl, rfl⟩
    · exact ⟨rfl, rfl, rfl, rfl⟩
  unfold relaxEntry at h
  split at h
  · exact pure_eq_ok.mp h ▸ hs
  · split at h
    · split at h
      · cases h
      · rw [← pure_eq_ok.mp h]
        exact hs.trans (hset _)
    · exact pure_eq_ok.mp h ▸ hs

theorem checked_eq {s : Recentering}
    (h : (if s.changed then validateOrRaise F s.child limits else pure s.child) = .ok genome') :
    genome' = s.child := by
  split at h
  · obtain ⟨_, -, h⟩ := bind_eq_ok.mp h
    exact (pure_eq_ok.mp h).symm
  · exact (pure_eq_ok.mp h).symm

variable {draws : RepairDraws F} {attempt : ℕ} {minSignals : ℤ}

theorem repairOperation_graph (h : repairOperation draws attempt genome frame limits = .ok genome') :
    SameGraph genome genome' := by
  unfold repairOperation at h
  split at h
  · obtain ⟨trialParams, -, h⟩ := bind_eq_ok.mp h
    obtain ⟨s, hs, h⟩ := bind_eq_ok.mp h
    rw [checked_eq h]
    exact foldlM_invariant (fun s => SameGraph genome s.child)
      (fun s node s' _ hinv hstep => recenterNode_graph hinv hstep) (SameGraph.refl genome) hs
  · obtain ⟨nodes, hnodes, h⟩ := bind_eq_ok.mp h
    have hshapes := map_eq_of_forall₂ (forall₂_of_mapM hnodes) fun _ _ => shortenNode_shape
    rw [checked_eq (s := ⟨{ genome with nodes := nodes }, genome.nodes.any GenomeNode.Shortens⟩) h]
    exact ⟨hshapes, rfl, rfl, rfl⟩
  · obtain ⟨s, hs, h⟩ := bind_eq_ok.mp h
    rw [checked_eq h]
    exact foldlM_invariant (fun s => SameGraph genome s.child)
      (fun s side s' _ hinv hstep => relaxEntry_graph hinv hstep) (SameGraph.refl genome) hs

theorem repairAttempts_graph {attempts : List ℕ}
    (h : repairAttempts draws frame minSignals limits attempts genome = .ok genome') :
    SameGraph genome genome' := by
  induction attempts generalizing genome with
  | nil => exact Except.ok.inj h ▸ SameGraph.refl genome
  | cons attempt rest ih =>
    unfold repairAttempts at h
    obtain ⟨outcome, houtcome, h⟩ := bind_eq_ok.mp h
    have hgraph : SameGraph genome (outcome.elim id id) := by
      unfold repairAttempt at houtcome
      simp only at houtcome
      split at houtcome
      next outcome' hok =>
        obtain rfl := Except.ok.inj houtcome
        obtain ⟨candidate, hcandidate, hok⟩ := bind_eq_ok.mp hok
        obtain ⟨stats, -, hok⟩ := bind_eq_ok.mp hok
        rw [← pure_eq_ok.mp hok]
        cases stats.isTradeable
        · exact repairOperation_graph hcandidate
        · exact repairOperation_graph hcandidate
      next e _ =>
        split at houtcome
        · rw [← Except.ok.inj houtcome]
          exact SameGraph.refl genome
        · cases houtcome
    cases outcome with
    | inl returned => exact pure_eq_ok.mp h ▸ hgraph
    | inr next => exact hgraph.trans (ih h)

theorem repairGenome_graph {maxAttempts : ℕ}
    (h : repairGenome draws genome frame minSignals limits maxAttempts = .ok genome') :
    SameGraph genome genome' := by
  unfold repairGenome at h
  obtain ⟨stats, -, h⟩ := bind_eq_ok.mp h
  split at h
  · exact pure_eq_ok.mp h ▸ SameGraph.refl genome
  · exact repairAttempts_graph h

end Members

/-! ## Members that are given up -/

section GivenUp

variable {F : Type} [ProbeFloat F] (config : SeedingConfig) (supply : SeedingSupply)

/-- The genome signals on the frame. -/
def Signals (frame : Frame F) (genome : Genome) : Prop :=
  ∃ stats, seedActivity config genome frame = .ok stats ∧ stats.isTradeable = true

/-- Neither the genome nor its repair signals on the frame. -/
def GivenUp (draws : RepairDraws F) (frame : Frame F) (genome : Genome) : Prop :=
  ¬ Signals config frame genome ∧
    ∀ repaired, seedRepair config draws genome frame = .ok repaired → ¬ Signals config frame repaired

/-- The seed is probed, and after the nudge it is given up. -/
def SeedFallsBack (draws : MutationDraws F) (probe : Option (Frame F)) (seed : Genome) : Prop :=
  ∃ frame nudged, probedFrame config probe = some frame ∧
    nudgedSeed config supply draws seed = .ok nudged ∧ GivenUp config draws.repair frame nudged

/-- The genomes of the attempts are given up, up to one where the fallback signals. -/
def DrawFallsBack (draws : ℕ → BuildDraws) (repairs : ℕ → RepairDraws F) (frame : Frame F) :
    List ℕ → Prop
  | [] => True
  | attempt :: rest =>
    (∃ genome, buildRandomGenome F supply (draws attempt) config.limits = .ok genome ∧
      GivenUp config (repairs attempt) frame genome) ∧
      (Signals config frame tradeableRegistryFallback ∨ DrawFallsBack draws repairs frame rest)

/-- The random genomes are probed, and given up. -/
def RandomFallsBack (draws : ℕ → BuildDraws) (repairs : ℕ → RepairDraws F)
    (probe : Option (Frame F)) : Prop :=
  ∃ frame, probedFrame config probe = some frame ∧
    DrawFallsBack config supply draws repairs frame (List.range (config.repairMaxAttempts + 1))

variable {config supply} {draws : MutationDraws F} {repairs : RepairDraws F} {frame : Frame F}
  {probe : Option (Frame F)} {genome member : Genome} {condition : Prop}

theorem signals_iff {stats : ActivityStats} (h : seedActivity config genome frame = .ok stats) :
    Signals config frame genome ↔ stats.isTradeable = true := by
  unfold Signals
  rw [h]
  simp

theorem ensureTradeableGenome_cases
    (h : ensureTradeableGenome config repairs genome frame = .ok member) :
    (GivenUp config repairs frame genome ∧ member = tradeableRegistryFallback) ∨
      (¬ GivenUp config repairs frame genome ∧ Signals config frame member ∧
        (member = genome ∨ seedRepair config repairs genome frame = .ok member)) := by
  obtain ⟨stats, hstats, h⟩ := bind_eq_ok.mp h
  split at h
  next htradeable =>
    obtain rfl := pure_eq_ok.mp h
    have hsignals := (signals_iff hstats).mpr htradeable
    exact .inr ⟨fun hgiven => hgiven.1 hsignals, hsignals, .inl rfl⟩
  next hquiet =>
    obtain ⟨repaired, hrepaired, h⟩ := bind_eq_ok.mp h
    obtain ⟨stats', hstats', h⟩ := bind_eq_ok.mp h
    split at h
    next htradeable =>
      obtain rfl := pure_eq_ok.mp h
      have hsignals := (signals_iff hstats').mpr htradeable
      exact .inr ⟨fun hgiven => hgiven.2 _ hrepaired hsignals, hsignals, .inr hrepaired⟩
    next hquiet' =>
      refine .inl ⟨⟨(signals_iff hstats).not.mpr hquiet, fun other hother => ?_⟩,
        (pure_eq_ok.mp h).symm⟩
      obtain rfl := Except.ok.inj (hrepaired.symm.trans hother)
      exact (signals_iff hstats').not.mpr hquiet'

theorem settles_repair (hgenome : Settles F config.limits condition genome)
    (h : seedRepair config repairs genome frame = .ok member) :
    Settles F config.limits condition member := by
  have hrepair := mapError_eq_ok.mp h
  exact hgenome.sameGraph (repairGenome_graph hrepair) fun hvalid =>
    repairGenome_valid hvalid hrepair

theorem settles_fallback :
    Settles F config.limits (tradeableRegistryFallback.Fits config.limits)
      tradeableRegistryFallback :=
  settles_fixture fallback_mem

/-! ## Seeds -/

/-- A nudge that is accepted is valid; without one the genome is as it was. -/
theorem settles_nudged (hgenome : Settles F config.limits condition genome)
    (h : nudgedSeed config supply draws genome = .ok member) :
    Settles F config.limits condition member := by
  unfold nudgedSeed at h
  split at h
  next mutated hmutated =>
    obtain rfl := Except.ok.inj h
    unfold lightMutateParams at hmutated
    split at hmutated
    · exact Except.ok.inj hmutated ▸ hgenome
    next node key spec _ =>
      have hok := validateOrRaise_eq_ok (mapError_eq_ok.mp hmutated)
      have heq : mutated = genome.assign node.id key
          (.lit (nudgedValue draws supply.nLatents node.kind key spec.bounds)) := by
        obtain ⟨_, -, h⟩ := bind_eq_ok.mp (mapError_eq_ok.mp hmutated)
        exact (pure_eq_ok.mp h).symm
      refine hgenome.sameGraph ?_ fun _ => hok
      rw [heq]
      exact sameGraph_assign _ _ _ _
  · split at h
    · exact Except.ok.inj h ▸ hgenome
    · cases h

theorem settles_seed (hseed : Settles F config.limits condition genome)
    (h : seededMember config supply draws probe genome = .ok member) :
    Settles F config.limits
      ((SeedFallsBack config supply draws probe genome →
          tradeableRegistryFallback.Fits config.limits) ∧
        (¬ SeedFallsBack config supply draws probe genome → condition)) member := by
  obtain ⟨nudged, hnudged, h⟩ := bind_eq_ok.mp h
  have hsettles := settles_nudged hseed hnudged
  unfold ensureProbed at h
  split at h
  next hprobe =>
    have hnot : ¬ SeedFallsBack config supply draws probe genome := by
      rintro ⟨frame, _, hframe, -⟩
      rw [hprobe] at hframe
      cases hframe
    obtain rfl := Except.ok.inj h
    exact hsettles.congr ⟨fun hc => ⟨fun hfalls => absurd hfalls hnot, fun _ => hc⟩,
      fun hc => hc.2 hnot⟩
  next frame hprobe =>
    have hfalls : SeedFallsBack config supply draws probe genome ↔
        GivenUp config draws.repair frame nudged := by
      constructor
      · rintro ⟨frame', nudged', hframe', hnudged', hgiven⟩
        obtain rfl := Option.some.inj (hprobe.symm.trans hframe')
        obtain rfl := Except.ok.inj (hnudged.symm.trans hnudged')
        exact hgiven
      · exact fun hgiven => ⟨frame, nudged, hprobe, hnudged, hgiven⟩
    obtain ⟨hgiven, rfl⟩ | ⟨hkept, -, hmember⟩ := ensureTradeableGenome_cases h
    · have hyes := hfalls.mpr hgiven
      exact settles_fallback.congr ⟨fun hc => ⟨fun _ => hc, fun hnot => absurd hyes hnot⟩,
        fun hc => hc.1 hyes⟩
    · have hnot := hfalls.not.mpr hkept
      have hkeeps : Settles F config.limits condition member := by
        obtain rfl | hrepaired := hmember
        · exact hsettles
        · exact settles_repair hsettles hrepaired
      exact hkeeps.congr ⟨fun hc => ⟨fun hyes => absurd hyes hnot, fun _ => hc⟩,
        fun hc => hc.2 hnot⟩

end GivenUp

/-! ## Random members -/

section RandomMembers

variable {F : Type} [ProbeFloat F] {config : SeedingConfig} {supply : SeedingSupply}
  {draws : ℕ → BuildDraws} {repairs : ℕ → RepairDraws F} {frame : Frame F}
  {probe : Option (Frame F)} {limits : Limits} {genome member : Genome}

theorem valid_of_validated (h : validated F genome limits = .ok member) :
    ValidWithin F limits member :=
  validateOrRaise_eq_ok (mapError_eq_ok.mp h)

theorem buildRandomGenome_valid {draws : BuildDraws}
    (h : buildRandomGenome F supply draws limits = .ok member) : ValidWithin F limits member := by
  obtain ⟨archetype, -, h⟩ := bind_eq_ok.mp h
  cases archetype with
  | crossover =>
    obtain ⟨shortKind, -, h⟩ := bind_eq_ok.mp h
    obtain ⟨longKind, -, h⟩ := bind_eq_ok.mp h
    exact valid_of_validated h
  | reversion =>
    obtain ⟨kind, -, h⟩ := bind_eq_ok.mp h
    exact valid_of_validated h
  | breakout =>
    obtain ⟨style, -, h⟩ := bind_eq_ok.mp h
    exact valid_of_validated h
  | latent => exact valid_of_validated h

theorem drawValid_valid {last : OperatorError} {attempts : List ℕ}
    (h : drawValid (fun attempt => buildRandomGenome F supply (draws attempt) limits) last
      attempts = .ok member) : ValidWithin F limits member := by
  induction attempts generalizing last with
  | nil => cases h
  | cons attempt rest ih =>
    unfold drawValid at h
    split at h
    next genome hgenome => exact Except.ok.inj h ▸ buildRandomGenome_valid hgenome
    next e _ =>
      split at h
      · exact ih h
      · cases h

theorem settles_drawTradeable {attempts : List ℕ}
    (h : drawTradeable config supply draws repairs frame attempts = .ok member) :
    Settles F config.limits (DrawFallsBack config supply draws repairs frame attempts →
      tradeableRegistryFallback.Fits config.limits) member := by
  induction attempts with
  | nil =>
    obtain rfl := Except.ok.inj h
    exact settles_fallback.congr ⟨fun hfits _ => hfits, fun hc => hc trivial⟩
  | cons attempt rest ih =>
    obtain ⟨built, hbuilt, h⟩ := bind_eq_ok.mp h
    obtain ⟨ensured, hensured, h⟩ := bind_eq_ok.mp h
    obtain ⟨stats, hstats, h⟩ := bind_eq_ok.mp h
    have hvalid := buildRandomGenome_valid hbuilt
    obtain ⟨hgiven, rfl⟩ | ⟨hkept, hsignals, hensured⟩ := ensureTradeableGenome_cases hensured
    · have hattempt : ∃ genome, buildRandomGenome F supply (draws attempt) config.limits =
          .ok genome ∧ GivenUp config (repairs attempt) frame genome := ⟨built, hbuilt, hgiven⟩
      split at h
      next htradeable =>
        obtain rfl := pure_eq_ok.mp h
        have hfalls : DrawFallsBack config supply draws repairs frame (attempt :: rest) :=
          ⟨hattempt, .inl ((signals_iff hstats).mpr htradeable)⟩
        exact settles_fallback.congr ⟨fun hfits _ => hfits, fun hc => hc hfalls⟩
      next hquiet =>
        have hquiet' := (signals_iff hstats).not.mpr hquiet
        refine (ih h).congr ⟨fun hc hfalls => hc (hfalls.2.resolve_left hquiet'), ?_⟩
        exact fun hc hfalls => hc ⟨hattempt, .inr hfalls⟩
    · rw [if_pos ((signals_iff hstats).mp hsignals)] at h
      obtain rfl := pure_eq_ok.mp h
      have hnot : ¬ DrawFallsBack config supply draws repairs frame (attempt :: rest) := by
        rintro ⟨⟨other, hother, hgiven⟩, -⟩
        obtain rfl := Except.ok.inj (hbuilt.symm.trans hother)
        exact hkept hgiven
      have hsettles : Settles F config.limits True ensured := by
        obtain rfl | hrepaired := hensured
        · exact hvalid.settles
        · exact settles_repair hvalid.settles hrepaired
      exact hsettles.congr (iff_of_true trivial fun hfalls => absurd hfalls hnot)

theorem settles_random (h : randomMember config supply draws repairs probe = .ok member) :
    Settles F config.limits (RandomFallsBack config supply draws repairs probe →
      tradeableRegistryFallback.Fits config.limits) member := by
  unfold randomMember at h
  split at h
  next frame hprobe =>
    have hfalls : RandomFallsBack config supply draws repairs probe ↔
        DrawFallsBack config supply draws repairs frame
          (List.range (config.repairMaxAttempts + 1)) := by
      unfold RandomFallsBack
      simp [hprobe]
    exact (settles_drawTradeable h).congr (imp_congr_left hfalls).symm
  next hprobe =>
    have hnot : ¬ RandomFallsBack config supply draws repairs probe := by
      rintro ⟨frame, hframe, -⟩
      rw [hprobe] at hframe
      cases hframe
    exact (drawValid_valid h).settles.congr (iff_of_true trivial fun hfalls => absurd hfalls hnot)

end RandomMembers

/-! ## Exit policies -/

section Variants

variable {F : Type} [ProbeFloat F] {config : SeedingConfig} {draws : PopulationDraws F}
  {population population' : List Individual}

/-- The member as it was, or with the policy of a preset. -/
structure PolicyVariant (individual individual' : Individual) : Prop where
  genomeId : individual'.genomeId = individual.genomeId
  genome : individual'.genome = individual.genome ∨
    ∃ preset ∈ exitPresets, individual'.genome = attachExitRulePolicy individual.genome preset

theorem PolicyVariant.refl (individual : Individual) : PolicyVariant individual individual := ⟨rfl, .inl rfl⟩

theorem PolicyVariant.settles {individual individual' : Individual} {limits : Limits} {condition : Prop}
    (h : PolicyVariant individual individual') (hsettles : Settles F limits condition individual.genome) :
    Settles F limits condition individual'.genome := by
  obtain heq | ⟨preset, hpreset, heq⟩ := h.genome
  · rw [heq]
    exact hsettles
  · rw [heq]
    exact hsettles.attach hpreset

theorem policyVariant_modify {preset : String × List String} (hpreset : preset ∈ exitPresets)
    (h : List.Forall₂ PolicyVariant population population') (index : ℕ) :
    List.Forall₂ PolicyVariant population (population'.modify index fun individual =>
      { individual with genome := attachExitRulePolicy individual.genome preset }) := by
  induction h generalizing index with
  | nil =>
    rw [List.modify_nil]
    exact .nil
  | cons hxy hrest ih =>
    cases index with
    | zero =>
      refine .cons ⟨hxy.genomeId, .inr ⟨preset, hpreset, ?_⟩⟩ hrest
      change attachExitRulePolicy _ preset = _
      obtain heq | ⟨other, -, heq⟩ := hxy.genome
      · rw [heq]
      · rw [heq]
        rfl
    | succ index => exact .cons hxy (ih index)

theorem policyVariant_foldl {presets : List (String × List String)}
    (hpresets : ∀ preset ∈ presets, preset ∈ exitPresets) (indices : List ℕ)
    (h : List.Forall₂ PolicyVariant population population') :
    List.Forall₂ PolicyVariant population (indices.foldl (attachPreset presets) population') := by
  induction indices generalizing population' with
  | nil => exact h
  | cons index rest ih =>
    refine ih ?_
    unfold attachPreset
    split
    · exact h
    next preset hpreset => exact policyVariant_modify (hpresets preset (mem_of_choose hpreset)) h index

theorem selectedExitPolicyPresets_mem {ids : Option (List String)}
    {presets : List (String × List String)} (h : selectedExitPolicyPresets ids = .ok presets) :
    ∀ preset ∈ presets, preset ∈ exitPresets := by
  cases ids with
  | none => exact fun preset hpreset => Except.ok.inj h ▸ hpreset
  | some ids =>
    obtain ⟨-, presets', hpresets', hall⟩ | ⟨-, id, herror⟩ := mapM_presetById ids
    · obtain rfl := Except.ok.inj (hpresets'.symm.trans h)
      exact hall
    · cases herror.symm.trans h

omit [ProbeFloat F] in
theorem seedExitPolicyVariants_variant
    (h : seedExitPolicyVariants config draws population = .ok population') :
    List.Forall₂ PolicyVariant population population' := by
  have hsame : List.Forall₂ PolicyVariant population population :=
    List.forall₂_same.mpr fun individual _ => PolicyVariant.refl individual
  unfold seedExitPolicyVariants at h
  split at h
  · exact Except.ok.inj h ▸ hsame
  · obtain ⟨presets, hpresets, h⟩ := bind_eq_ok.mp h
    obtain rfl := pure_eq_ok.mp h
    exact policyVariant_foldl (selectedExitPolicyPresets_mem hpresets) _ hsame

end Variants

/-! ## Populations -/

section Populations

variable {F : Type} [ProbeFloat F] (config : SeedingConfig) (supply : SeedingSupply)
  (draws : PopulationDraws F) (probe : Option (Frame F))

/-- As many members as were asked for, under distinct ids and all of them valid. -/
structure SoundPopulation (F : Type) [PriceFloat F] (config : SeedingConfig)
    (population : List Individual) : Prop where
  length : population.length = config.populationSize
  ids : (population.map Individual.genomeId).Nodup
  valid : ∀ individual ∈ population, ValidWithin F config.limits individual.genome

/-- The fallback is small enough where a member falls back on it, and a fixture that is drawn is
small enough where it stays. -/
structure PopulationFits (seeds : List Genome) : Prop where
  hypotheses : ∀ seed ∈ (seeds.take (config.populationSize / 2)).zipIdx,
    SeedFallsBack config supply (draws.hypothesis seed.2) probe seed.1 →
      tradeableRegistryFallback.Fits config.limits
  registry : ∀ index ∈ List.range
      (config.populationSize / 2 - (seeds.take (config.populationSize / 2)).length),
    ∀ fixture, drawnFixture supply (draws.registryName index) = .ok fixture →
      (SeedFallsBack config supply (draws.registry index) probe fixture.2 →
        tradeableRegistryFallback.Fits config.limits) ∧
      (¬ SeedFallsBack config supply (draws.registry index) probe fixture.2 →
        fixture.2.Fits config.limits)
  random : ∀ index ∈ List.range (config.populationSize - config.populationSize / 2),
    RandomFallsBack config supply (draws.random index) (draws.randomRepair index) probe →
      tradeableRegistryFallback.Fits config.limits

variable {config supply draws probe}

theorem cumulativeChoice_mem {α : Type} {weight : α → ℚ} {pick cumulative : ℚ} {choice : α}
    {rest : List α} : cumulativeChoice weight pick cumulative choice rest ∈ choice :: rest := by
  induction rest generalizing cumulative choice with
  | nil => exact List.mem_cons_self
  | cons next rest ih =>
    unfold cumulativeChoice
    split
    · exact List.mem_cons_self
    · exact List.mem_cons_of_mem _ ih

theorem choose_getD_mem {α : Type} (draw : ℕ) (first : α) (rest : List α) :
    (choose draw (first :: rest)).getD first ∈ first :: rest := by
  cases hchosen : choose draw (first :: rest) with
  | none => exact List.mem_cons_self
  | some x => exact mem_of_choose hchosen

theorem chooseSeeding_mem {α : Type} {draw : WeightedDraw} {weighted : Bool} {weight : α → ℚ}
    {xs : List α} {x : α} (h : chooseSeeding draw weighted weight xs = .ok x) : x ∈ xs := by
  cases xs with
  | nil => cases h
  | cons first rest =>
    unfold chooseSeeding at h
    simp only at h
    split at h
    · rw [← Except.ok.inj h]
      unfold weightedChoice
      simp only
      split
      · exact choose_getD_mem _ _ _
      · exact cumulativeChoice_mem
    · exact Except.ok.inj h ▸ choose_getD_mem _ _ _

theorem hypothesisIndividual_spec {seed : Genome} {index : ℕ} {individual : Individual}
    (hseed : ValidWithin F config.limits seed)
    (h : hypothesisIndividual config supply draws probe seed index = .ok individual) :
    Settles F config.limits
      (SeedFallsBack config supply (draws.hypothesis index) probe seed →
        tradeableRegistryFallback.Fits config.limits) individual.genome := by
  obtain ⟨genome, hgenome, h⟩ := bind_eq_ok.mp h
  rw [← pure_eq_ok.mp h]
  exact (settles_seed hseed.settles hgenome).congr ⟨fun hc => hc.1, fun hc => ⟨hc, fun _ => trivial⟩⟩

theorem registryIndividual_spec {index : ℕ} {individual : Individual}
    (h : registryIndividual config supply draws probe index = .ok individual) :
    Settles F config.limits
      (∀ fixture, drawnFixture supply (draws.registryName index) = .ok fixture →
        (SeedFallsBack config supply (draws.registry index) probe fixture.2 →
          tradeableRegistryFallback.Fits config.limits) ∧
        (¬ SeedFallsBack config supply (draws.registry index) probe fixture.2 →
          fixture.2.Fits config.limits)) individual.genome := by
  obtain ⟨fixture, hfixture, h⟩ := bind_eq_ok.mp h
  obtain ⟨genome, hgenome, h⟩ := bind_eq_ok.mp h
  rw [← pure_eq_ok.mp h]
  refine (settles_seed (settles_fixture (chooseSeeding_mem hfixture)) hgenome).congr ?_
  rw [hfixture]
  simp

theorem randomIndividual_spec {index : ℕ} {individual : Individual}
    (h : randomIndividual config supply draws probe index = .ok individual) :
    Settles F config.limits
      (RandomFallsBack config supply (draws.random index) (draws.randomRepair index) probe →
        tradeableRegistryFallback.Fits config.limits) individual.genome := by
  obtain ⟨genome, hgenome, h⟩ := bind_eq_ok.mp h
  rw [← pure_eq_ok.mp h]
  exact settles_random hgenome

variable {seeds : List Genome} {hypotheses registry random population : List Individual}

theorem ids_of_parts
    (hhypotheses : (seeds.take (config.populationSize / 2)).zipIdx.mapM (fun seed =>
      hypothesisIndividual config supply draws probe seed.1 seed.2) = .ok hypotheses)
    (hregistry : (List.range (config.populationSize / 2 - hypotheses.length)).mapM
      (registryIndividual config supply draws probe) = .ok registry)
    (hrandom : (List.range (config.populationSize - config.populationSize / 2)).mapM
      (randomIndividual config supply draws probe) = .ok random) :
    (hypotheses ++ registry ++ random).map Individual.genomeId =
      initialGenomeIds seeds.length config.populationSize := by
  have hids : hypotheses.map Individual.genomeId =
      (seeds.take (config.populationSize / 2)).zipIdx.map
        fun seed => "gen0-seed-hyp-" ++ toString seed.2 := by
    refine map_eq_of_forall₂ (forall₂_of_mapM hhypotheses) fun seed individual h => ?_
    obtain ⟨genome, -, h⟩ := bind_eq_ok.mp h
    rw [← pure_eq_ok.mp h]
    rfl
  have hcount : hypotheses.length = min seeds.length (config.populationSize / 2) := by
    rw [← (forall₂_of_mapM hhypotheses).length_eq, List.length_zipIdx, List.length_take, min_comm]
  have hnumbers : (seeds.take (config.populationSize / 2)).zipIdx.map
      (fun seed => "gen0-seed-hyp-" ++ toString seed.2) =
      (List.range (min seeds.length (config.populationSize / 2))).map
        fun i => "gen0-seed-hyp-" ++ toString i := by
    have hmap := congrArg (List.map fun i : ℕ => "gen0-seed-hyp-" ++ toString i)
      (List.zipIdx_map_snd 0 (seeds.take (config.populationSize / 2)))
    rw [List.map_map, ← List.range_eq_range', List.length_take, min_comm] at hmap
    exact hmap
  have hregistryIds : registry.map Individual.genomeId =
      (List.range (config.populationSize / 2 - hypotheses.length)).map
        fun i => "gen0-seed-" ++ toString i := by
    refine map_eq_of_forall₂ (forall₂_of_mapM hregistry) fun index individual h => ?_
    obtain ⟨fixture, -, h⟩ := bind_eq_ok.mp h
    obtain ⟨genome, -, h⟩ := bind_eq_ok.mp h
    rw [← pure_eq_ok.mp h]
    rfl
  have hrandomIds : random.map Individual.genomeId =
      (List.range (config.populationSize - config.populationSize / 2)).map
        fun i => "gen0-rand-" ++ toString i := by
    refine map_eq_of_forall₂ (forall₂_of_mapM hrandom) fun index individual h => ?_
    obtain ⟨genome, -, h⟩ := bind_eq_ok.mp h
    rw [← pure_eq_ok.mp h]
    rfl
  rw [List.map_append, List.map_append, hids, hregistryIds, hrandomIds, hnumbers, hcount]
  rfl

theorem length_initialGenomeIds (hypotheses populationSize : ℕ) :
    (initialGenomeIds hypotheses populationSize).length = populationSize := by
  simp only [initialGenomeIds, List.length_append, List.length_map, List.length_range]
  omega

/-- The population that is built is sound exactly when what no validator has seen of it is small
enough. -/
theorem initial_population_sound_iff {F : Type} [ProbeFloat F] (config : SeedingConfig)
    (supply : SeedingSupply) (draws : PopulationDraws F) (probe : Option (Frame F))
    (seeds : List Genome) (hseeds : ∀ seed ∈ seeds, ValidWithin F config.limits seed)
    {population : List Individual}
    (h : buildInitialPopulation config supply draws probe seeds = .ok population) :
    SoundPopulation F config population ↔ PopulationFits config supply draws probe seeds := by
  obtain ⟨hypotheses, hhypotheses, h⟩ := bind_eq_ok.mp h
  obtain ⟨registry, hregistry, h⟩ := bind_eq_ok.mp h
  obtain ⟨random, hrandom, h⟩ := bind_eq_ok.mp h
  have hattached := seedExitPolicyVariants_variant h
  have hids := ids_of_parts hhypotheses hregistry hrandom
  have hpopulationIds : population.map Individual.genomeId =
      initialGenomeIds seeds.length config.populationSize :=
    (map_eq_of_forall₂ hattached fun _ _ hpair => hpair.genomeId).trans hids
  have hcount : hypotheses.length = (seeds.take (config.populationSize / 2)).length := by
    rw [← (forall₂_of_mapM hhypotheses).length_eq, List.length_zipIdx]
  have hseed : ∀ seed ∈ (seeds.take (config.populationSize / 2)).zipIdx,
      ValidWithin F config.limits seed.1 := fun seed hmem =>
    hseeds seed.1 (List.mem_of_mem_take (List.fst_mem_of_mem_zipIdx hmem))
  have hsettled : ∀ individual ∈ hypotheses ++ registry ++ random,
      ∃ condition, Settles F config.limits condition individual.genome := by
    intro individual hmem
    obtain hmem | hmem := List.mem_append.mp hmem
    · obtain hmem | hmem := List.mem_append.mp hmem
      · obtain ⟨seed, hseedMem, hbuilt⟩ := (mem_of_mapM hhypotheses).mp hmem
        exact ⟨_, hypothesisIndividual_spec (hseed seed hseedMem) hbuilt⟩
      · obtain ⟨index, -, hbuilt⟩ := (mem_of_mapM hregistry).mp hmem
        exact ⟨_, registryIndividual_spec hbuilt⟩
    · obtain ⟨index, -, hbuilt⟩ := (mem_of_mapM hrandom).mp hmem
      exact ⟨_, randomIndividual_spec hbuilt⟩
  have hvalid : (∀ individual ∈ population, ValidWithin F config.limits individual.genome) ↔
      ∀ individual ∈ hypotheses ++ registry ++ random, individual.genome.Fits config.limits := by
    refine forall_mem_iff_of_forall₂ hattached fun individual hmem member hpair => ?_
    obtain ⟨condition, hsettles⟩ := hsettled individual hmem
    exact (hpair.settles hsettles).valid_iff.trans hsettles.fits.symm
  have hhypotheses' := forall_mem_iff_of_forall₂ (forall₂_of_mapM hhypotheses)
    fun seed hmem _ hbuilt => (hypothesisIndividual_spec (hseed seed hmem) hbuilt).fits
  have hregistry' := forall_mem_iff_of_forall₂ (forall₂_of_mapM hregistry)
    fun _ _ _ hbuilt => (registryIndividual_spec hbuilt).fits
  have hrandom' := forall_mem_iff_of_forall₂ (forall₂_of_mapM hrandom)
    fun _ _ _ hbuilt => (randomIndividual_spec hbuilt).fits
  rw [List.forall_mem_append, List.forall_mem_append, hhypotheses', hregistry', hrandom',
    hcount] at hvalid
  constructor
  · intro hsound
    obtain ⟨⟨hh, hr⟩, hx⟩ := hvalid.mp hsound.valid
    exact ⟨hh, hr, hx⟩
  · intro hfits
    refine ⟨?_, ?_, hvalid.mpr ⟨⟨hfits.hypotheses, hfits.registry⟩, hfits.random⟩⟩
    · rw [← List.length_map, hpopulationIds, length_initialGenomeIds]
    · rw [hpopulationIds]
      exact nodup_initialGenomeIds _ _

end Populations

/-! ## Tight limits -/

theorem tightPopulation_ge : 10 ≤ 10 := le_rfl

theorem tightTournament_ge : 2 ≤ 3 := by decide

/-- The smallest limits and the smallest population. -/
def tightConfig : SeedingConfig where
  populationSize := 10
  maxNodes := 4
  maxDepth := 3
  population_ge := tightPopulation_ge
  tournament_ge := tightTournament_ge

/-- A breakout of a channel, which is within the smallest limits. -/
def channelDraws : BuildDraws where
  archetype := ⟨0, 2⟩
  first := ⟨0, 0⟩
  second := ⟨0, 0⟩
  firstWrap := ⟨1, 0⟩
  secondWrap := ⟨1, 0⟩
  latent := 0

/-- The crossing of averages is drawn for every seed. -/
def tightDraws : PopulationDraws ProbePrice where
  hypothesis _ := lastOperatorDraws
  registryName _ := ⟨0, 0⟩
  registry _ := lastOperatorDraws
  random _ _ := channelDraws
  randomRepair _ _ := probeDraws
  sample _ := 0

/-- A crossing of the close, which is within the smallest limits too. -/
def crossingSeed : Genome := crossingGenome closeNode "close"

theorem initial_population_sound_iff_tight :
    ∃ population,
      buildInitialPopulation tightConfig {} tightDraws none [crossingSeed] = .ok population ∧
      (SoundPopulation ProbePrice tightConfig population ↔
        PopulationFits tightConfig {} tightDraws none [crossingSeed]) := by
  have hreturns : (buildInitialPopulation tightConfig {} tightDraws none
      [crossingSeed]).toOption.isSome = true := by decide +kernel
  obtain ⟨population, hpopulation⟩ := exists_ok_of_isSome hreturns
  refine ⟨population, hpopulation, initial_population_sound_iff tightConfig {} tightDraws none
    [crossingSeed] (fun seed hseed => ?_) hpopulation⟩
  obtain rfl := List.mem_singleton.mp hseed
  show validateGenome ProbePrice crossingSeed _ _ = .ok ()
  decide +kernel

/-- The crossing of averages has six nodes, and it is there where four are allowed. -/
theorem tight_population_invalid :
    ∃ population, buildInitialPopulation tightConfig {} tightDraws none [] = .ok population ∧
      ¬ SoundPopulation ProbePrice tightConfig population := by
  have hreturns : (buildInitialPopulation tightConfig {} tightDraws none
      []).toOption.isSome = true := by decide +kernel
  have hlarge : (buildInitialPopulation tightConfig {} tightDraws none []).toOption.all
      (fun population => population.any fun individual =>
        decide (4 < individual.genome.nodes.length)) = true := by decide +kernel
  obtain ⟨population, hpopulation⟩ := exists_ok_of_isSome hreturns
  refine ⟨population, hpopulation, fun hsound => ?_⟩
  rw [hpopulation] at hlarge
  obtain ⟨individual, hmem, hcount⟩ := List.any_eq_true.mp hlarge
  have hfits := (hsound.valid individual hmem).fits.1
  exact absurd hfits (not_le.mpr (of_decide_eq_true hcount))

end QBackend.GenomeDsl
