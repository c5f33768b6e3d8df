import QBackend.GeneticOperators
import QBackend.GeneticPopulations

/-!
# The first population

`build_initial_population` of `operators.py`: hypotheses and registry fixtures with one parameter
nudged, random genomes of a few archetypes, and the exit policies that are attached to some of them.
A registry fixture that cannot be nudged within the limits is taken as it is, and so is the one that
stands for a genome that does not signal on the probe frame.
-/

namespace QBackend.GenomeDsl

open FallibleSteps
open GeneticSearch (Individual GeneticSearchConfig)
open StrategyBuilder (maCrossoverGenome rsiMeanReversionGenome)

/-! ## Registry fixtures -/

def bollingerReversionGenome : Genome where
  nodes :=
    [⟨"n1", .sourceClose, [], [], nodup_noKeys⟩,
      ⟨"n2", .indBollinger, [("period", .ref "period" false), ("num_std", .ref "num_std" false)],
        ["n1"], by decide⟩,
      ⟨"n3", .cmpTouchBelow, [], ["n1", "n2:bb_lower"], nodup_noKeys⟩,
      ⟨"n4", .cmpTouchAbove, [], ["n1", "n2:bb_upper"], nodup_noKeys⟩,
      ⟨"n5", .exitMiddleBand, [], ["n1", "n2:bb_middle"], nodup_noKeys⟩]
  entryLong := "n3"
  entryShort := "n4"
  exitLong := "n5"
  exitShort := "n5"

def donchianBreakoutGenome : Genome where
  nodes :=
    [⟨"n1", .sourceClose, [], [], nodup_noKeys⟩,
      ⟨"n2", .indDonchian, [("period", .ref "period" false)], [], List.nodup_singleton "period"⟩,
      ⟨"n3", .cmpCrossAbove, [], ["n1", "n2:donchian_upper"], nodup_noKeys⟩,
      ⟨"n4", .cmpCrossBelow, [], ["n1", "n2:donchian_lower"], nodup_noKeys⟩]
  entryLong := "n3"
  entryShort := "n4"
  exitLong := "n4"
  exitShort := "n3"

def macdGenome : Genome where
  nodes :=
    [⟨"n1", .sourceClose, [], [], nodup_noKeys⟩,
      ⟨"n2", .indMacd,
        [("fast_period", .ref "fast_period" false), ("slow_period", .ref "slow_period" false),
          ("signal_period", .ref "signal_period" false)], ["n1"], by decide⟩,
      ⟨"n3", .cmpCrossAbove, [], ["n2:macd", "n2:macd_signal"], nodup_noKeys⟩,
      ⟨"n4", .cmpCrossBelow, [], ["n2:macd", "n2:macd_signal"], nodup_noKeys⟩]
  entryLong := "n3"
  entryShort := "n4"
  exitLong := "n4"
  exitShort := "n3"

def trbGenome : Genome where
  nodes :=
    [⟨"n1", .sourceClose, [], [], nodup_noKeys⟩,
      ⟨"n2", .indTrbChannel, [("period", .ref "period" false), ("band_pct", .ref "band_pct" false)],
        ["n1"], by decide⟩,
      ⟨"n3", .cmpTrbBreakoutAbove, [], ["n1", "n2:trb_upper", "n2:channel_high"], nodup_noKeys⟩,
      ⟨"n4", .cmpTrbBreakoutBelow, [], ["n1", "n2:trb_lower", "n2:channel_low"], nodup_noKeys⟩,
      ⟨"n5", .exitFixedHolding, [("holding_period", .ref "holding_period" false)], [],
        List.nodup_singleton "holding_period"⟩]
  entryLong := "n3"
  entryShort := "n4"
  exitLong := "n5"
  exitShort := "n5"

def fmaGenome : Genome where
  nodes :=
    [⟨"n1", .sourceClose, [], [], nodup_noKeys⟩,
      ⟨"n2", .indMa, [("period", .ref "period" false), ("ma_type", .ref "ma_type" false)], ["n1"],
        by decide⟩,
      ⟨"n3", .indMaBand, [("band_pct", .ref "band_pct" false)], ["n2"],
        List.nodup_singleton "band_pct"⟩,
      ⟨"n4", .cmpCrossAbove, [], ["n1", "n3:ma_band_upper"], nodup_noKeys⟩,
      ⟨"n5", .cmpCrossBelow, [], ["n1", "n3:ma_band_lower"], nodup_noKeys⟩,
      ⟨"n6", .exitFixedHolding, [("holding_period", .ref "holding_period" false)], [],
        List.nodup_singleton "holding_period"⟩]
  entryLong := "n4"
  entryShort := "n5"
  exitLong := "n6"
  exitShort := "n6"

def tsmomGenome : Genome where
  nodes :=
    [⟨"n1", .indTsmom,
      [("lookback_bars", .ref "lookback_bars" false), ("rebalance_bars", .ref "rebalance_bars" false),
        ("vol_window", .ref "vol_window" false), ("vol_estimator", .ref "vol_estimator" false)], [],
      by decide⟩]
  entryLong := "n1:buy_signal"
  entryShort := "n1:sell_signal"
  exitLong := "n1:sell_signal"
  exitShort := "n1:buy_signal"

/-- `REGISTRY_GENOME_FIXTURES` -/
def registryFixtures : List (String × Genome) :=
  [("MACrossover", maCrossoverGenome),
    ("RSIMeanReversion", rsiMeanReversionGenome),
    ("BollingerReversion", bollingerReversionGenome),
    ("DonchianBreakout", donchianBreakoutGenome),
    ("MACD", macdGenome),
    ("TRB", trbGenome),
    ("FMA", fmaGenome),
    ("TSMOM", tsmomGenome)]

/-- `_registry_primary_kind` -/
def registryPrimaryKind (fixture : Genome) : NodeKind :=
  ((fixture.nodes.map GenomeNode.kind).find? fun kind =>
    kind.family = .ind ∧ kind ≠ .indDiff ∧ kind ≠ .indRatio).getD .indMa

/-! ## Biased choices -/

/-- A draw of `_choose_seeding`: the value of `rng.random()`, or the index of the plain choice. -/
structure WeightedDraw where
  random : ℚ
  index : ℕ

/-- The weights of the kinds, by score. -/
abbrev KindWeights := List (NodeKind × ℚ)

def KindWeights.weight (weights : KindWeights) (kind : NodeKind) : ℚ := (weights.lookup kind).getD 1

/-- `_choose_seeding`; without weights the choice is uniform. -/
def chooseSeeding {α : Type} (draw : WeightedDraw) (weighted : Bool) (weight : α → ℚ) :
    List α → Except OperatorError α
  | [] => .error (.search (.raised .indexError))
  | first :: rest =>
    if weighted then .ok (weightedChoice weight draw.random draw.index first rest)
    else .ok ((choose draw.index (first :: rest)).getD first)

def crossoverTrendKinds : List NodeKind := [.indMa, .indEma]

def reversionOscKinds : List NodeKind := [.indRsi]

inductive BreakoutStyle where
  | donchian | bollinger | trb
  deriving DecidableEq, Repr

def BreakoutStyle.kind : BreakoutStyle → NodeKind
  | .donchian => .indDonchian
  | .bollinger => .indBollinger
  | .trb => .indTrbChannel

def breakoutStyles : List BreakoutStyle := [.donchian, .bollinger, .trb]

/-- The candidates that are among the kinds, or all of them. -/
def filterIndicatorKinds (candidates indicatorKinds : List NodeKind) : List NodeKind :=
  let filtered := candidates.filter fun kind => indicatorKinds.contains kind
  if filtered = [] then candidates else filtered

inductive Archetype where
  | crossover | reversion | breakout | latent
  deriving DecidableEq, Repr

/-- What the run of a search supplies: the kinds, the latent columns and the weights. -/
structure SeedingSupply where
  indicatorKinds : List NodeKind := baseIndicatorKinds
  nLatents : ℤ := 0
  kindWeights : KindWeights := []

/-- `_random_archetypes` -/
def SeedingSupply.archetypes (supply : SeedingSupply) : List Archetype :=
  [.crossover, .reversion, .breakout] ++
    if supply.indicatorKinds.contains .indLatent && decide (0 < supply.nLatents) then [.latent]
    else []

def Archetype.kinds : Archetype → List NodeKind
  | .crossover => crossoverTrendKinds
  | .reversion => reversionOscKinds
  | .breakout => breakoutStyles.map BreakoutStyle.kind
  | .latent => [.indLatent]

/-- `_archetype_choice_weights`: the largest weight of its kinds. -/
def SeedingSupply.archetypeWeight (supply : SeedingSupply) (archetype : Archetype) : ℚ :=
  ((filterIndicatorKinds archetype.kinds supply.indicatorKinds).map
    supply.kindWeights.weight).max?.getD 0

/-! ## Random genomes -/

/-- The random choices of one random genome. -/
structure BuildDraws where
  archetype : WeightedDraw
  first : WeightedDraw
  second : WeightedDraw
  /-- `rng.random()` and the index of the transform, for each of two inputs. -/
  firstWrap : WeightedDraw
  secondWrap : WeightedDraw
  latent : ℕ

/-- A node whose parameters are those of the search. -/
def referringNode (id : String) (kind : NodeKind) (inputs : List String) : GenomeNode where
  id := id
  kind := kind
  params := (sortedParamKeys kind).map fun key => (key, .ref key false)
  inputs := inputs
  keysNodup := by
    rw [List.map_map]
    exact (List.map_id _).symm ▸ nodup_sortedParamKeys kind

/-- A crossing whose threshold is a parameter of the search. -/
def thresholdNode (id : String) (kind : NodeKind) (param : String) (negate : Bool) (input : String) :
    GenomeNode where
  id := id
  kind := kind
  params := [("threshold", .ref param negate)]
  inputs := [input]
  keysNodup := List.nodup_singleton "threshold"

def plainNode (id : String) (kind : NodeKind) (inputs : List String) : GenomeNode where
  id := id
  kind := kind
  inputs := inputs

/-- `_maybe_wrap_with_transform`: the nodes that are added, the input and the next number. -/
def maybeWrapWithTransform (draw : WeightedDraw) (source : String) (next : ℕ) :
    List GenomeNode × String × ℕ :=
  match choose draw.index randomInitTransformKinds with
  | none => ([], source, next)
  | some kind =>
    if 35 / 100 ≤ draw.random then ([], source, next)
    else ([referringNode (numberedId next) kind [source]], numberedId next, next + 1)

section Builders

variable {F : Type} [ProbeFloat F] (supply : SeedingSupply) (draws : BuildDraws) (limits : Limits)

variable (F) in
def buildRandomCrossover : Except OperatorError Genome := do
  let trends := filterIndicatorKinds crossoverTrendKinds supply.indicatorKinds
  let weighted := decide (supply.kindWeights ≠ [])
  let shortKind ← chooseSeeding draws.first weighted supply.kindWeights.weight trends
  let longKind ← chooseSeeding draws.second weighted supply.kindWeights.weight trends
  let (shortWrap, shortInput, next) := maybeWrapWithTransform draws.firstWrap "n1" 7
  let (longWrap, longInput, _) := maybeWrapWithTransform draws.secondWrap "n1" next
  validated F {
    nodes := [plainNode "n1" .sourceClose []] ++ shortWrap ++ longWrap ++
      [referringNode "n2" shortKind [shortInput],
        referringNode "n3" longKind [longInput],
        plainNode "n4" .indDiff ["n2", "n3"],
        thresholdNode "n5" .cmpCrossAbove "threshold" false "n4",
        thresholdNode "n6" .cmpCrossBelow "threshold" true "n4"]
    entryLong := "n5"
    entryShort := "n6"
    exitLong := "n6"
    exitShort := "n5" } limits

/-- The oscillator of a reversion. -/
def reversionKind : Except OperatorError NodeKind :=
  let oscillators := filterIndicatorKinds reversionOscKinds supply.indicatorKinds
  if supply.kindWeights = [] then
    if supply.indicatorKinds.contains .indRsi then .ok .indRsi
    else match oscillators with
      | [] => .error (.search (.raised .indexError))
      | first :: _ => .ok first
  else chooseSeeding draws.first true supply.kindWeights.weight oscillators

variable (F) in
def buildRandomReversion : Except OperatorError Genome := do
  let kind ← reversionKind supply draws
  let (wrap, input, _) := maybeWrapWithTransform draws.firstWrap "n1" 5
  validated F {
    nodes := [plainNode "n1" .sourceClose []] ++ wrap ++
      [referringNode "n2" kind (if 0 < (nodeSpec kind).maxInputs then [input] else []),
        thresholdNode "n3" .cmpCrossAbove "oversold" false "n2",
        thresholdNode "n4" .cmpCrossBelow "overbought" false "n2"]
    entryLong := "n3"
    entryShort := "n4"
    exitLong := "n4"
    exitShort := "n3" } limits

def breakoutGenome : BreakoutStyle → Genome
  | .donchian => {
    nodes := [plainNode "n1" .sourceClose [], referringNode "n2" .indDonchian [],
      plainNode "n3" .cmpCrossAbove ["n1", "n2:donchian_upper"],
      plainNode "n4" .cmpCrossBelow ["n1", "n2:donchian_lower"]]
    entryLong := "n3"
    entryShort := "n4"
    exitLong := "n4"
    exitShort := "n3" }
  | .bollinger => {
    nodes := [plainNode "n1" .sourceClose [], referringNode "n2" .indBollinger ["n1"],
      plainNode "n3" .cmpTouchBelow ["n1", "n2:bb_lower"],
      plainNode "n4" .cmpTouchAbove ["n1", "n2:bb_upper"],
      plainNode "n5" .exitMiddleBand ["n1", "n2:bb_middle"]]
    entryLong := "n3"
    entryShort := "n4"
    exitLong := "n5:exit_long"
    exitShort := "n5:exit_short" }
  | .trb => {
    nodes := [plainNode "n1" .sourceClose [], referringNode "n2" .indTrbChannel ["n1"],
      plainNode "n3" .cmpTrbBreakoutAbove ["n1", "n2:trb_upper", "n2:channel_high"],
      plainNode "n4" .cmpTrbBreakoutBelow ["n1", "n2:trb_lower", "n2:channel_low"]]
    entryLong := "n3"
    entryShort := "n4"
    exitLong := "n4"
    exitShort := "n3" }

variable (F) in
def buildRandomBreakout : Except OperatorError Genome := do
  let available := breakoutStyles.filter fun style => supply.indicatorKinds.contains style.kind
  let styles := if available = [] then breakoutStyles else available
  let style ← chooseSeeding draws.first (decide (supply.kindWeights ≠ []))
    (fun style => supply.kindWeights.weight style.kind) styles
  validated F (breakoutGenome style) limits

/-- A crossing of a latent column with zero. -/
def latentCrossing (id : String) (kind : NodeKind) : GenomeNode where
  id := id
  kind := kind
  params := [("threshold", .lit (.float 0))]
  inputs := ["n1"]
  keysNodup := List.nodup_singleton "threshold"

variable (F) in
def buildRandomLatent : Except OperatorError Genome :=
  validated F {
    nodes := [
      { id := "n1"
        kind := .indLatent
        params := [("latent_index", .lit (.int (sampleLatentIndex draws.latent supply.nLatents)))]
        keysNodup := List.nodup_singleton "latent_index" },
      latentCrossing "n2" .cmpCrossAbove, latentCrossing "n3" .cmpCrossBelow]
    entryLong := "n2"
    entryShort := "n3"
    exitLong := "n3"
    exitShort := "n2" } limits

variable (F) in
def buildRandomGenome : Except OperatorError Genome := do
  let archetype ← chooseSeeding draws.archetype (decide (supply.kindWeights ≠ []))
    supply.archetypeWeight supply.archetypes
  match archetype with
  | .crossover => buildRandomCrossover F supply draws limits
  | .reversion => buildRandomReversion F supply draws limits
  | .latent => buildRandomLatent F supply draws limits
  | .breakout => buildRandomBreakout F supply draws limits

end Builders

/-! ## Configurations -/

structure SeedingConfig extends GeneticSearchConfig where
  maxNodes : ℕ := 24
  maxDepth : ℕ := 12
  repairMaxAttempts : ℕ := 8
  seedExitPolicies : Bool := true
  exitPolicyPresetIds : Option (List String) := none
  exitPolicySeedFraction : ℚ := 1 / 4
  population_le : populationSize ≤ 200 := by decide
  maxNodes_ge : 4 ≤ maxNodes := by decide
  maxDepth_ge : 3 ≤ maxDepth := by decide
  repair_ge : 1 ≤ repairMaxAttempts := by decide
  fraction_nonneg : 0 ≤ exitPolicySeedFraction := by norm_num
  fraction_le : exitPolicySeedFraction ≤ 1 := by norm_num
  presets_known : ∀ ids, exitPolicyPresetIds = some ids →
    ∀ id ∈ ids, id ∈ exitPresets.map Prod.fst := by simp

def SeedingConfig.limits (config : SeedingConfig) : Limits := ⟨config.maxNodes, config.maxDepth⟩

/-- The random choices of a call, by the member and the attempt. -/
structure PopulationDraws (F : Type) where
  hypothesis : ℕ → MutationDraws F
  registryName : ℕ → WeightedDraw
  registry : ℕ → MutationDraws F
  random : ℕ → ℕ → BuildDraws
  randomRepair : ℕ → ℕ → RepairDraws F
  sample : ℕ → ℕ

section Population

variable {F : Type} [ProbeFloat F] (config : SeedingConfig) (supply : SeedingSupply)

/-- The frame, when signals are asked for on it. -/
def probedFrame (probe : Option (Frame F)) : Option (Frame F) :=
  probe.filter fun frame => decide (frame.rows ≠ [] ∧ 0 < config.minSeedSignals)

/-! ## Genomes that signal -/

/-- `_tradeable_registry_fallback` -/
def tradeableRegistryFallback : Genome := maCrossoverGenome

def seedActivity (genome : Genome) (frame : Frame F) : Except OperatorError ActivityStats :=
  (genomeSignalActivity genome frame config.minSeedSignals []).mapError .search

def seedRepair (draws : RepairDraws F) (genome : Genome) (frame : Frame F) :
    Except OperatorError Genome :=
  (repairGenome draws genome frame config.minSeedSignals config.limits
    config.repairMaxAttempts).mapError .search

/-- `_ensure_tradeable_genome` -/
def ensureTradeableGenome (draws : RepairDraws F) (genome : Genome) (frame : Frame F) :
    Except OperatorError Genome := do
  let stats ← seedActivity config genome frame
  if stats.isTradeable then return genome
  else
    let repaired ← seedRepair config draws genome frame
    let stats ← seedActivity config repaired frame
    if stats.isTradeable then return repaired
    else return tradeableRegistryFallback

/-- The genome as it is without a probe. -/
def ensureProbed (draws : RepairDraws F) (genome : Genome) (probe : Option (Frame F)) :
    Except OperatorError Genome :=
  match probedFrame config probe with
  | none => .ok genome
  | some frame => ensureTradeableGenome config draws genome frame

/-- The passes of `_draw_tradeable_random_genome`. -/
def drawTradeable (draws : ℕ → BuildDraws) (repairs : ℕ → RepairDraws F) (frame : Frame F) :
    List ℕ → Except OperatorError Genome
  | [] => .ok tradeableRegistryFallback
  | attempt :: rest => do
    let genome ← buildRandomGenome F supply (draws attempt) config.limits
    let genome ← ensureTradeableGenome config (repairs attempt) genome frame
    let stats ← seedActivity config genome frame
    if stats.isTradeable then return genome
    else drawTradeable draws repairs frame rest

/-- `_draw_valid`: the first genome that is built, or what was raised last. -/
def drawValid (builder : ℕ → Except OperatorError Genome) :
    OperatorError → List ℕ → Except OperatorError Genome
  | last, [] => .error last
  | _, attempt :: rest =>
    match builder attempt with
    | .ok genome => .ok genome
    | .error e => if e.isValidation then drawValid builder e rest else .error e

/-! ## Members -/

/-- The genome with one parameter nudged, or as it is where the nudge is refused. -/
def nudgedSeed (draws : MutationDraws F) (genome : Genome) : Except OperatorError Genome :=
  match lightMutateParams draws supply.nLatents genome config.limits with
  | .ok mutated => .ok mutated
  | .error e => if e.isValidation then .ok genome else .error e

def seededMember (draws : MutationDraws F) (probe : Option (Frame F)) (genome : Genome) :
    Except OperatorError Genome := do
  let nudged ← nudgedSeed config supply draws genome
  ensureProbed config draws.repair nudged probe

/-- The fixture that is drawn for a seed. -/
def drawnFixture (draw : WeightedDraw) : Except OperatorError (String × Genome) :=
  chooseSeeding draw (decide (supply.kindWeights ≠ []))
    (fun fixture => supply.kindWeights.weight (registryPrimaryKind fixture.2)) registryFixtures

def randomMember (draws : ℕ → BuildDraws) (repairs : ℕ → RepairDraws F) (probe : Option (Frame F)) :
    Except OperatorError Genome :=
  match probedFrame config probe with
  | some frame =>
    drawTradeable config supply draws repairs frame (List.range (config.repairMaxAttempts + 1))
  | none =>
    drawValid (fun attempt => buildRandomGenome F supply (draws attempt) config.limits)
      (.refused "failed to draw a valid genome") (List.range 64)

def individualOf (label : String) (index : ℕ) (genome : Genome) : Individual where
  genomeId := label ++ toString index
  genome := genome
  generation := some 0

variable (draws : PopulationDraws F) (probe : Option (Frame F))

def hypothesisIndividual (seed : Genome) (index : ℕ) : Except OperatorError Individual := do
  let genome ← seededMember config supply (draws.hypothesis index) probe seed
  return individualOf "gen0-seed-hyp-" index genome

def registryIndividual (index : ℕ) : Except OperatorError Individual := do
  let fixture ← drawnFixture supply (draws.registryName index)
  let genome ← seededMember config supply (draws.registry index) probe fixture.2
  return individualOf "gen0-seed-" index genome

def randomIndividual (index : ℕ) : Except OperatorError Individual := do
  let genome ← randomMember config supply (draws.random index) (draws.randomRepair index) probe
  return individualOf "gen0-rand-" index genome

/-! ## Exit policies -/

/-- `rng.sample` -/
def sample (draw : ℕ → ℕ) : ℕ → List ℕ → List ℕ
  | 0, _ => []
  | count + 1, pool =>
    match choose (draw count) pool with
    | none => []
    | some index => index :: sample draw count (pool.erase index)

def attachPreset (presets : List (String × List String)) (population : List Individual)
    (index : ℕ) : List Individual :=
  match choose index presets with
  | none => population
  | some preset => population.modify index fun individual =>
    { individual with genome := attachExitRulePolicy individual.genome preset }

/-- `_seed_exit_policy_variants` -/
def seedExitPolicyVariants (population : List Individual) : Except OperatorError (List Individual) :=
  if config.seedExitPolicies = false ∨ config.exitPolicySeedFraction ≤ 0 then .ok population
  else do
    let presets ← selectedExitPolicyPresets config.exitPolicyPresetIds
    let wanted := roundEven (roundDouble (population.length * config.exitPolicySeedFraction))
    let count := min (max 1 wanted.toNat) population.length
    return (sample draws.sample count (List.range population.length)).foldl (attachPreset presets)
      population

/-! ## The population -/

def buildInitialPopulation (seeds : List Genome) : Except OperatorError (List Individual) := do
  let seedCount := config.populationSize / 2
  let hypotheses ← (seeds.take seedCount).zipIdx.mapM fun seed =>
    hypothesisIndividual config supply draws probe seed.1 seed.2
  let registry ← (List.range (seedCount - hypotheses.length)).mapM
    (registryIndividual config supply draws probe)
  let random ← (List.range (config.populationSize - seedCount)).mapM
    (randomIndividual config supply draws probe)
  seedExitPolicyVariants config draws (hypotheses ++ registry ++ random)

end Population

end QBackend.GenomeDsl
