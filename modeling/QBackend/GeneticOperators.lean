import QBackend.ActivityProbe
import QBackend.SpecCompiler
import QBackend.SubtreeCrossover

/-!
# Genetic operators

`mutate_genome` and `crossover_genomes` of `operators.py` with the operators that they draw. The
random choices of a call are values by the place where they are made; the ids of a genome are
distinct, so that a node that is changed is found by its id. The operator that was drawn is what the
metadata keep of a mutation.
-/

namespace QBackend.GenomeDsl

open FallibleSteps
open GeneticSearch (OperatorWeights defaultMutationOperatorWeights mutationOperators)
open StrategyBuilder (buildExitRulePolicy buildSingleStopExitPolicy genomeExitParamRef)

/-! ## What is raised -/

inductive OperatorError where
  /-- A `GenomeValidationError` of an operator. -/
  | refused (message : String)
  | search (e : SearchError)
  | assertionError
  deriving DecidableEq, Repr

/-- A `GenomeValidationError`. -/
def OperatorError.isValidation : OperatorError → Bool
  | .refused _ => true
  | .search e => e.caught
  | .assertionError => false

/-! ## Random choices -/

/-- `rng.choice`; of an empty list there is none. -/
def choose {α : Type} (draw : ℕ) (xs : List α) : Option α := xs[draw % xs.length]?

def randint (draw : ℕ) (lo hi : ℤ) : ℤ := lo + draw % (hi - lo + 1)

/-- `round(rng.uniform(lo, hi), 4)` for the value of `rng.random()`. -/
def roundedUniform (random lo hi : ℚ) : ℚ :=
  let drawn := roundDouble (lo + roundDouble (roundDouble (hi - lo) * random))
  roundDouble (roundEven (drawn * 10000) / 10000)

section WeightedChoice

variable {α : Type} (weight : α → ℚ)

/-- The first choice up to which the weights add up to the number, or the last. -/
def cumulativeChoice (pick : ℚ) : ℚ → α → List α → α
  | _, choice, [] => choice
  | cumulative, choice, next :: rest =>
    if pick ≤ cumulative + max (weight choice) 0 then choice
    else cumulativeChoice pick (cumulative + max (weight choice) 0) next rest

/-- `_weighted_choice`, from the value of `rng.random()` or the index that `rng.choice` takes. -/
def weightedChoice (random : ℚ) (index : ℕ) (first : α) (rest : List α) : α :=
  let total := ((first :: rest).map fun choice => max (weight choice) 0).sum
  if total ≤ 0 then (choose index (first :: rest)).getD first
  else cumulativeChoice weight (total * random) 0 first rest

end WeightedChoice

/-- The random choices of a mutation, by the place where they are made. -/
structure MutationDraws (F : Type) where
  /-- `rng.random()` of the weighted choice of the operator, and the index of the plain one. -/
  weighted : ℚ
  operator : ℕ
  node : ℕ
  /-- The second choice of a node. -/
  other : ℕ
  index : ℕ
  kind : ℕ
  key : ℕ
  value : ℕ
  latent : ℕ
  random : ℚ
  preset : ℕ
  repair : RepairDraws F

/-! ## Kinds that are generated -/

structure NodeGenMetadata where
  randomInit : Bool
  addNode : Bool
  swap : Bool

def resolveNodeGenMetadata (kind : NodeKind) : NodeGenMetadata :=
  match kind with
  | .transformZscore | .transformRank | .transformPctChange | .transformClip => ⟨true, true, true⟩
  | .featureSessionWindow => ⟨true, true, false⟩
  | .indDiff | .indRatio | .indTsmom | .indLatent => ⟨false, false, false⟩
  | .indMa | .indEma | .indRsi => ⟨false, true, true⟩
  | kind =>
    match kind.family with
    | .feature => ⟨true, true, true⟩
    | .ind => ⟨false, false, true⟩
    | _ => ⟨false, false, false⟩

/-- The indicators, transforms and features in the order of their names. -/
def sortedIndicatorKinds : List NodeKind :=
  [.indAtr, .indBollinger, .indDiff, .indDonchian, .indEma, .indLatent, .indMa, .indMaBand, .indMacd,
    .indMomentum, .indRatio, .indRealizedVol, .indRsi, .indTrbChannel, .indTrendBlend, .indTsmom]

def sortedTransformKinds : List NodeKind :=
  [.transformAbs, .transformClip, .transformPctChange, .transformRank, .transformScale,
    .transformShift, .transformZscore]

def sortedFeatureKinds : List NodeKind :=
  [.featureD1PrevClose, .featureD1PrevHigh, .featureD1PrevLow, .featureD1Trend,
    .featureD1Volatility, .featureDayOfWeek, .featureDistPrevSessionCloseAtr,
    .featureDistPrevSessionHighAtr, .featureDistPrevSessionLowAtr, .featureMinutesFromOpen,
    .featureMonthOfYear, .featureOpeningRangeHigh, .featureOpeningRangeLow,
    .featurePrevSessionClose, .featurePrevSessionHigh, .featurePrevSessionLow,
    .featureRangeCompression, .featureSessionGap, .featureSessionWindow, .featureTimeOfDay,
    .featureTrendRegime, .featureVolRegime]

/-- `base_indicator_kinds` -/
def baseIndicatorKinds : List NodeKind :=
  sortedIndicatorKinds.filter fun kind => (resolveNodeGenMetadata kind).swap && kind ≠ .indLatent

/-- `add_node_kinds` -/
def addNodeKinds : List NodeKind :=
  (sortedFeatureKinds ++ sortedIndicatorKinds ++ sortedTransformKinds).filter fun kind =>
    (resolveNodeGenMetadata kind).addNode

/-- `random_init_transform_kinds` -/
def randomInitTransformKinds : List NodeKind :=
  sortedTransformKinds.filter fun kind => (resolveNodeGenMetadata kind).randomInit

/-- `swap_kinds` -/
def swapKinds (indicatorKinds : List NodeKind) : List NodeKind :=
  sortedIndicatorKinds.filter (fun kind => indicatorKinds.contains kind) ++
    sortedTransformKinds.filter (fun kind => (resolveNodeGenMetadata kind).swap) ++
    sortedFeatureKinds.filter fun kind => (resolveNodeGenMetadata kind).swap

/-! ## Parameters of a new node -/

def sampleLatentIndex (draw : ℕ) (nLatents : ℤ) : ℤ :=
  if nLatents ≤ 0 then 0 else randint draw 0 (nLatents - 1)

/-- `_FEATURE_LITERAL_DEFAULTS` -/
def featureLiteralDefaults : List (String × String) :=
  [("session_open", "09:00"), ("session_close", "18:00"), ("window_from", "10:00"),
    ("window_to", "12:00")]

def sortedParamKeys (kind : NodeKind) : List String :=
  (nodeSpec kind).allowedParamKeys.insertionSort (· ≤ ·)

theorem nodup_sortedParamKeys (kind : NodeKind) : (sortedParamKeys kind).Nodup := by
  have hnodup : (nodeSpec kind).allowedParamKeys.Nodup := by cases kind <;> decide
  exact (List.perm_insertionSort _ _).nodup_iff.mpr hnodup

def randomNodeParam (kind : NodeKind) (latent : ℕ) (nLatents : ℤ) (key : String) : ParamValue :=
  match featureLiteralDefaults.lookup key with
  | some text => .lit (.str text)
  | none =>
    if kind = .indLatent ∧ key = "latent_index" then .lit (.int (sampleLatentIndex latent nLatents))
    else .ref key false

def randomNodeParams (kind : NodeKind) (latent : ℕ) (nLatents : ℤ) : List (String × ParamValue) :=
  (sortedParamKeys kind).map fun key => (key, randomNodeParam kind latent nLatents key)

theorem nodup_randomNodeParams (kind : NodeKind) (latent : ℕ) (nLatents : ℤ) :
    ((randomNodeParams kind latent nLatents).map Prod.fst).Nodup := by
  have hkeys : (randomNodeParams kind latent nLatents).map Prod.fst = sortedParamKeys kind := by
    rw [randomNodeParams, List.map_map]
    exact List.map_id _
  rw [hkeys]
  exact nodup_sortedParamKeys kind

/-- A node with the parameters that are drawn for its kind. -/
def randomNode (id : String) (kind : NodeKind) (inputs : List String) (latent : ℕ) (nLatents : ℤ) :
    GenomeNode where
  id := id
  kind := kind
  params := randomNodeParams kind latent nLatents
  inputs := inputs
  keysNodup := nodup_randomNodeParams kind latent nLatents

/-! ## Changes of a genome -/

/-- The node with the id is changed. -/
def Genome.change (genome : Genome) (id : String) (f : GenomeNode → GenomeNode) : Genome :=
  { genome with nodes := KeyedTables.modify GenomeNode.id genome.nodes id f }

def Genome.boolNodes (genome : Genome) : List String :=
  (genome.nodes.filter fun node => primaryOutputType node = some .boolSeries).map GenomeNode.id

/-- The settings of a mutation beside the limits. -/
structure MutationConfig where
  minSignals : ℤ := 0
  repairMaxAttempts : ℕ := 8
  operatorWeights : OperatorWeights := []
  exitPolicyPresetIds : Option (List String) := none
  indicatorKinds : List NodeKind := baseIndicatorKinds
  nLatents : ℤ := 0

section Operators

variable {F : Type} [ProbeFloat F]

variable (F) in
/-- `_validate_or_raise` -/
def validated (genome : Genome) (limits : Limits) : Except OperatorError Genome :=
  (validateOrRaise F genome limits).mapError .search

/-! ## Operators on the nodes -/

def mutateRewire (draws : MutationDraws F) (genome : Genome) (limits : Limits) :
    Except OperatorError Genome :=
  match choose draws.node (genome.nodes.filter fun node => node.inputs ≠ []) with
  | none => .ok genome
  | some target =>
    match choose draws.other (genome.nodes.filter fun node => node.id ≠ target.id) with
    | none => .ok genome
    | some producer =>
      validated F (genome.change target.id fun node =>
        { node with
          inputs := node.inputs.set (draws.index % target.inputs.length) producer.id }) limits

/-- The output type of the first port of the kind. -/
def nodeOutputType (kind : NodeKind) : Option OutputType := (nodeSpec kind).ports.head?.map Prod.snd

def GenomeNode.isSwappable (node : GenomeNode) : Bool :=
  (decide (node.kind.family = .ind) || decide (node.kind.family = .transform) ||
    decide (node.kind.family = .feature)) && (resolveNodeGenMetadata node.kind).swap

def mutateSwapIndicator (draws : MutationDraws F) (config : MutationConfig) (genome : Genome)
    (limits : Limits) : Except OperatorError Genome :=
  match choose draws.node (genome.nodes.filter GenomeNode.isSwappable) with
  | none => .ok genome
  | some node =>
    match choose draws.kind ((swapKinds config.indicatorKinds).filter fun kind =>
      nodeOutputType kind = primaryOutputType node ∧
        (nodeSpec kind).minInputs = (nodeSpec node.kind).minInputs) with
    | none => .ok genome
    | some kind =>
      validated F (genome.change node.id fun node =>
        randomNode node.id kind node.inputs draws.latent config.nLatents) limits

/-- The literal that a parameter of the node is set to. -/
def nudgedValue (draws : MutationDraws F) (nLatents : ℤ) (kind : NodeKind) (key : String)
    (bounds : Bounds) : Value :=
  if kind = .indLatent ∧ key = "latent_index" then .int (sampleLatentIndex draws.latent nLatents)
  else
    match bounds with
    | .choices choices => .str ((choose draws.value choices).getD "")
    | .int lo hi =>
      if key = "latent_index" ∧ 0 < nLatents then .int (sampleLatentIndex draws.latent nLatents)
      else .int (randint draws.value lo hi)
    | .float lo hi => .float (roundedUniform draws.random lo hi)

/-- The node, the key and the bounds that a nudge draws; none when it leaves the genome as it is. -/
def nudgeTarget (draws : MutationDraws F) (genome : Genome) :
    Option (GenomeNode × String × ParamSpec) := do
  let node ← choose draws.node genome.nodes
  let key ← choose draws.key (sortedParamKeys node.kind)
  let spec ← genomeParamBounds.lookup key
  return (node, key, spec)

def lightMutateParams (draws : MutationDraws F) (nLatents : ℤ) (genome : Genome) (limits : Limits) :
    Except OperatorError Genome :=
  match nudgeTarget draws genome with
  | none => .ok genome
  | some (node, key, spec) =>
    validated F (genome.assign node.id key
      (.lit (nudgedValue draws nLatents node.kind key spec.bounds))) limits

/-- The frame is probed before a parameter is nudged. -/
def probes (config : MutationConfig) (probe : Option (Frame F)) : Option (Frame F) :=
  probe.filter fun frame => decide (frame.rows ≠ [] ∧ 0 < config.minSignals)

/-- A genome that signals too rarely is repaired, and nudged where that does not help. -/
def mutateNudgeParam (draws : MutationDraws F) (config : MutationConfig) (probe : Option (Frame F))
    (genome : Genome) (limits : Limits) : Except OperatorError Genome :=
  match probes config probe with
  | none => lightMutateParams draws config.nLatents genome limits
  | some frame => do
    let stats ← (genomeSignalActivity genome frame config.minSignals []).mapError .search
    if stats.isTradeable then lightMutateParams draws config.nLatents genome limits
    else
      let repaired ← (repairGenome draws.repair genome frame config.minSignals limits
        config.repairMaxAttempts).mapError .search
      let stats ← (genomeSignalActivity repaired frame config.minSignals []).mapError .search
      if stats.isTradeable then .ok repaired
      else lightMutateParams draws config.nLatents genome limits

def mutateSwapExit (draws : MutationDraws F) (genome : Genome) (limits : Limits) :
    Except OperatorError Genome :=
  match choose draws.node genome.boolNodes, choose draws.other genome.boolNodes with
  | some long, some short =>
    if genome.boolNodes.length < 2 then .ok genome
    else validated F { genome with exitLong := long, exitShort := short } limits
  | _, _ => .ok genome

/-- The genome with a close, and the id of the close. -/
def Genome.withClose (genome : Genome) : Genome × String :=
  match genome.nodes.find? fun node => node.kind = .sourceClose with
  | some close => (genome, close.id)
  | none =>
    ({ genome with nodes := { id := "n1", kind := .sourceClose } :: genome.nodes }, "n1")

/-- The node that is added at the end. -/
def addedNode (draws : MutationDraws F) (count : ℕ) (close : String) (kind : NodeKind) : GenomeNode :=
  randomNode (numberedId (count + 1)) kind (if 0 < (nodeSpec kind).minInputs then [close] else [])
    draws.latent 0

def mutateAddNode (draws : MutationDraws F) (genome : Genome) (limits : Limits) :
    Except OperatorError Genome :=
  if limits.maxNodes ≤ genome.nodes.length then .ok genome
  else
    let (child, close) := genome.withClose
    match choose draws.kind addNodeKinds with
    | none => .error (.search (.raised .indexError))
    | some kind =>
      let child :=
        { child with nodes := child.nodes ++ [addedNode draws child.nodes.length close kind] }
      let child := match choose draws.other child.boolNodes with
        | none => child
        | some entry =>
          if draws.random < 1 / 2 then { child with entryLong := entry }
          else { child with entryShort := entry }
      validated F child limits

/-- The reference, or the first boolean node where it is to the node that is removed. -/
def replacedRef (child : Genome) (removed ref : String) : Except OperatorError String :=
  if (parseInputRef ref).1 = removed then
    match child.boolNodes with
    | [] => .error (.refused "no bool nodes after removal")
    | first :: _ => .ok first
  else .ok ref

def mutateRemoveNode (draws : MutationDraws F) (genome : Genome) (limits : Limits) :
    Except OperatorError Genome :=
  let removable := genome.nodes.filter fun node =>
    node.kind.family ≠ .source ∧ node.kind.family ≠ .exit
  if removable.length ≤ 2 then .ok genome
  else
    match choose draws.node removable, genome.nodes.head? with
    | some target, some first => do
      let fallback :=
        ((genome.nodes.find? fun node => node.kind = .sourceClose).getD first).id
      let child :=
        { genome with
          nodes := (genome.nodes.map fun node =>
            { node with
              inputs := node.inputs.map fun raw =>
                if (parseInputRef raw).1 = target.id then fallback else raw }).filter fun node =>
            node.id ≠ target.id }
      let entryLong ← replacedRef child target.id child.entryLong
      let entryShort ← replacedRef child target.id child.entryShort
      let exitLong ← replacedRef child target.id child.exitLong
      let exitShort ← replacedRef child target.id child.exitShort
      validated F { child with entryLong, entryShort, exitLong, exitShort } limits
    | _, _ => .error (.search (.raised .indexError))

/-! ## Operators on the exit policy -/

/-- The preset and the params of the policy, when it has params. -/
def Genome.getExitRulePolicy (genome : Genome) :
    Option (Option String × List (String × ParamValue)) :=
  genome.exitRulePolicy.bind fun policy => policy.params.map fun params => (policy.presetId, params)

def presetById (id : String) : Except OperatorError (String × List String) :=
  match exitPresets.find? fun preset => preset.1 = id with
  | some preset => .ok preset
  | none => .error (.search (.raised (.keyError id)))

def selectedExitPolicyPresets (ids : Option (List String)) :
    Except OperatorError (List (String × List String)) :=
  match ids with
  | none => .ok exitPresets
  | some ids => ids.mapM presetById

def attachExitRulePolicy (genome : Genome) (preset : String × List String) : Genome :=
  { genome with exitRulePolicy := some (buildExitRulePolicy preset.1 preset.2) }

def mutateSwapExitPolicy (draws : MutationDraws F) (config : MutationConfig) (genome : Genome) :
    Except OperatorError Genome := do
  let presets ← selectedExitPolicyPresets config.exitPolicyPresetIds
  let current := genome.getExitRulePolicy.bind Prod.fst
  let others := presets.filter fun preset => some preset.1 ≠ current
  match choose draws.preset (if others = [] then presets else others) with
  | none => return genome
  | some preset => return attachExitRulePolicy genome preset

def mutateAddExitStop (draws : MutationDraws F) (genome : Genome) : Genome :=
  match genome.getExitRulePolicy with
  | some _ => genome
  | none =>
    { genome with exitRulePolicy := some (buildSingleStopExitPolicy (decide (draws.random < 1 / 2))) }

def mutateReplaceExitWithPreset (draws : MutationDraws F) (config : MutationConfig)
    (genome : Genome) : Except OperatorError Genome := do
  let presets ← selectedExitPolicyPresets config.exitPolicyPresetIds
  match choose draws.preset presets with
  | none => return genome
  | some preset => return attachExitRulePolicy genome preset

def mutateDropExitPolicy (genome : Genome) : Genome :=
  match genome.getExitRulePolicy with
  | none => genome
  | some _ => { genome with exitRulePolicy := none }

/-- The preset of the policy, its params and the one that is made a reference. -/
def nudgeExitTarget (draws : MutationDraws F) (genome : Genome) :
    Option (Option String × List (String × ParamValue) × String) := do
  let policy ← genome.getExitRulePolicy
  let name ← choose draws.key ((policy.2.map Prod.fst).insertionSort (· ≤ ·))
  return (policy.1, policy.2, name)

def mutateNudgeExitParamRef (draws : MutationDraws F) (genome : Genome) : Genome :=
  match nudgeExitTarget draws genome with
  | none => genome
  | some (preset, params, name) =>
    { genome with
      exitRulePolicy := some
        ⟨preset, some (assignKey params name (.ref (genomeExitParamRef name) false))⟩ }

/-! ## Mutations -/

inductive MutationOperator where
  | rewire | swapIndicator | nudgeParam | swapExit | addNode | removeNode
  | swapExitPolicy | addExitStop | replaceExitWithPreset | dropExitPolicy | nudgeExitParamRef
  deriving DecidableEq, Repr

def MutationOperator.name : MutationOperator → String
  | .rewire => "rewire"
  | .swapIndicator => "swap_indicator"
  | .nudgeParam => "nudge_param"
  | .swapExit => "swap_exit"
  | .addNode => "add_node"
  | .removeNode => "remove_node"
  | .swapExitPolicy => "swap_exit_policy"
  | .addExitStop => "add_exit_stop"
  | .replaceExitWithPreset => "replace_exit_with_preset"
  | .dropExitPolicy => "drop_exit_policy"
  | .nudgeExitParamRef => "nudge_exit_param_ref"

/-- `MUTATION_OPERATORS` after the first. -/
def laterMutationOperators : List MutationOperator :=
  [.swapIndicator, .nudgeParam, .swapExit, .addNode, .removeNode, .swapExitPolicy, .addExitStop,
    .replaceExitWithPreset, .dropExitPolicy, .nudgeExitParamRef]

example : (.rewire :: laterMutationOperators : List MutationOperator).map MutationOperator.name =
    mutationOperators := rfl

/-- `EXIT_MUTATION_OPERATORS` -/
def MutationOperator.isExit : MutationOperator → Bool
  | .swapExitPolicy | .addExitStop | .replaceExitWithPreset | .dropExitPolicy
  | .nudgeExitParamRef => true
  | _ => false

def drawnOperator (draws : MutationDraws F) (config : MutationConfig) : MutationOperator :=
  let weights := if config.operatorWeights = [] then defaultMutationOperatorWeights
    else config.operatorWeights
  weightedChoice (fun op => (weights.lookup op.name).getD 1) draws.weighted draws.operator .rewire
    laterMutationOperators

/-- What the operator makes of the genome. -/
def applyOperator (op : MutationOperator) (draws : MutationDraws F) (config : MutationConfig)
    (probe : Option (Frame F)) (genome : Genome) (limits : Limits) : Except OperatorError Genome :=
  match op with
  | .rewire => mutateRewire draws genome limits
  | .swapIndicator => mutateSwapIndicator draws config genome limits
  | .nudgeParam => mutateNudgeParam draws config probe genome limits
  | .swapExit => mutateSwapExit draws genome limits
  | .addNode => mutateAddNode draws genome limits
  | .removeNode => mutateRemoveNode draws genome limits
  | .swapExitPolicy => mutateSwapExitPolicy draws config genome
  | .addExitStop => .ok (mutateAddExitStop draws genome)
  | .replaceExitWithPreset => mutateReplaceExitWithPreset draws config genome
  | .dropExitPolicy => .ok (mutateDropExitPolicy genome)
  | .nudgeExitParamRef => .ok (mutateNudgeExitParamRef draws genome)

def mutateGenome (draws : MutationDraws F) (config : MutationConfig) (probe : Option (Frame F))
    (genome : Genome) (limits : Limits) : Except OperatorError Genome := do
  let op := drawnOperator draws config
  let mutated ← applyOperator op draws config probe genome limits
  if op.isExit then
    ensure (mutated.entryLong = genome.entryLong ∧ mutated.entryShort = genome.entryShort)
      .assertionError
  return mutated

/-! ## Crossovers -/

/-- The random choices of a crossover: the two cuts, and the donor's cut for a single node. -/
structure CrossoverDraws where
  cutA : ℕ
  cutB : ℕ
  single : ℕ

variable (F) in
/-- The loop of `_subtree_crossover`, with what is raised kept apart. -/
def subtreeRounds (recipient donor : Genome) (cutA cutB : GenomeNode) (limits : Limits) :
    ℕ → List String → Except OperatorError Genome
  | 0, _ => .error (.search (.raised .recursionError))
  | fuel + 1, ids => do
    let child ← (rewiredChild recipient donor cutA cutB ids).mapError fun e => .search (.raised e)
    match validateGenome F (pruneUnreachableNodes child) limits.maxDepth limits.maxNodes with
    | .ok () => .ok (pruneUnreachableNodes child)
    | .error e =>
      let next := pruneSubtreeLeaves ids donor cutB.id
      if e = .typeError ∨ ids.length ≤ 1 ∨ next = ids then .error (.search (.invalid e))
      else subtreeRounds recipient donor cutA cutB limits fuel next

variable (F) in
def subtreeCrossover (recipient donor : Genome) (cutA cutB : GenomeNode) (limits : Limits) :
    Except OperatorError Genome :=
  if cutA.id ∉ recipient.ids then .ok recipient
  else
    let ids := subtreeNodeIds donor cutB.id
    if ids.length ≤ 1 then .error (.refused "subtree too small for crossover")
    else subtreeRounds F recipient donor cutA cutB limits ids.length ids

variable (F) in
def singleNodeCrossover (recipient : Genome) (cutA cutB : GenomeNode) (limits : Limits) :
    Except OperatorError Genome :=
  validated F (recipient.change cutA.id fun node =>
    { node with kind := cutB.kind, params := cutB.params, keysNodup := cutB.keysNodup }) limits

/-- The cuts of the donor below which there is more than one node. -/
def multiNodeCuts (donor : Genome) (cuts : List GenomeNode) : List GenomeNode :=
  cuts.filter fun node => 1 < (subtreeNodeIds donor node.id).length

variable (F) in
/-- `_crossover_attempt`, which prefers a subtree. -/
def crossoverGenomes (draws : CrossoverDraws) (recipient donor : Genome) (limits : Limits) :
    Except OperatorError Genome :=
  match choose draws.cutA (cuttableNodes recipient) with
  | none => .ok recipient
  | some cutA =>
    let compatible := compatibleCutNodes cutA (cuttableNodes donor)
    match choose draws.single compatible with
    | none => .ok recipient
    | some single =>
      match choose draws.cutB (multiNodeCuts donor compatible) with
      | none => singleNodeCrossover F recipient cutA single limits
      | some cutB =>
        match subtreeCrossover F recipient donor cutA cutB limits with
        | .ok child => .ok child
        | .error e =>
          if e.isValidation then singleNodeCrossover F recipient cutA single limits else .error e

end Operators

end QBackend.GenomeDsl
