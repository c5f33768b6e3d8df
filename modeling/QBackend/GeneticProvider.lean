import Mathlib.Algebra.Order.Field.Rat
import Mathlib.Data.List.Sort
import Mathlib.Data.Multiset.Basic
import Mathlib.Order.WithBot
import QBackend.GenomeSchema
import QBackend.JsonValues

/-!
# The provider of the genetic search

`GeneticCandidateProvider` of `genetic_search.py`: the selection fitness of a candidate, the
population that breeds the next one from the results of a generation, and the state that a provider
exports and loads. The random generator and the operators that it drives (`crossover_genomes`,
`mutate_genome`) are parameters; a fitness of `-inf` is the bottom of `WithBot ℚ`.
-/

namespace QBackend.GeneticSearch

open GenomeDsl JsonValues

/-! ## Genomes of a population -/

/-- A genome document: its id, the metadata that the search reads, and the genome itself. -/
structure Individual where
  genomeId : String
  genome : Genome
  generation : Option ℕ := none
  parentIds : Option (List String) := none
  lastMutationOp : Option String := none

def cloneGenome (individual : Individual) (genomeId : String) (generation : ℕ)
    (parentIds : List String) : Individual :=
  { individual with genomeId, generation := some generation, parentIds := some parentIds }

@[simp] theorem cloneGenome_genomeId (individual : Individual) (genomeId : String)
    (generation : ℕ) (parentIds : List String) :
    (cloneGenome individual genomeId generation parentIds).genomeId = genomeId := rfl

@[simp] theorem cloneGenome_genome (individual : Individual) (genomeId : String)
    (generation : ℕ) (parentIds : List String) :
    (cloneGenome individual genomeId generation parentIds).genome = individual.genome := rfl

def ParamValue.refKey : GenomeDsl.ParamValue → Option String
  | .ref key _ => some key
  | .lit _ => none

/-- `collect_genome_param_keys` -/
def collectGenomeParamKeys (genome : Genome) : List String :=
  let ofParams (params : List (String × GenomeDsl.ParamValue)) :=
    params.filterMap fun param => ParamValue.refKey param.2
  (genome.nodes.flatMap (fun node => ofParams node.params) ++
    match genome.exitRulePolicy.bind ExitRulePolicy.params with
    | some params => ofParams params
    | none => []).dedup

def genomeNodeCount (genome : Genome) : ℕ := genome.nodes.length

def genomeParamCount (genome : Genome) : ℕ := (collectGenomeParamKeys genome).length

/-- The multiset of the kinds of the nodes. -/
def genomeStructuralFingerprint (genome : Genome) : Multiset NodeKind :=
  genome.nodes.map GenomeNode.kind

def populationStructuralDiversity (population : List Individual) : ℚ :=
  if population = [] then 1
  else
    ((population.map fun individual =>
      genomeStructuralFingerprint individual.genome).dedup.length : ℚ) / population.length

/-! ## Configurations and results -/

structure GateConfig where
  minCompletedWindows : ℕ := 2
  minOosTrades : ℕ := 10
  efficiencyLow : ℚ := 3 / 10
  efficiencyHigh : ℚ := 3 / 2

structure GeneticSearchConfig where
  populationSize : ℕ := 48
  generations : ℕ := 12
  eliteCount : ℕ := 4
  crossoverRate : ℚ := 7 / 10
  mutationRate : ℚ := 15 / 100
  tournamentSize : ℕ := 3
  complexityLambda : ℚ := 1 / 1000
  complexityMu : ℚ := 5 / 10000
  gatePenaltyEfficiency : ℚ := 1 / 2
  gatePenaltyTrades : ℚ := 1 / 2
  gatePenaltyWindows : ℚ := 1 / 2
  noResultFloor : ℚ := -2
  errorFloor : ℚ := -4
  prescreenMinSignals : ℕ := 1
  minSeedSignals : ℕ := 1
  mutationRateMin : ℚ := 10 / 100
  mutationRateMax : ℚ := 50 / 100
  stagnationPatience : ℕ := 2
  adaptiveOperatorWeights : Bool := true
  population_ge : 10 ≤ populationSize := by decide
  generations_ge : 2 ≤ generations := by decide
  elite_pos : 1 ≤ eliteCount := by first | exact Nat.one_pos | decide
  elite_lt : eliteCount < populationSize := by decide
  tournament_ge : 2 ≤ tournamentSize := by decide

inductive CandidateStatus where
  | completed | noResult | unsupported | error
  deriving DecidableEq, Repr

inductive GateFlag where
  | fewWindows | fewOosTrades | lowEfficiency | suspiciousEfficiency
  deriving DecidableEq, Repr

/-- The out-of-sample metrics of a candidate: the count of the trades, and the others. -/
structure OosMetrics where
  totalTrades : ℤ := 0
  others : Dict ℚ := []

structure CandidateResult where
  candidateId : String
  strategy : String
  status : CandidateStatus
  rank : Option ℕ := none
  objectiveValue : Option ℚ := none
  robustnessScore : Option ℚ := none
  efficiency : Option ℚ := none
  gateFlags : List GateFlag := []
  passedGates : Bool := false
  oosMetrics : Option OosMetrics := none
  bestParams : Option (Dict ℚ) := none
  windowCount : ℕ := 0
  completedWindows : ℕ := 0
  error : Option String := none

def CandidateResult.oosTrades (result : CandidateResult) : ℤ :=
  match result.oosMetrics with
  | some metrics => metrics.totalTrades
  | none => 0

/-! ## Selection fitness -/

section Fitness

variable (log : ℚ → ℚ) (genetic : GeneticSearchConfig) (gates : GateConfig)

def complexityPenalty (genome : Genome) : ℚ :=
  genetic.complexityLambda * genomeNodeCount genome + genetic.complexityMu * genomeParamCount genome

def efficiencyGatePenalty (efficiency : Option ℚ) : ℚ :=
  let target := (gates.efficiencyLow + gates.efficiencyHigh) / 2
  match efficiency with
  | none => genetic.gatePenaltyEfficiency
  | some efficiency =>
    if target ≤ 0 then genetic.gatePenaltyEfficiency
    else
      let ratio := max efficiency (1 / 1000000) / target
      genetic.gatePenaltyEfficiency * min |log ratio| 2

def fewTradesPenalty (result : CandidateResult) : ℚ :=
  let shortfall : ℚ := ((gates.minOosTrades : ℚ) - result.oosTrades) / gates.minOosTrades
  let ratio := if 0 < gates.minOosTrades then max 0 (min 1 shortfall) else 0
  genetic.gatePenaltyTrades * ratio

def fewWindowsPenalty (result : CandidateResult) : ℚ :=
  let missing : ℚ := ((gates.minCompletedWindows - result.completedWindows : ℕ) : ℚ)
  let ratio := if 0 < gates.minCompletedWindows then missing / gates.minCompletedWindows else 0
  genetic.gatePenaltyWindows * ratio

def softGatePenalty (result : CandidateResult) : ℚ :=
  let flagged (flag : GateFlag) (penalty : ℚ) : ℚ :=
    if flag ∈ result.gateFlags then penalty else 0
  flagged .fewOosTrades (fewTradesPenalty genetic gates result) +
    flagged .fewWindows (fewWindowsPenalty genetic gates result) +
    flagged .lowEfficiency (efficiencyGatePenalty log genetic gates result.efficiency) +
    flagged .suspiciousEfficiency (efficiencyGatePenalty log genetic gates result.efficiency)

/-- `candidate_fitness`; the breakdown of `candidate_fitness_details` is left out. -/
def candidateFitness (result : CandidateResult) (genome : Genome) : ℚ :=
  if result.status = .error ∨ result.status = .unsupported then genetic.errorFloor
  else if result.status = .noResult ∨ result.status = .completed ∧ result.oosTrades = 0 then
    let progress : ℚ := result.completedWindows / max result.windowCount 1
    genetic.noResultFloor + 1 / 2 * progress
  else
    match result.robustnessScore with
    | none => genetic.errorFloor
    | some robustness =>
      let base := robustness - complexityPenalty genetic genome
      if result.passedGates then base else base - softGatePenalty log genetic gates result

end Fitness

/-! ## Mutation rates and operator weights -/

def adaptMutationRate (genetic : GeneticSearchConfig) (stagnationGenerations : ℕ)
    (structuralDiversity : ℚ) : ℚ :=
  let baseRate := genetic.mutationRate
  let minRate := genetic.mutationRateMin
  let maxRate := genetic.mutationRateMax
  if maxRate ≤ minRate then baseRate
  else if stagnationGenerations = 0 then baseRate
  else
    let overshoot : ℚ := (stagnationGenerations : ℚ) - genetic.stagnationPatience + 1
    let stagnation : ℚ :=
      if genetic.stagnationPatience ≤ stagnationGenerations then
        min 1 (overshoot / max genetic.stagnationPatience 1)
      else 0
    let homogeneity : ℚ := if structuralDiversity < 1 / 2 then 1 / 2 - structuralDiversity else 0
    let pressure := min 1 (stagnation + homogeneity)
    min maxRate (max minRate (baseRate + pressure * (maxRate - baseRate)))

abbrev OperatorWeights := List (String × ℚ)

def mutationOperators : List String :=
  ["rewire", "swap_indicator", "nudge_param", "swap_exit", "add_node", "remove_node",
    "swap_exit_policy", "add_exit_stop", "replace_exit_with_preset", "drop_exit_policy",
    "nudge_exit_param_ref"]

def defaultMutationOperatorWeights : OperatorWeights := mutationOperators.map fun op => (op, 1)

def updateMutationOperatorWeights (weights : OperatorWeights) (operator : String)
    (fitnessDelta : ℚ) : OperatorWeights :=
  weights.map fun entry =>
    if entry.1 = operator then
      if 0 < fitnessDelta then (entry.1, min 5 (entry.2 * (1 + 15 / 100)))
      else if fitnessDelta < 0 then (entry.1, max (5 / 100) (entry.2 * (1 - 15 / 100 * (1 / 2))))
      else entry
    else entry

/-! ## The provider -/

inductive BreedError where
  | genomeValidation (message : String)
  | other (message : String)
  deriving DecidableEq, Repr

/-- `random.Random` and the operators that draw from it, with the limits, the probe frame and the
latents of one search. An operator that raises has moved the generator too. -/
structure Operators (Rng : Type) where
  random : Rng → ℚ × Rng
  /-- The index of `rng.choice` in a list of the length. -/
  choice : Rng → ℕ → ℕ × Rng
  /-- The indices of `rng.sample` in a list of the length. -/
  sample : Rng → ℕ → ℕ → List ℕ × Rng
  crossoverGenomes : Rng → Individual → Individual → Except BreedError Individual × Rng
  mutateGenome : Rng → Individual → OperatorWeights → Except BreedError Individual × Rng

/-- What a provider keeps for a whole search. -/
structure Setting (Rng : Type) where
  genetic : GeneticSearchConfig
  gates : GateConfig
  log : ℚ → ℚ
  operators : Operators Rng

structure Provider (Rng : Type) where
  rng : Rng
  generation : ℕ
  nextIndividual : ℕ
  population : List Individual
  champion : Option Individual
  championFitness : WithBot ℚ
  bestFitness : WithBot ℚ
  stagnationGenerations : ℕ
  effectiveMutationRate : ℚ
  mutationOperatorWeights : OperatorWeights
  /-- A dict: of two entries with one id the later one counts. -/
  parentFitnessById : List (String × ℚ)

variable {Rng : Type}

/-- The provider of `__init__`, once the initial population is drawn. -/
def Provider.init (setting : Setting Rng) (rng : Rng) (population : List Individual) :
    Provider Rng where
  rng
  generation := 0
  nextIndividual := 0
  population
  champion := none
  championFitness := ⊥
  bestFitness := ⊥
  stagnationGenerations := 0
  effectiveMutationRate := setting.genetic.mutationRate
  mutationOperatorWeights := defaultMutationOperatorWeights
  parentFitnessById := []

/-- `_genome_by_id.get`: of two genomes with one id the later one counts. -/
def genomeById (population : List Individual) (candidateId : String) : Option Individual :=
  population.reverse.find? fun individual => individual.genomeId = candidateId

section Report

variable (setting : Setting Rng)

def Setting.fitness (result : CandidateResult) (genome : Genome) : ℚ :=
  candidateFitness setting.log setting.genetic setting.gates result genome

/-- What the loop of `report` over the results changes. -/
structure Scores where
  champion : Option Individual
  championFitness : WithBot ℚ
  bestFitness : WithBot ℚ
  mutationOperatorWeights : OperatorWeights
  scored : List (ℚ × Individual)

/-- The weights after a child of a known parent is scored. -/
def learnedWeights (parentFitnessById : List (String × ℚ)) (weights : OperatorWeights)
    (individual : Individual) (fitness : ℚ) : OperatorWeights :=
  if setting.genetic.adaptiveOperatorWeights then
    match individual.lastMutationOp with
    | none => weights
    | some op =>
      let parents := (individual.parentIds.getD []).filterMap fun id =>
        parentFitnessById.reverse.lookup id
      match parents with
      | [] => weights
      | f :: fs => updateMutationOperatorWeights weights op (fitness - fs.foldl max f)
  else weights

def score (population : List Individual) (parentFitnessById : List (String × ℚ))
    (scores : Scores) (result : CandidateResult) : Scores :=
  match genomeById population result.candidateId with
  | none => scores
  | some individual =>
    let fitness := setting.fitness result individual.genome
    let champions : Bool := result.status = .completed && result.passedGates &&
      scores.championFitness < (fitness : WithBot ℚ)
    { champion := if champions then some individual else scores.champion
      championFitness := if champions then fitness else scores.championFitness
      bestFitness := max scores.bestFitness fitness
      mutationOperatorWeights :=
        learnedWeights setting parentFitnessById scores.mutationOperatorWeights individual fitness
      scored := scores.scored ++ [(fitness, individual)] }

/-- The generator and the counter of the ids. -/
structure BreedState (Rng : Type) where
  rng : Rng
  nextIndividual : ℕ

def newGenomeId (generation nextIndividual : ℕ) : String :=
  "gen" ++ toString generation ++ "-ind" ++ toString nextIndividual

/-- The best first; equal ones keep their order. -/
def sortByFitness (scored : List (ℚ × Individual)) : List (ℚ × Individual) :=
  scored.insertionSort fun a b => b.1 ≤ a.1

def tournamentSelect (reproducers : List (ℚ × Individual)) (s : BreedState Rng) :
    Except BreedError Individual × BreedState Rng :=
  let k := min setting.genetic.tournamentSize reproducers.length
  let (indices, rng) := setting.operators.sample s.rng reproducers.length k
  match sortByFitness (indices.filterMap (reproducers[·]?)) with
  | [] => (.error (.other "list index out of range"), { s with rng })
  | (_, individual) :: _ => (.ok individual, { s with rng })

/-- `build_child` of `_vary` -/
def buildChild (p : Provider Rng) (weights : OperatorWeights) (mutationRate : ℚ)
    (a b : Individual) (s : BreedState Rng) : Except BreedError Individual × BreedState Rng :=
  let (draw, rng) := setting.operators.random s.rng
  let (crossed, rng) :=
    if draw < setting.genetic.crossoverRate then setting.operators.crossoverGenomes rng a b
    else (.ok a, rng)
  match crossed with
  | .error e => (.error e, { s with rng })
  | .ok child =>
    let child := { child with lastMutationOp := none }
    let (draw, rng) := setting.operators.random rng
    let (mutated, rng) :=
      if draw < mutationRate then
        setting.operators.mutateGenome rng child
          (if setting.genetic.adaptiveOperatorWeights then weights
            else defaultMutationOperatorWeights)
      else (.ok child, rng)
    match mutated with
    | .error e => (.error e, { s with rng })
    | .ok child =>
      -- `sorted({a, b})`
      let parentIds := [a.genomeId, b.genomeId].dedup.insertionSort (· ≤ ·)
      (.ok (cloneGenome child (newGenomeId p.generation s.nextIndividual) (p.generation + 1)
        parentIds), ⟨rng, s.nextIndividual + 1⟩)

/-- `_draw_valid`: the attempts that are left, and the error of the last one. -/
def drawValid {State α : Type} (builder : State → Except BreedError α × State) :
    ℕ → BreedError → State → Except BreedError α × State
  | 0, last, s => (.error last, s)
  | n + 1, _, s =>
    match builder s with
    | (.ok a, s) => (.ok a, s)
    | (.error (.genomeValidation message), s) => drawValid builder n (.genomeValidation message) s
    | (.error (.other message), s) => (.error (.other message), s)

def vary (p : Provider Rng) (weights : OperatorWeights) (mutationRate : ℚ)
    (a b : Individual) : BreedState Rng → Except BreedError Individual × BreedState Rng :=
  drawValid (buildChild setting p weights mutationRate a b) 64
    (.genomeValidation "failed to draw a valid genome")

/-- One child of the `while` loop of `report`. -/
def breedChild (p : Provider Rng) (weights : OperatorWeights) (mutationRate : ℚ)
    (reproducers : List (ℚ × Individual)) (s : BreedState Rng) :
    Except BreedError Individual × BreedState Rng :=
  if reproducers.length < 2 then
    let (index, rng) := setting.operators.choice s.rng p.population.length
    match p.population[index]? with
    | none => (.error (.other "Cannot choose from an empty sequence"), { s with rng })
    | some parent => vary setting p weights mutationRate parent parent { s with rng }
  else
    match tournamentSelect setting reproducers s with
    | (.error e, s) => (.error e, s)
    | (.ok a, s) =>
      match tournamentSelect setting reproducers s with
      | (.error e, s) => (.error e, s)
      | (.ok b, s) => vary setting p weights mutationRate a b s

def breedChildren (p : Provider Rng) (weights : OperatorWeights) (mutationRate : ℚ)
    (reproducers : List (ℚ × Individual)) :
    ℕ → BreedState Rng → Except BreedError (List Individual × BreedState Rng)
  | 0, s => .ok ([], s)
  | n + 1, s =>
    match breedChild setting p weights mutationRate reproducers s with
    | (.error e, _) => .error e
    | (.ok child, s) =>
      match breedChildren p weights mutationRate reproducers n s with
      | .error e => .error e
      | .ok (children, s) => .ok (child :: children, s)

/-- The elites, each with the next id. -/
def elites (p : Provider Rng) : List (ℚ × Individual) → ℕ → List Individual
  | [], _ => []
  | (_, individual) :: rest, next =>
    cloneGenome individual (newGenomeId p.generation next) (p.generation + 1)
      [individual.genomeId] :: elites p rest (next + 1)

def Provider.scores (p : Provider Rng) (results : List CandidateResult) : Scores :=
  results.foldl (score setting p.population p.parentFitnessById)
    ⟨p.champion, p.championFitness, p.bestFitness, p.mutationOperatorWeights, []⟩

def Provider.report (p : Provider Rng) (results : List CandidateResult) :
    Except BreedError (Provider Rng) :=
  let scores := p.scores setting results
  let stagnationGenerations :=
    if p.bestFitness < scores.bestFitness then 0 else p.stagnationGenerations + 1
  let effectiveMutationRate := adaptMutationRate setting.genetic stagnationGenerations
    (populationStructuralDiversity p.population)
  let reproducers := sortByFitness scores.scored
  let kept := elites p (reproducers.take setting.genetic.eliteCount) p.nextIndividual
  match breedChildren setting p scores.mutationOperatorWeights effectiveMutationRate reproducers
      (setting.genetic.populationSize - kept.length) ⟨p.rng, p.nextIndividual + kept.length⟩ with
  | .error e => .error e
  | .ok (children, s) => .ok {
      rng := s.rng
      generation := p.generation + 1
      nextIndividual := s.nextIndividual
      population := (kept ++ children).take setting.genetic.populationSize
      champion := scores.champion
      championFitness := scores.championFitness
      bestFitness := scores.bestFitness
      stagnationGenerations
      effectiveMutationRate
      mutationOperatorWeights := scores.mutationOperatorWeights
      parentFitnessById := reproducers.map fun entry => (entry.2.genomeId, entry.1) }

/-- The reports of one generation after the other. -/
def Provider.reports (p : Provider Rng) : List (List CandidateResult) →
    Except BreedError (Provider Rng)
  | [] => .ok p
  | results :: later =>
    match p.report setting results with
    | .error e => .error e
    | .ok p => p.reports later

end Report

/-! ## Exported states -/

/-- `model_dump` and `model_validate` of genomes, through the text of a JSON document. -/
structure GenomeCodec (Document : Type) where
  dump : Individual → Document
  validate : Document → Except JsonValues.Failure Individual

/-- A genome that is dumped and validated is the same genome. -/
def GenomeCodec.Faithful {Document : Type} (codec : GenomeCodec Document) : Prop :=
  ∀ individual, codec.validate (codec.dump individual) = .ok individual

structure ExportedState (Rng Document : Type) where
  rng : Rng
  generation : ℕ
  nextIndividual : ℕ
  bestFitness : WithBot ℚ
  stagnationGenerations : ℕ
  effectiveMutationRate : ℚ
  mutationOperatorWeights : OperatorWeights
  parentFitnessById : List (String × ℚ)
  champion : Option Document
  population : List Document

section Export

variable {Document : Type} (codec : GenomeCodec Document)

def Provider.exportState (p : Provider Rng) : ExportedState Rng Document where
  rng := p.rng
  generation := p.generation
  nextIndividual := p.nextIndividual
  bestFitness := p.bestFitness
  stagnationGenerations := p.stagnationGenerations
  effectiveMutationRate := p.effectiveMutationRate
  mutationOperatorWeights := p.mutationOperatorWeights
  parentFitnessById := p.parentFitnessById
  champion := p.champion.map codec.dump
  population := p.population.map codec.dump

def validateChampion : Option Document → Except JsonValues.Failure (Option Individual)
  | none => .ok none
  | some document => (codec.validate document).map some

/-- What the state does not hold stays as in the provider that loads it. -/
def Provider.loadState (p : Provider Rng) (state : ExportedState Rng Document) :
    Except JsonValues.Failure (Provider Rng) := do
  let champion ← validateChampion codec state.champion
  let population ← state.population.mapM codec.validate
  return { p with
    rng := state.rng
    generation := state.generation
    nextIndividual := state.nextIndividual
    bestFitness := state.bestFitness
    stagnationGenerations := state.stagnationGenerations
    effectiveMutationRate := state.effectiveMutationRate
    mutationOperatorWeights := state.mutationOperatorWeights
    parentFitnessById := state.parentFitnessById
    champion
    population }

variable {codec}

theorem validateChampion_dump (hcodec : codec.Faithful) (champion : Option Individual) :
    validateChampion codec (champion.map codec.dump) = .ok champion := by
  cases champion with
  | none => rfl
  | some individual => simp [validateChampion, hcodec individual, Except.map]

theorem mapM_validate_dump (hcodec : codec.Faithful) (population : List Individual) :
    (population.map codec.dump).mapM codec.validate = .ok population := by
  induction population with
  | nil => rfl
  | cons individual population ih =>
    rw [List.map_cons, List.mapM_cons, hcodec individual, ih]
    rfl

/-- A provider that loads an exported state is the one that exported it, but for the fitness of the
champion, which stays that of the loader. -/
theorem loadState_exportState (hcodec : codec.Faithful) (p fresh : Provider Rng) :
    fresh.loadState codec (p.exportState codec) =
      .ok { p with championFitness := fresh.championFitness } := by
  unfold Provider.loadState Provider.exportState
  rw [validateChampion_dump hcodec, mapM_validate_dump hcodec]
  rfl

end Export

end QBackend.GeneticSearch
