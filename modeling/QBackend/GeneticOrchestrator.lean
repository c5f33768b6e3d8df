import QBackend.GeneticPopulations

/-!
# The in-process genetic search

`GeneticStrategySearchOrchestrator`: every generation is pre-screened and evaluated, the results are
reported to the provider, and the results of the last generation are ranked. The walk-forward
analysis of a genome and the probe of the pre-screen are parameters, the same for every clone of the
genome.
-/

namespace QBackend.GeneticSearch

open JsonValues

/-! ## The evaluation of a candidate -/

/-- What `evaluate_candidate` reads of a walk-forward result: `objective` is the objective of its
out-of-sample metrics, `meanIs` the mean objective of its windows in sample. -/
structure WalkForwardOutcome where
  windowCount : ℕ
  completedWindows : ℕ
  efficiency : Option ℚ := none
  oosMetrics : Option OosMetrics := none
  objective : ℚ := 0
  meanIs : Option ℚ := none
  bestParams : Option (Dict ℚ) := none

def isOverfit (gates : GateConfig) (efficiency oosObjective : ℚ) : Option ℚ → Bool
  | some meanIs => 0 < meanIs && (oosObjective ≤ 0 || efficiency < gates.efficiencyLow)
  | none => efficiency < gates.efficiencyLow

def isSuspicious (gates : GateConfig) (efficiency oosObjective : ℚ) : Option ℚ → Bool
  | some meanIs => 0 < meanIs && 0 < oosObjective && gates.efficiencyHigh < efficiency
  | none => gates.efficiencyHigh < efficiency

/-- `_apply_gates`: the flags of a candidate, which passes without any. -/
def applyGates (gates : GateConfig) (outcome : WalkForwardOutcome) (oosTrades : ℤ) :
    List GateFlag :=
  (if outcome.completedWindows < gates.minCompletedWindows then [.fewWindows] else []) ++
  (if oosTrades < gates.minOosTrades then [.fewOosTrades] else []) ++
  match outcome.efficiency with
  | none => []
  | some efficiency =>
    (if isOverfit gates efficiency outcome.objective outcome.meanIs then [.lowEfficiency]
      else []) ++
    (if isSuspicious gates efficiency outcome.objective outcome.meanIs then
      [.suspiciousEfficiency] else [])

/-- `evaluate_candidate`, from the outcome of its walk-forward analysis or the text of the exception
that it raised; `minimizeDrawdown` is the mode that turns the sign of the objective. -/
def evaluateCandidate (minimizeDrawdown : Bool) (gates : GateConfig)
    (candidateId strategy : String) : Except String WalkForwardOutcome → CandidateResult
  | .error text => { candidateId, strategy, status := .error, error := some text }
  | .ok outcome =>
    let windowCount := outcome.windowCount
    let completedWindows := outcome.completedWindows
    let efficiency := outcome.efficiency
    match outcome.oosMetrics with
    | none =>
      { candidateId, strategy, status := .noResult, windowCount, completedWindows, efficiency
        error := some "no out-of-sample metrics" }
    | some metrics =>
      if metrics.totalTrades = 0 then
        { candidateId, strategy, status := .noResult, windowCount, completedWindows, efficiency
          oosMetrics := some metrics, error := some "zero out-of-sample trades" }
      else
        let gateFlags := applyGates gates outcome metrics.totalTrades
        { candidateId, strategy, status := .completed, windowCount, completedWindows, efficiency
          oosMetrics := some metrics, objectiveValue := some outcome.objective
          robustnessScore :=
            some (if minimizeDrawdown then -outcome.objective else outcome.objective)
          bestParams := outcome.bestParams, gateFlags, passedGates := gateFlags.isEmpty }

/-- The evaluation of the genomes of one search. -/
structure Evaluator where
  minimizeDrawdown : Bool := false
  walkForward : GenomeDsl.Genome → Except String WalkForwardOutcome
  /-- The probe finds enough signals, or there is no pre-screen. -/
  isTradeable : GenomeDsl.Genome → Bool := fun _ => true

def prescreenResult (candidateId : String) : CandidateResult where
  candidateId
  strategy := "CompositeStrategy"
  status := .noResult
  error := some "pre-screen: no in-sample signals"

def Evaluator.result (evaluator : Evaluator) (gates : GateConfig) (individual : Individual) :
    CandidateResult :=
  if evaluator.isTradeable individual.genome then
    evaluateCandidate evaluator.minimizeDrawdown gates individual.genomeId "CompositeStrategy"
      (evaluator.walkForward individual.genome)
  else prescreenResult individual.genomeId

/-! ## Generations -/

/-- A genome of a generation with its result. -/
structure Entry where
  individual : Individual
  result : CandidateResult

section Search

variable {Rng : Type} (setting : Setting Rng) (evaluator : Evaluator)

/-- The selection fitness of an entry, as its metadata records it. -/
def Setting.entryFitness (entry : Entry) : ℚ :=
  setting.fitness entry.result entry.individual.genome

def Provider.generationEntries (p : Provider Rng) : List Entry :=
  p.population.map fun individual => ⟨individual, evaluator.result setting.gates individual⟩

/-- `run` without a stop: each generation is evaluated and reported, the last one too. -/
def evolve : ℕ → Provider Rng → Except BreedError (List (List Entry))
  | 0, _ => .ok []
  | n + 1, p =>
    let entries := p.generationEntries setting evaluator
    match p.report setting (entries.map Entry.result) with
    | .error e => .error e
    | .ok p' =>
      match evolve n p' with
      | .error e => .error e
      | .ok later => .ok (entries :: later)

end Search

/-! ## The ranking -/

/-- `result.robustness_score or -inf`: a score of zero counts as none. -/
def rankKey (result : CandidateResult) : WithBot ℚ :=
  match result.robustnessScore with
  | none => ⊥
  | some score => if score = 0 then ⊥ else score

def trailingTier (result : CandidateResult) : ℕ :=
  if !result.passedGates && result.status = .completed then 0
  else
    match result.status with
    | .noResult => 1
    | .error => 2
    | .unsupported => 3
    | .completed => 4

def trailingLe (a b : CandidateResult) : Prop :=
  trailingTier a < trailingTier b ∨
    trailingTier a = trailingTier b ∧ a.candidateId ≤ b.candidateId

instance : DecidableRel trailingLe := fun a b =>
  inferInstanceAs (Decidable (trailingTier a < trailingTier b ∨
    trailingTier a = trailingTier b ∧ a.candidateId ≤ b.candidateId))

def isRanked (result : CandidateResult) : Bool := result.passedGates && result.objectiveValue.isSome

def rankResults (results : List CandidateResult) : List CandidateResult :=
  let passing := (results.filter isRanked).insertionSort fun a b => rankKey b ≤ rankKey a
  passing.mapIdx (fun i result => { result with rank := some (i + 1) }) ++
    (results.filter fun result => !isRanked result).insertionSort trailingLe

/-- The best candidate of `finalize`: the first of the last generation, if it is ranked. -/
def bestOf (generations : List (List CandidateResult)) : Option CandidateResult :=
  match generations.getLast? with
  | none => none
  | some results =>
    match rankResults results with
    | best :: _ => if best.rank = some 1 then some best else none
    | [] => none

end QBackend.GeneticSearch
