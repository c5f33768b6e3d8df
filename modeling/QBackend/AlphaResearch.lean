import QBackend.LockboxBlindness
import QBackend.LockboxRun

/-!
# The alpha-research job

The split manifest of `features/split_manifest.py`, the seed runs, the plateau and the deflated Sharpe
ratio of `optimization/research_acceptance_service.py`, and the stages of
`api/alpha_research_jobs.py` from the manifest to the lock-box. The optimization of a window, a
back-test and the admission of hypotheses are parameters, and so is the time zone; what is modelled
is which bars they are given. Floating point numbers are rational numbers here.
-/

namespace QBackend.Research

open Execution (Time Bar)
open JsonValues FallibleSteps Optimization

/-! ## Bars -/

/-- The bars of a symbol and timeframe; the local store keeps one bar for each time. -/
structure History extends EvaluationFrame where
  increasing : bars.Pairwise fun a b => a.openTime < b.openTime

/-- The bars between two dates, both included. -/
def History.getOhlcv (history : History) (start stop : Time) : List Bar :=
  history.bars.filter fun bar => start ≤ bar.openTime ∧ bar.openTime ≤ stop

/-! ## The split manifest -/

structure SplitSegment where
  start : Time
  stop : Time
  barCount : ℕ
  deriving DecidableEq, Repr

/-- A split of a range into three segments, in order of time and disjoint. -/
structure SplitManifest where
  rangeStart : Time
  rangeStop : Time
  evidence : SplitSegment
  walkforward : SplitSegment
  lockbox : SplitSegment
  fractions : ℚ × ℚ × ℚ
  evidence_lt_walkforward : evidence.stop < walkforward.start
  walkforward_start_le : walkforward.start ≤ walkforward.stop
  walkforward_lt_lockbox : walkforward.stop < lockbox.start
  lockbox_start_le : lockbox.start ≤ lockbox.stop
  rangeStart_eq : rangeStart = evidence.start
  rangeStop_eq : rangeStop = lockbox.stop
  deriving DecidableEq

/-- The positions at which the walk-forward and the lock-box start. -/
def splitEdges (n : ℕ) (fractions : ℚ × ℚ × ℚ) : ℤ × ℤ :=
  if n = 0 then (0, 0)
  else
    let evidenceEnd := truncate (n * fractions.1)
    let walkforwardEnd := evidenceEnd + truncate (n * fractions.2.1)
    let evidenceEnd := max 1 (min evidenceEnd (n - 2))
    (evidenceEnd, max (evidenceEnd + 1) (min walkforwardEnd (n - 1)))

theorem splitEdges_bounds {n : ℕ} (h : 3 ≤ n) (fractions : ℚ × ℚ × ℚ) :
    1 ≤ (splitEdges n fractions).1 ∧ (splitEdges n fractions).1 < (splitEdges n fractions).2 ∧
      (splitEdges n fractions).2 < n := by
  have hn : n ≠ 0 := by omega
  simp only [splitEdges, if_neg hn]
  omega

theorem History.openTime_lt (history : History) {i j : ℕ} (hi : i < history.bars.length)
    (hj : j < history.bars.length) (hij : i < j) :
    history.bars[i].openTime < history.bars[j].openTime :=
  List.pairwise_iff_getElem.mp history.increasing i j hi hj hij

theorem History.openTime_le (history : History) {i j : ℕ} (hi : i < history.bars.length)
    (hj : j < history.bars.length) (hij : i ≤ j) :
    history.bars[i].openTime ≤ history.bars[j].openTime := by
  obtain rfl | hlt := Nat.eq_or_lt_of_le hij
  · exact le_rfl
  · exact (history.openTime_lt hi hj hlt).le

/-- The dates of the bars from one position up to another. -/
def History.segment (history : History) (i j : ℕ) (hi : i < j) (hj : j ≤ history.bars.length) :
    SplitSegment where
  start := history.bars[i].openTime
  stop := history.bars[j - 1].openTime
  barCount := j - i

/-- The default fractions. -/
def splitFractions : ℚ × ℚ × ℚ := (40 / 100, 40 / 100, 20 / 100)

/-- `build_split_manifest`; less than three bars do not have the positions that it reads. -/
def buildSplitManifest (history : History) (fractions : ℚ × ℚ × ℚ) :
    Except String SplitManifest :=
  if history.bars = [] then .error "bars must not be empty"
  else if 1 / 1000000 < |fractions.1 + fractions.2.1 + fractions.2.2 - 1| then
    .error "split fractions must sum to 1.0"
  else if h : 3 ≤ history.bars.length then
    have hedges := splitEdges_bounds h fractions
    let evidenceEnd := (splitEdges history.bars.length fractions).1.toNat
    let walkforwardEnd := (splitEdges history.bars.length fractions).2.toNat
    let evidence := history.segment 0 evidenceEnd (by omega) (by omega)
    let walkforward := history.segment evidenceEnd walkforwardEnd (by omega) (by omega)
    let lockbox := history.segment walkforwardEnd history.bars.length (by omega) le_rfl
    .ok {
      rangeStart := history.bars[0].openTime
      rangeStop := history.bars[history.bars.length - 1].openTime
      evidence
      walkforward
      lockbox
      fractions
      evidence_lt_walkforward := history.openTime_lt _ _ (by omega)
      walkforward_start_le := history.openTime_le _ _ (by omega)
      walkforward_lt_lockbox := history.openTime_lt _ _ (by omega)
      lockbox_start_le := history.openTime_le _ _ (by omega)
      rangeStart_eq := rfl
      rangeStop_eq := rfl }
  else .error "single positional indexer is out-of-bounds"

/-- Bars whose times fall within the segment. -/
def sliceSegment (history : History) (segment : SplitSegment) : List Bar :=
  history.getOhlcv segment.start segment.stop

/-! ## Seed runs -/

/-- The record of one seed, with the fields that the selection of a champion reads. -/
structure SeedRun extends SeedRunRecord where
  seed : ℤ
  bestParams : Option (Dict ℚ) := none
  windowCount : ℕ := 0
  objectiveValue : Option ℚ := none
  failureReason : Option String := none

/-- The out-of-sample metrics of a completed window. -/
def testedMetrics (window : WindowResult ℚ) : Option (Dict ℚ) :=
  if window.status = .completed then window.oosMetrics.filter fun metrics => !metrics.isEmpty
  else none

def windowReturnsFromResults (windows : List (WindowResult ℚ)) : Except Failure (List ℚ) :=
  (windows.filterMap testedMetrics).mapM fun metrics => floatMetric metrics "total_return_pct"

/-- The first window with the best score, of those that have parameters. -/
def bestWindow (mode : ObjectiveMode) :
    Option (ℚ × Dict ℚ) → List (WindowResult ℚ) → Except Failure (Option (ℚ × Dict ℚ))
  | best, [] => .ok best
  | best, window :: windows =>
    match testedMetrics window with
    | none => bestWindow mode best windows
    | some metrics =>
      if window.bestParams.isEmpty then bestWindow mode best windows
      else do
        let score ← resolveObjective metrics mode
        if best.all fun b => b.1 < score then
          bestWindow mode (some (score, window.bestParams)) windows
        else bestWindow mode best windows

/-- `evaluate_seed_run`, from what the walk-forward returns or raises. -/
def evaluateSeedRun (mode : ObjectiveMode) (seed : ℤ) :
    Except String (WalkForwardResult ℚ) → Except Failure SeedRun
  | .error text => .ok { seed, status := .failed, failureReason := some text }
  | .ok result => do
    let windowReturns ← windowReturnsFromResults result.windows
    let record : SeedRun := {
      seed
      status := .failed
      windowCount := result.windows.length
      completedWindows := result.windows.countP fun window => window.status = .completed
      windowReturns }
    if result.oosMetrics.isEmpty then
      return { record with failureReason := some "no out-of-sample metrics" }
    let record := { record with oosMetrics := some result.oosMetrics }
    let trades ← intMetric result.oosMetrics "total_trades"
    if trades = 0 then
      return { record with failureReason := some "zero out-of-sample trades" }
    let objective ← resolveObjective result.oosMetrics mode
    let best ← bestWindow mode none result.windows
    return { record with
      status := .completed, objectiveValue := some objective, bestParams := best.map Prod.snd }

/-- `seed.objective_value or float("-inf")`: an objective of zero counts as none. -/
def SeedRun.rank (run : SeedRun) : WithBot ℚ :=
  match run.objectiveValue with
  | some objective => if objective = 0 then ⊥ else (objective : WithBot ℚ)
  | none => ⊥

/-- The first of the completed seeds with the best objective. -/
def selectChampionSeed (seeds : List SeedRun) : Option SeedRun :=
  let completed := seeds.filter fun seed => seed.status = .completed
  (completed.insertionSort fun a b => b.rank ≤ a.rank).head?

/-! ## A job -/

/-- What a job computes from bars and configuration: the hypotheses that the feature evidence admits,
the walk-forward optimization of a candidate with a seed, the neighbours of parameters and a back-test
between two dates. -/
structure Computations where
  hypotheses : List Bar → List SearchCandidate
  walkForward : SearchCandidate → ℤ → List (WalkForwardWindow × List Bar × List Bar) →
    Except String (WalkForwardResult ℚ)
  generateParameterNeighbors : SearchCandidate → Dict ℚ → List (Dict ℚ)
  backtest : SearchCandidate → Dict ℚ → Time × Time → List Bar → Except Failure (Dict ℚ)
  deflatedSharpeRatio : ℚ → ℕ → ℚ

/-- The manifest, and what the profile and the budget of the request fix. -/
structure AlphaConfig where
  manifest : SplitManifest
  walkforward : WalkForwardConfig
  studyTrials : ℕ := 30
  studySeed : ℤ := 42
  optimizationSeeds : ℕ := 5
  optimizationSeeds_pos : 1 ≤ optimizationSeeds := by decide

structure AcceptanceOutcome where
  seeds : List SeedRun
  plateau : Option PlateauResult
  dsrValue : Option ℚ

/-- What a job shows before it opens the lock-box. -/
structure AlphaOutcome where
  acceptance : List (SearchCandidate × AcceptanceOutcome)
  champion : Option (SearchCandidate × SeedRun)

namespace AlphaConfig

variable (config : AlphaConfig) (compute : Computations) (history : History)

/-- `ObjectiveConfig(mode=ObjectiveMode.MAXIMIZE_SHARPE)` of `build_alpha_search_config`. -/
def mode : ObjectiveMode := .maximizeSharpe

/-- The lock-box of `build_alpha_search_config`: the last fraction, of the time. -/
def lockbox : LockboxConfig :=
  { enabled := true, lockboxPct := some config.manifest.fractions.2.2 }

/-- The dates of the `BacktestConfig` of `build_alpha_search_config`. The manifest labels the times of
its bars as UTC, and the validator of the configuration brings them to the naive time of a zone. -/
def backtestRange (zone : Time → Time) : Except Failure (Time × Time) :=
  if zone config.manifest.rangeStop ≤ zone config.manifest.rangeStart then
    .error (.valueError "backtest.start must be before backtest.end")
  else .ok (zone config.manifest.rangeStart, zone config.manifest.rangeStop)

def seeds : List ℤ :=
  (List.range config.optimizationSeeds).map fun index : ℕ => config.studySeed + index

/-- The bars on which a window is optimized and those on which it is tested. The runner of a job
fetches them by date, without warm-up. -/
def windowBars (w : WalkForwardWindow) : WalkForwardWindow × List Bar × List Bar :=
  (w, history.getOhlcv w.trainStart w.trainEnd, history.getOhlcv w.testStart w.testEnd)

/-- One seed of a candidate; the windows are those of the whole range. -/
def seedRun (range : Time × Time) (candidate : SearchCandidate) (seed : ℤ) :
    Except Failure SeedRun :=
  evaluateSeedRun mode seed
    (match splitWindows range.1 range.2 config.walkforward with
    | .error text => .error text
    | .ok windows => compute.walkForward candidate seed (windows.map (windowBars history)))

/-- `DefaultBacktestRunner.run` on the bars that it fetched. -/
def runOn (candidate : SearchCandidate) (params : Dict ℚ) (range : Time × Time)
    (bars : List Bar) : Except Failure (Dict ℚ) :=
  if bars = [] then .error (.valueError "No market data found for the given parameters.")
  else compute.backtest candidate params range bars

def run (candidate : SearchCandidate) (params : Dict ℚ) (range : Time × Time) :
    Except Failure (Dict ℚ) :=
  runOn compute candidate params range (history.getOhlcv range.1 range.2)

def evaluateNeighborOnSegment (candidate : SearchCandidate) (segment : SplitSegment)
    (params : Dict ℚ) : Except Failure PlateauNeighborResult := do
  let metrics ← run compute history candidate params (segment.start, segment.stop)
  let trades ← intMetric metrics "total_trades"
  if trades = 0 then return { objectiveValue := none, profitable := false }
  let objective ← resolveObjective metrics mode
  let totalReturn ← floatMetric metrics "total_return_pct"
  return { objectiveValue := some objective, profitable := 0 < totalReturn }

def evaluateParameterPlateau (candidate : SearchCandidate) (champion : SeedRun)
    (params : Dict ℚ) : Except Failure PlateauResult := do
  let neighbors ← (compute.generateParameterNeighbors candidate params).mapM
    (evaluateNeighborOnSegment compute history candidate config.manifest.walkforward)
  return evaluatePlateauResult champion.objectiveValue neighbors

/-- The hypotheses, the trials of all seeds and the seeds. -/
def effectiveAttemptCount (hypothesisCount : ℕ) : ℕ :=
  max (hypothesisCount + config.studyTrials * config.optimizationSeeds + config.optimizationSeeds) 1

def computeDsrValue (attempts : ℕ) (champion : SeedRun) : Except Failure (Option ℚ) :=
  match champion.oosMetrics.filter fun metrics => !metrics.isEmpty with
  | none => .ok none
  | some metrics => do
    let sharpe ← floatMetric metrics "sharpe_ratio"
    return some (compute.deflatedSharpeRatio sharpe attempts)

/-- `run_research_acceptance` of a job: seeds, plateau and ratio, without the lock-box. -/
def runResearchAcceptance (range : Time × Time) (hypothesisCount : ℕ)
    (candidate : SearchCandidate) : Except Failure AcceptanceOutcome := do
  let seeds ← config.seeds.mapM (config.seedRun compute history range candidate)
  match selectChampionSeed seeds with
  | none => return { seeds, plateau := none, dsrValue := none }
  | some champion =>
    let plateau ← match champion.bestParams with
      | none => pure none
      | some params =>
        some <$> config.evaluateParameterPlateau compute history candidate champion params
    let dsrValue ←
      computeDsrValue compute (config.effectiveAttemptCount hypothesisCount) champion
    return { seeds, plateau, dsrValue }

/-- The first candidate with the best champion. -/
def selectFrozenCandidate :
    Option (SearchCandidate × SeedRun) → List (SearchCandidate × AcceptanceOutcome) →
      Option (SearchCandidate × SeedRun)
  | best, [] => best
  | best, (candidate, result) :: results =>
    match selectChampionSeed result.seeds with
    | none => selectFrozenCandidate best results
    | some champion =>
      match champion.objectiveValue with
      | none => selectFrozenCandidate best results
      | some objective =>
        if best.all fun b => b.2.objectiveValue.all (· < objective) then
          selectFrozenCandidate (some (candidate, champion)) results
        else selectFrozenCandidate best results

/-- The stages from the feature evidence to the frozen champion. -/
def outcome (zone : Time → Time) : Except Failure AlphaOutcome := do
  let range ← config.backtestRange zone
  let candidates := compute.hypotheses (sliceSegment history config.manifest.evidence)
  let acceptance ← candidates.mapM fun candidate => do
    let result ← config.runResearchAcceptance compute history range candidates.length candidate
    return (candidate, result)
  return { acceptance, champion := selectFrozenCandidate none acceptance }

/-- `evaluate_lockbox`: the champion on the last fraction of the time. -/
def lockboxMetrics (zone : Time → Time) (candidate : SearchCandidate) (params : Dict ℚ) :
    Except Failure (Dict ℚ) := do
  let range ← config.backtestRange zone
  match computeLockboxBounds range.1 range.2 config.lockbox with
  | .error text => .error (.valueError text)
  | .ok (_, none) => .ok []
  | .ok (_, some range) => run compute history candidate params range

end AlphaConfig

end QBackend.Research
