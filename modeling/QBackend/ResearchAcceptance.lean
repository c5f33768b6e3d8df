import QBackend.JsonValues
import Mathlib.Data.List.Sort
import Mathlib.Data.Rat.Defs
import Mathlib.Algebra.Order.Ring.Unbundled.Rat
import Mathlib.Algebra.Field.Rat

/-!
# Acceptance criteria and their verdict

`build_acceptance_criteria`, `evaluate_plateau_result` and `resolve_verdict` of
`optimization/research_acceptance.py`. A criterion is one row of evidence; the verdict looks at the
rows that are there. Floating point numbers are rational numbers here.
-/

namespace QBackend.Research

open JsonValues FallibleSteps

/-! ## Evidence -/

structure AcceptanceConfig where
  minCompletedOosWindows : ℕ := 6
  minStitchedOosTrades : ℕ := 30
  requirePositiveAggregateOosReturn : Bool := true
  requirePositiveMedianWindowReturn : Bool := true
  optimizationSeeds : ℕ := 5
  minPositiveSeedOutcomes : ℕ := 4
  minDsr : ℚ := 95 / 100
  minPlateauProfitableFraction : ℚ := 1 / 2
  minPlateauScoreRetention : ℚ := 7 / 10
  lockboxMinTrades : ℕ := 5
  lockboxMaxDrawdownPct : Option ℚ := none
  requirePositiveLockboxReturn : Bool := true
  requirePositiveLockboxSharpe : Bool := true
  worstWindowReturnGate : Option ℚ := none

inductive SeedRunStatus where
  | completed | failed | missing
  deriving DecidableEq, Repr

structure SeedRunRecord where
  status : SeedRunStatus
  oosMetrics : Option (Dict ℚ) := none
  windowReturns : List ℚ := []
  completedWindows : ℕ := 0

structure PlateauNeighborResult where
  objectiveValue : Option ℚ
  profitable : Bool

structure PlateauResult where
  neighborsEvaluated : ℕ
  profitableFraction : Option ℚ
  scoreRetention : Option ℚ

structure TailDiagnostics where
  worstWindowReturn : Option ℚ := none
  p25WindowReturn : Option ℚ := none

/-- The arguments of `build_acceptance_criteria` besides the configuration. -/
structure AcceptanceEvidence where
  champion : Option SeedRunRecord
  seeds : List SeedRunRecord
  plateau : Option PlateauResult
  dsrValue : Option ℚ
  lockboxMetrics : Option (Dict ℚ)
  lockboxEvaluated : Bool
  lockboxBlocked : Bool
  tail : TailDiagnostics := {}

/-! ## Numbers out of metrics -/

/-- `float(metrics.get(key, 0.0))` -/
def floatMetric (metrics : Dict ℚ) (key : String) : Except Failure ℚ :=
  match metrics.lookup key with
  | some value => value.asFloat
  | none => .ok 0

/-- `int` of a number cuts the fraction off. -/
def truncate (x : ℚ) : ℤ := x.num.tdiv x.den

/-- `int(metrics.get(key, 0))` -/
def intMetric (metrics : Dict ℚ) (key : String) : Except Failure ℤ :=
  match metrics.lookup key with
  | some value => value.asFloat.map truncate
  | none => .ok 0

/-- `np.median` of a list that is not empty. -/
def median (xs : List ℚ) : ℚ :=
  let sorted := xs.insertionSort (· ≤ ·)
  let n := sorted.length
  if n % 2 = 1 then sorted.getD (n / 2) 0
  else (sorted.getD (n / 2 - 1) 0 + sorted.getD (n / 2) 0) / 2

/-- The least of a list that is not empty. -/
def least (x : ℚ) (xs : List ℚ) : ℚ := xs.foldl min x

/-! ## The plateau -/

def evaluatePlateauResult (championObjective : Option ℚ)
    (neighbors : List PlateauNeighborResult) : PlateauResult :=
  let evaluated := neighbors.filter fun n => n.objectiveValue.isSome
  if evaluated.isEmpty then
    { neighborsEvaluated := 0, profitableFraction := none, scoreRetention := none }
  else
    let profitable := evaluated.filter fun n => n.profitable
    let medianNeighbor := median (evaluated.filterMap fun n => n.objectiveValue)
    { neighborsEvaluated := evaluated.length
      profitableFraction := some ((profitable.length : ℚ) / evaluated.length)
      scoreRetention := match championObjective with
        | some objective => if 0 < objective then some (medianNeighbor / objective) else none
        | none => none }

/-! ## Criteria -/

inductive CriterionStatus where
  | passed | failed | unavailable
  deriving DecidableEq, Repr

inductive CriterionName where
  | championSeed | oosWindows | oosTrades | aggregateOosReturn | medianWindowReturn
  | worstWindowReturn | seedRobustness | dsr | parameterPlateau | lockboxHoldout | lockboxTrades
  | lockboxDrawdown | lockboxReturn | lockboxSharpe | tailWorstWindow | tailP25Window
  deriving DecidableEq, Repr

structure AcceptanceCriterion where
  name : CriterionName
  status : CriterionStatus
  observed : Json ℚ
  threshold : Json ℚ
  reason : String

/-- A row that has no evidence. -/
def unavailable (name : CriterionName) (observed threshold : Json ℚ) (reason : String) :
    AcceptanceCriterion :=
  { name, status := .unavailable, observed, threshold, reason }

/-- A row that passes where the condition holds. -/
def gate (name : CriterionName) (ok : Bool) (observed threshold : Json ℚ) (reason : String) :
    AcceptanceCriterion :=
  { name, status := if ok then .passed else .failed, observed, threshold, reason }

/-- The champion, unless it is missing, not completed or without metrics. -/
def usableChampion (champion : Option SeedRunRecord) : Option (SeedRunRecord × Dict ℚ) :=
  match champion with
  | some record =>
    match record.status, record.oosMetrics with
    | .completed, some (field :: fields) => some (record, field :: fields)
    | _, _ => none
  | none => none

def medianCriterion (config : AcceptanceConfig) (windowReturns : List ℚ) :
    List AcceptanceCriterion :=
  if !windowReturns.isEmpty && config.requirePositiveMedianWindowReturn then
    let medianReturn := median windowReturns
    [gate .medianWindowReturn (decide (0 < medianReturn)) (.float medianReturn) (.str "> 0")
      "Median OOS-window return must be positive."]
  else []

def worstCriterion (config : AcceptanceConfig) (windowReturns : List ℚ) :
    List AcceptanceCriterion :=
  match config.worstWindowReturnGate, windowReturns with
  | some bound, x :: xs =>
    let worst := least x xs
    [gate .worstWindowReturn (decide (bound ≤ worst)) (.float worst) (.float bound)
      "Worst OOS-window return hard gate."]
  | _, _ => []

def championCriteria (config : AcceptanceConfig) (champion : Option SeedRunRecord) :
    Except Failure (List AcceptanceCriterion) :=
  match usableChampion champion with
  | none => .ok [unavailable .championSeed .null (.str "completed champion")
      "No completed optimization seed produced a champion."]
  | some (record, metrics) => do
    let oosTrades ← intMetric metrics "total_trades"
    let aggregateReturn ← floatMetric metrics "total_return_pct"
    let windows := gate .oosWindows (decide (config.minCompletedOosWindows ≤ record.completedWindows))
      (.int record.completedWindows) (.int config.minCompletedOosWindows)
      "Completed walk-forward OOS windows."
    let trades := gate .oosTrades (decide ((config.minStitchedOosTrades : ℤ) ≤ oosTrades))
      (.int oosTrades) (.int config.minStitchedOosTrades) "Stitched OOS trade count."
    let aggregate := if config.requirePositiveAggregateOosReturn then
        [gate .aggregateOosReturn (decide (0 < aggregateReturn)) (.float aggregateReturn)
          (.str "> 0") "Aggregate stitched OOS return must be positive."]
      else []
    return windows :: trades :: (aggregate ++ medianCriterion config record.windowReturns ++
      worstCriterion config record.windowReturns)

def SeedRunRecord.completed (seed : SeedRunRecord) : Bool := seed.status = .completed

def seedReturn (seed : SeedRunRecord) : Except Failure ℚ :=
  floatMetric (seed.oosMetrics.getD []) "total_return_pct"

def seedCriterion (config : AcceptanceConfig) (seeds : List SeedRunRecord) :
    Except Failure AcceptanceCriterion :=
  let expected := config.optimizationSeeds
  if seeds.length < expected then
    .ok (unavailable .seedRobustness (.int seeds.length) (.int expected)
      "Fewer seed runs than required.")
  else
    let evaluated := seeds.take expected
    let incomplete := evaluated.filter fun seed => !seed.completed
    if !incomplete.isEmpty then
      .ok (unavailable .seedRobustness
        (.obj [("completed", .int (evaluated.countP SeedRunRecord.completed)),
          ("failed_or_missing", .int incomplete.length)])
        (.obj [("seeds", .int expected), ("min_positive", .int config.minPositiveSeedOutcomes)])
        "Missing or failed seeds cannot be converted to zero outcomes.")
    else do
      let returns ← evaluated.mapM seedReturn
      let positive := returns.countP fun x => decide (0 < x)
      return gate .seedRobustness (decide (config.minPositiveSeedOutcomes ≤ positive))
        (.int positive) (.int config.minPositiveSeedOutcomes)
        "Independent optimization seeds with positive OOS return."

def dsrCriterion (config : AcceptanceConfig) : Option ℚ → AcceptanceCriterion
  | none => unavailable .dsr .null (.float config.minDsr)
      "DSR could not be computed from champion evidence."
  | some value => gate .dsr (decide (config.minDsr ≤ value)) (.float value) (.float config.minDsr)
      "Deflated Sharpe Ratio after conservative attempt count."

def plateauThreshold (config : AcceptanceConfig) : Json ℚ :=
  .obj [("min_profitable_fraction", .float config.minPlateauProfitableFraction),
    ("min_score_retention", .float config.minPlateauScoreRetention)]

def plateauCriterion (config : AcceptanceConfig) (plateau : Option PlateauResult) :
    AcceptanceCriterion :=
  let missing := unavailable .parameterPlateau .null (plateauThreshold config)
    "Parameter neighborhood could not be evaluated."
  match plateau with
  | none => missing
  | some p =>
    if p.neighborsEvaluated = 0 then missing
    else
      let profitableOk := match p.profitableFraction with
        | some fraction => decide (config.minPlateauProfitableFraction ≤ fraction)
        | none => false
      let retentionOk := match p.scoreRetention with
        | some retention => decide (config.minPlateauScoreRetention ≤ retention)
        | none => true
      gate .parameterPlateau (profitableOk && retentionOk)
        (.obj [("profitable_fraction", Json.ofOption .float p.profitableFraction),
          ("score_retention", Json.ofOption .float p.scoreRetention),
          ("neighbors_evaluated", .int p.neighborsEvaluated)])
        (plateauThreshold config) "Champion must sit on a profitable parameter plateau."

def drawdownRows (config : AcceptanceConfig) (metrics : Dict ℚ) :
    Except Failure (List AcceptanceCriterion) :=
  match config.lockboxMaxDrawdownPct with
  | some bound => do
    let drawdown ← floatMetric metrics "max_drawdown_pct"
    return [gate .lockboxDrawdown (decide (drawdown ≤ bound)) (.float drawdown) (.float bound)
      "Lock-box maximum drawdown."]
  | none => .ok []

/-- The row of a metric that must be positive where the gate is switched on. -/
def positiveRows (on : Bool) (name : CriterionName) (key reason : String) (metrics : Dict ℚ) :
    Except Failure (List AcceptanceCriterion) :=
  if on then do
    let value ← floatMetric metrics key
    return [gate name (decide (0 < value)) (.float value) (.str "> 0") reason]
  else .ok []

def lockboxRows (config : AcceptanceConfig) (metrics : Dict ℚ) :
    Except Failure (List AcceptanceCriterion) := do
  let trades ← intMetric metrics "total_trades"
  let drawdown ← drawdownRows config metrics
  let lockboxReturn ← positiveRows config.requirePositiveLockboxReturn .lockboxReturn
    "total_return_pct" "Lock-box return must be positive." metrics
  let sharpe ← positiveRows config.requirePositiveLockboxSharpe .lockboxSharpe
    "sharpe_ratio" "Lock-box Sharpe must be positive." metrics
  return gate .lockboxTrades (decide ((config.lockboxMinTrades : ℤ) ≤ trades)) (.int trades)
      (.int config.lockboxMinTrades) "Lock-box minimum trade count." ::
    (drawdown ++ lockboxReturn ++ sharpe)

def lockboxCriteria (config : AcceptanceConfig) (evidence : AcceptanceEvidence) :
    Except Failure (List AcceptanceCriterion) :=
  if evidence.lockboxBlocked then
    .ok [unavailable .lockboxHoldout .null (.str "single untouched evaluation")
      "Lock-box holdout already consumed for this split manifest."]
  else if !evidence.lockboxEvaluated then
    .ok [unavailable .lockboxHoldout .null (.str "single untouched evaluation")
      "Lock-box has not been evaluated for the frozen champion."]
  else match evidence.lockboxMetrics with
    | none => .ok [unavailable .lockboxHoldout .null (.str "metrics present")
        "Lock-box evaluation produced no metrics."]
    | some metrics => lockboxRows config metrics

/-- A row of evidence that no threshold belongs to. -/
def tailCriterion (name : CriterionName) (value : Option ℚ) : List AcceptanceCriterion :=
  match value with
  | some x => [gate name true (.float x) .null "Lower-tail diagnostic (evidence only unless gated)."]
  | none => []

def buildAcceptanceCriteria (config : AcceptanceConfig) (evidence : AcceptanceEvidence) :
    Except Failure (List AcceptanceCriterion) := do
  let champion ← championCriteria config evidence.champion
  let seeds ← seedCriterion config evidence.seeds
  let lockbox ← lockboxCriteria config evidence
  return champion ++ [seeds, dsrCriterion config evidence.dsrValue,
      plateauCriterion config evidence.plateau] ++ lockbox ++
    tailCriterion .tailWorstWindow evidence.tail.worstWindowReturn ++
    tailCriterion .tailP25Window evidence.tail.p25WindowReturn

/-! ## The verdict -/

inductive AcceptanceVerdict where
  | readyForPaper | inconclusive | rejected
  deriving DecidableEq, Repr

def evidenceOnlyCriteria : List CriterionName := [.tailWorstWindow, .tailP25Window]

/-- Some row that counts has this status. -/
def hasStatus (status : CriterionStatus) (criteria : List AcceptanceCriterion) : Bool :=
  criteria.any fun c => !evidenceOnlyCriteria.contains c.name && c.status = status

def resolveVerdict (criteria : List AcceptanceCriterion) : AcceptanceVerdict :=
  if hasStatus .unavailable criteria then .inconclusive
  else if hasStatus .failed criteria then .rejected
  else .readyForPaper

/-- The verdict on some evidence. -/
def acceptanceVerdict (config : AcceptanceConfig) (evidence : AcceptanceEvidence) :
    Except Failure AcceptanceVerdict :=
  (buildAcceptanceCriteria config evidence).map resolveVerdict

end QBackend.Research
