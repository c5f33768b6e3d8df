import QBackend.WindowPartials
import QBackend.OrderedSeries
import QBackend.FanIn

/-!
# The aggregation of walk-forward windows

The sequential run of `optimization/walkforward.py` over its windows, the aggregation it shares with
the finalizer of `api/walkforward_jobs.py`, and the finalizer on the partial results that it loads.
The optimizer, the backtest and the numerics of pandas are parameters, and nothing is assumed of the
arithmetic of floating point numbers.
-/

namespace QBackend.Optimization

open IsoTimestamps JsonValues

/-! ## Configuration -/

/-- The objectives of a single study; a walk-forward refuses studies with several. -/
inductive ObjectiveMode where
  | maximizeNetProfit | maximizeSharpe | minimizeDrawdown | maximizeReturnDrawdown
  deriving DecidableEq, Repr

/-- The metric that an objective reads. -/
def ObjectiveMode.metric : ObjectiveMode → String
  | .maximizeNetProfit => "total_pnl"
  | .maximizeSharpe => "sharpe_ratio"
  | .minimizeDrawdown => "max_drawdown_pct"
  | .maximizeReturnDrawdown => "return_drawdown_ratio"

structure AggregationConfig (F : Type) where
  initialCapital : F
  start : Timestamp
  stop : Timestamp
  mode : ObjectiveMode

/-- A series of equity by naive time. -/
abbrev EquityCurve (F : Type) := List (ℤ × F)

/-- The numerics taken from pandas and `math`: the returns of the curve resampled to days, the
deviation of a sample, none where it is not a number, and the square root. -/
structure Numerics (F : Type) where
  dailyReturns : EquityCurve F → List F
  std : List F → Option F
  sqrt : F → F

structure WalkForwardResult (F : Type) where
  windows : List (WindowResult F)
  oosEquityCurve : EquityCurve F
  oosMetrics : Dict F
  efficiency : Option F

section Aggregation

variable {F : Type} [Add F] [Sub F] [Mul F] [Div F] [IntCast F] [BEq F] [LT F] [DecidableLT F]
  [LE F] [DecidableLE F]

def zero : F := ((0 : ℤ) : F)

def one : F := ((1 : ℤ) : F)

def sum (xs : List F) : F := xs.foldl (· + ·) zero

/-- `max` keeps its first argument unless the second is greater. -/
def greater (x y : F) : F := if x < y then y else x

/-- `float(metrics.get(key, 0.0))` for the metric of the mode. -/
def resolveObjective (metrics : Dict F) (mode : ObjectiveMode) : Except Failure F :=
  match metrics.lookup mode.metric with
  | some value => value.asFloat
  | none => .ok zero

/-! ## The equity curve -/

/-- Naive and aware times cannot be compared. -/
def comparable (times : List Timestamp) : Bool :=
  times.all Timestamp.isAware || times.all (fun t => !t.isAware)

def ExecutedTrade.sortTime (trade : ExecutedTrade F) : Timestamp :=
  trade.exitTime.getD trade.entryTime

def ExecutedTrade.profit (trade : ExecutedTrade F) : F := trade.pnl.getD zero

/-- The equity after each trade that has an exit. -/
def equityPoints (equity : F) : List (ExecutedTrade F) → EquityCurve F × F
  | [] => ([], equity)
  | trade :: trades =>
    match trade.exitTime with
    | none => equityPoints equity trades
    | some exitTime =>
      let equity := equity + trade.profit
      let (points, last) := equityPoints equity trades
      ((exitTime.instant, equity) :: points, last)

/-- `series[~series.index.duplicated(keep="last")]` -/
def keepLast : EquityCurve F → EquityCurve F
  | [] => []
  | p :: points =>
    if p.1 ∈ points.map Prod.fst then keepLast points else p :: keepLast points

def buildEquityCurve (trades : List (ExecutedTrade F)) (initialCapital : F)
    (start stop : Timestamp) : Except Failure (EquityCurve F) :=
  if comparable (trades.map ExecutedTrade.sortTime) then
    let sorted := trades.mergeSort
      (fun a b => decide (a.sortTime.instant ≤ b.sortTime.instant))
    let (points, last) := equityPoints initialCapital sorted
    let series := (start.instant, initialCapital) :: points ++ [(stop.instant, last)]
    .ok ((keepLast series).mergeSort (fun p q => decide (p.1 ≤ q.1)))
  else .error .typeError

/-! ## Metrics -/

/-- The peak of the equity with the largest drawdowns so far. -/
structure Drawdown (F : Type) where
  peak : F
  maxDrawdown : F
  maxDrawdownPct : F

def Drawdown.observe (d : Drawdown F) (value : F) : Drawdown F :=
  let peak := greater d.peak value
  let drawdown := peak - value
  let drawdownPct := if zero < peak then drawdown / peak else zero
  { peak
    maxDrawdown := greater d.maxDrawdown drawdown
    maxDrawdownPct := greater d.maxDrawdownPct drawdownPct }

/-- The metrics of the stitched trades. -/
structure BaseMetrics (F : Type) where
  totalTrades : ℕ
  totalPnl : F
  maxDrawdown : F
  maxDrawdownPct : F
  winRate : F

def aggregateBaseMetrics (trades : List (ExecutedTrade F)) (initialCapital : F)
    (curve : EquityCurve F) : BaseMetrics F :=
  let drawdown := (curve.map Prod.snd).foldl Drawdown.observe ⟨initialCapital, zero, zero⟩
  let wins := trades.countP fun trade => decide (zero < trade.profit)
  { totalTrades := trades.length
    totalPnl := sum (trades.map ExecutedTrade.profit)
    maxDrawdown := drawdown.maxDrawdown
    maxDrawdownPct := drawdown.maxDrawdownPct
    winRate := if trades.isEmpty then zero
      else ((wins : ℤ) : F) / ((trades.length : ℤ) : F) }

variable (numerics : Numerics F)

def sharpeFromDailyReturns (returns : List F) : Option F :=
  if returns.length < 2 then none
  else match numerics.std returns with
    | none => none
    | some std =>
      if std == zero then none
      else some (sum returns / ((returns.length : ℤ) : F) / std *
        numerics.sqrt (((252 : ℤ) : F)))

def tradeSharpeRatio (trades : List (ExecutedTrade F)) (initialCapital backtestDays : F) : F :=
  if trades.length < 2 ∨ backtestDays ≤ zero then zero
  else
    let returns := trades.map fun trade => trade.profit / initialCapital
    match numerics.std returns with
    | none => zero
    | some std =>
      if std == zero then zero
      else sum returns / ((returns.length : ℤ) : F) / std *
        numerics.sqrt (((252 : ℤ) : F) / backtestDays)

def drawdownFloor : F := one / (((1000000000 : ℤ)) : F)

def computeExtendedMetrics (base : BaseMetrics F) (trades : List (ExecutedTrade F))
    (initialCapital : F) (curve : EquityCurve F) (backtestDays : F) : Dict F :=
  let totalReturnPct := if zero < initialCapital then base.totalPnl / initialCapital else zero
  let returnDrawdownRatio := totalReturnPct / greater base.maxDrawdownPct drawdownFloor
  let tradeSharpe := tradeSharpeRatio numerics trades initialCapital backtestDays
  let sharpe := if curve.length < 2 then none
    else sharpeFromDailyReturns numerics (numerics.dailyReturns curve)
  [ ("total_trades", .int base.totalTrades),
    ("total_pnl", .float base.totalPnl),
    ("max_drawdown", .float base.maxDrawdown),
    ("max_drawdown_pct", .float base.maxDrawdownPct),
    ("win_rate", .float base.winRate),
    ("total_return_pct", .float totalReturnPct),
    ("sharpe_ratio", .float (sharpe.getD tradeSharpe)),
    ("trade_sharpe_ratio", .float tradeSharpe),
    ("return_drawdown_ratio", .float returnDrawdownRatio) ]

def computeEfficiency (isObjectives : List F) (oosMetrics : Dict F) (mode : ObjectiveMode) :
    Except Failure (Option F) :=
  if isObjectives.isEmpty || oosMetrics.isEmpty then .ok none
  else
    let meanIs := sum isObjectives / ((isObjectives.length : ℤ) : F)
    if meanIs == zero then .ok none
    else do
      let oosObjective ← resolveObjective oosMetrics mode
      return some (oosObjective / meanIs)

/-- `max((end - start).total_seconds() / 86400, 1.0)` -/
def backtestDays (cfg : AggregationConfig F) : Except Failure F :=
  if comparable [cfg.start, cfg.stop] then
    .ok (greater (((cfg.stop.instant - cfg.start.instant : ℤ) : F) / ((86400000000 : ℤ) : F)) one)
  else .error .typeError

/-! ## The result of a run -/

/-- The trades of the completed windows, one window after another. -/
def stitchedTrades (windows : List (WindowResult F)) : List (ExecutedTrade F) :=
  (windows.filter fun w => w.status = .completed).flatMap fun w => w.oosTrades

def finalizeResult (cfg : AggregationConfig F) (windows : List (WindowResult F))
    (isObjectives : List F) : Except Failure (WalkForwardResult F) := do
  let trades := stitchedTrades windows
  let curve ← buildEquityCurve trades cfg.initialCapital cfg.start cfg.stop
  let oosMetrics ←
    if trades.isEmpty then pure []
    else do
      let days ← backtestDays cfg
      let base := aggregateBaseMetrics trades cfg.initialCapital curve
      pure (computeExtendedMetrics numerics base trades cfg.initialCapital curve days)
  let efficiency ← computeEfficiency isObjectives oosMetrics cfg.mode
  return { windows, oosEquityCurve := curve, oosMetrics, efficiency }

/-! ## One window, and the windows in sequence -/

/-- The best trial of the optimization of a window. -/
structure BestTrial (F : Type) where
  strategyParams : Dict F
  riskParams : Dict F
  managerParams : Dict F
  metrics : Dict F
  bestParams : Dict F

/-- The optimizer on the training range of a window, none where no trial was usable, and the
backtest of the best trial on its test range. -/
structure WindowEngine (F : Type) where
  optimize : DatedWindow → Except Failure (Option (BestTrial F))
  backtest : DatedWindow → BestTrial F → Except Failure (Dict F × List (ExecutedTrade F))

/-- A window that gave nothing. -/
def noResultWindow (window : DatedWindow) : WindowResult F :=
  { window with status := .noResult }

def runSingleWindow (engine : WindowEngine F) (mode : ObjectiveMode) (window : DatedWindow) :
    Except Failure (WindowResult F × Option F) := do
  match ← engine.optimize window with
  | none => return (noResultWindow window, none)
  | some trial =>
    let isObjective ← resolveObjective trial.metrics mode
    let (oosMetrics, oosTrades) ← engine.backtest window trial
    let bestParams := mergeFields
      [("strategy_params", .obj trial.strategyParams), ("risk_params", .obj trial.riskParams),
        ("manager_params", .obj trial.managerParams)] trial.bestParams
    return ({ window with
              status := .completed
              bestParams
              isMetrics := some trial.metrics
              oosMetrics := some oosMetrics
              oosTrades }, some isObjective)

/-- The loop over the windows, which ends early where the caller asks it to stop. -/
def runWindows (leaf : DatedWindow → Except Failure (WindowResult F × Option F))
    (shouldStop : DatedWindow → Bool) :
    List DatedWindow → Except Failure (List (WindowResult F × Option F))
  | [] => .ok []
  | window :: windows =>
    if shouldStop window then .ok []
    else do
      let pair ← leaf window
      let pairs ← runWindows leaf shouldStop windows
      return pair :: pairs

/-- The results and the objectives that are there, given to the aggregation. -/
def aggregatePairs (cfg : AggregationConfig F) (pairs : List (WindowResult F × Option F)) :
    Except Failure (WalkForwardResult F) :=
  finalizeResult numerics cfg (pairs.map Prod.fst) (pairs.filterMap Prod.snd)

def runSequential (cfg : AggregationConfig F) (engine : WindowEngine F)
    (shouldStop : DatedWindow → Bool) (windows : List DatedWindow) :
    Except Failure (WalkForwardResult F) := do
  let pairs ← runWindows (runSingleWindow engine cfg.mode) shouldStop windows
  aggregatePairs numerics cfg pairs

/-! ## The fanned-out run -/

/-- What the worker of a window stages: the window as one without a result where it raises. -/
def stagedPartial (engine : WindowEngine F) (mode : ObjectiveMode) (window : DatedWindow) :
    Json F :=
  match runSingleWindow engine mode window with
  | .ok (result, isObjective) => windowPartialToDict result isObjective
  | .error _ => windowPartialToDict (noResultWindow window) none

/-- The aggregation in `finalize_walkforward`, on the partial results in the order in which they
were loaded. -/
def aggregatePartials (cfg : AggregationConfig F) (partials : List (Json F)) :
    Except Failure (WalkForwardResult F) := do
  let pairs ← partials.mapM windowPartialFromDict
  let pairs := pairs.mergeSort (fun a b => decide (a.1.index ≤ b.1.index))
  aggregatePairs numerics cfg pairs

/-- The hash of partial results after workers have finished one after another. -/
def stageAll (engine : WindowEngine F) (mode : ObjectiveMode) (finished : List DatedWindow) :
    Tasks.JobKeys (Json F) :=
  finished.foldl (fun keys w => keys.stashPartial w.index (stagedPartial engine mode w)) {}

end Aggregation

end QBackend.Optimization
