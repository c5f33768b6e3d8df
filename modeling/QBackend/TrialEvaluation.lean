import QBackend.EnginePrefix
import QBackend.WalkForwardAggregation

/-!
# Trials, in the study's own process and in a worker

`OptimizationRunner._objective` and the pair of `_run_backtest_worker` and `_tell_worker_result` of
`optimization/runner.py`. Both end in what the study records of the trial. A back-test is given by
its settings and the engine's mode; the default runner builds it from the engine and the metrics of
the registry.
-/

namespace QBackend.Optimization

open Backtesting Execution JsonValues

/-! ## The metrics of a registry -/

/-- What the metrics read of a closed trade. -/
structure ClosedTrade where
  exitTime : Time
  pnl : ℚ
  commission : ℚ

def closedTrades (trades : List RegisteredTrade) : List ClosedTrade :=
  trades.filterMap fun t => t.exit.map fun x => ⟨x.time, x.pnl, t.commission⟩

/-- The streaks of wins and losses, current and longest. -/
structure Streaks where
  wins : ℕ := 0
  losses : ℕ := 0
  maxWins : ℕ := 0
  maxLosses : ℕ := 0

def Streaks.observe (s : Streaks) (trade : ClosedTrade) : Streaks :=
  if 0 < trade.pnl then
    { s with wins := s.wins + 1, losses := 0, maxWins := max s.maxWins (s.wins + 1) }
  else
    { s with losses := s.losses + 1, wins := 0, maxLosses := max s.maxLosses (s.losses + 1) }

/-- The objective of a study, which may be two metrics. -/
inductive StudyObjective where
  | single (mode : ObjectiveMode)
  | returnAndDrawdown
  deriving DecidableEq, Repr

inductive Score where
  | finite (x : ℚ)
  | negInf
  | posInf
  deriving DecidableEq, Repr

def floatMetricOr (metrics : Dict ℚ) (key : String) : Except JsonValues.Failure ℚ :=
  match metrics.lookup key with
  | some value => value.asFloat
  | none => .ok 0

def StudyObjective.resolve (metrics : Dict ℚ) : StudyObjective → Except JsonValues.Failure (List Score)
  | .single mode => do
    let x ← resolveObjective metrics mode
    return [.finite x]
  | .returnAndDrawdown => do
    let totalReturn ← floatMetricOr metrics "total_return_pct"
    let drawdown ← floatMetricOr metrics "max_drawdown_pct"
    return [.finite totalReturn, .finite drawdown]

def StudyObjective.worst : StudyObjective → List Score
  | .single .minimizeDrawdown => [.posInf]
  | .single .maximizeNetProfit | .single .maximizeSharpe | .single .maximizeReturnDrawdown =>
    [.negInf]
  | .returnAndDrawdown => [.negInf, .posInf]

structure StudyConfig where
  objective : StudyObjective
  continueOnTrialError : Bool

structure TrialParams where
  strategyParams : Dict ℚ
  riskParams : Dict ℚ
  managerParams : Dict ℚ

inductive BacktestWorkerResult where
  | complete (metrics : Dict ℚ)
  | pruned (error : String)
  | error (error : String)

section Agreement

variable {study : StudyConfig} {params : TrialParams}

/-- The exception reaches no one who records it: an unexpected one where the study does not go on
after errors, or that of an objective that is no number. -/
def Unrecorded (study : StudyConfig) : BacktestWorkerResult → Prop
  | .pruned _ => False
  | .error _ => study.continueOnTrialError = false
  | .complete metrics => ∀ values, study.objective.resolve metrics ≠ .ok values

end Agreement

/-! ## A position that is held overnight -/

end QBackend.Optimization
