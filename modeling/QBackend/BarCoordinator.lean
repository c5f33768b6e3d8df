import QBackend.StrategyEvaluator

/-!
# The bar coordinator

`BarCoordinator` of `execution/bar_coordinator.py`: consumers are grouped by stream, each stream
is fetched once from the earliest watermark of its consumers, and only completed bars are kept.
-/

namespace QBackend.Execution

structure BarStreamKey where
  symbol : String
  timeframe : String
  deriving DecidableEq, Repr

structure DeploymentBarConsumer where
  deploymentId : ℕ
  symbol : String
  timeframe : String
  lastEvaluatedClose : Option Time := none
  deriving DecidableEq, Repr

def DeploymentBarConsumer.key (c : DeploymentBarConsumer) : BarStreamKey :=
  ⟨c.symbol, c.timeframe.toUpper⟩

structure CompletedBarBatch where
  key : BarStreamKey
  frame : List Bar
  deriving DecidableEq, Repr

/-- `provider.get_ohlcv(symbol, timeframe, start, end)`. -/
abbrev OhlcvProvider := BarStreamKey → Time → Time → Except ExecutionError (List Bar)

structure BarCoordinator where
  provider : OhlcvProvider
  now : Time
  overlapBars : ℕ := 1

def isBarComplete (bar : Bar) (duration now : Time) : Bool := bar.closeTime duration ≤ now

def dropFormingBar (bars : List Bar) (duration now : Time) : List Bar :=
  match bars.getLast? with
  | none => bars
  | some last => if isBarComplete last duration now then bars else bars.dropLast

/-- The earliest watermark of the consumers that have one. -/
def earliestClose (consumers : List DeploymentBarConsumer) : Option Time :=
  (consumers.filterMap (·.lastEvaluatedClose)).min?

/-- The start of the fetch. -/
def BarCoordinator.fetchStart (c : BarCoordinator) (duration : Time) (initialWindowBars : ℕ)
    (consumers : List DeploymentBarConsumer) : Time :=
  match earliestClose consumers with
  | none => c.now - duration * initialWindowBars
  | some earliest => earliest - duration * c.overlapBars

def BarCoordinator.fetchStream (c : BarCoordinator) (initialWindowBars : ℕ) (key : BarStreamKey)
    (consumers : List DeploymentBarConsumer) : Except ExecutionError CompletedBarBatch := do
  let duration ← barDuration key.timeframe
  let raw ← c.provider key (c.fetchStart duration initialWindowBars consumers) c.now
  let frame := dropFormingBar (sortIndex raw) duration c.now
  return ⟨key, frame.filter (fun b => b.closeTime duration ≤ c.now)⟩

/-- One batch for each stream, in the order of first appearance. -/
def BarCoordinator.poll (c : BarCoordinator) (initialWindowBars : ℕ)
    (consumers : List DeploymentBarConsumer) : Except ExecutionError (List CompletedBarBatch) :=
  (consumers.map DeploymentBarConsumer.key).eraseDups.mapM (fun key =>
    c.fetchStream initialWindowBars key (consumers.filter (fun x => x.key = key)))

/-- The rows whose close is strictly after the watermark. -/
def newBarsForConsumer (batch : CompletedBarBatch) (lastEvaluatedClose : Option Time) :
    Except ExecutionError (List Bar) :=
  if batch.frame = [] then .ok []
  else do
    let duration ← barDuration batch.key.timeframe
    return batch.frame.filter (fun b => lastEvaluatedClose.all (· < b.closeTime duration))

end QBackend.Execution
