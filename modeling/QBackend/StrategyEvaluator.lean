import QBackend.ExitRules
import QBackend.ExecutionDatabase
import Mathlib.Data.List.Sort
import Mathlib.Algebra.Order.Group.Abs

/-!
# The closed-bar strategy evaluator

`StrategyEvaluator` of `execution/evaluator.py` with the frame helpers of `execution/bars.py`, the
indicator completion of `execution/indicator_frame.py` and the signal queue of
`execution/signal_eval.py`. An evaluator is a mutable object: an evaluation that raises keeps what
it changed before, so every method returns the object beside its result.
-/

namespace QBackend.Execution

/-! ## Frames of bars -/

def tfMinutes : String → Option ℕ
  | "M1" => some 1
  | "M5" => some 5
  | "M15" => some 15
  | "H1" => some 60
  | "D1" => some 1440
  | _ => none

def barDuration (timeframe : String) : Except ExecutionError Time :=
  match tfMinutes timeframe.toUpper with
  | none => .error (.external ("Unsupported timeframe '" ++ timeframe ++ "'"))
  | some minutes => .ok (minutes * 60000000)

def Bar.closeTime (bar : Bar) (duration : Time) : Time := bar.openTime + duration

/-- `sort_index`. -/
def sortIndex (bars : List Bar) : List Bar :=
  bars.insertionSort (fun a b => a.openTime ≤ b.openTime)

theorem mem_sortIndex {bars : List Bar} {b : Bar} : b ∈ sortIndex bars ↔ b ∈ bars :=
  List.mem_insertionSort _

/-- `frame[~frame.index.duplicated(keep="last")]`. -/
def keepLast : List Bar → List Bar
  | [] => []
  | bar :: rest =>
    if bar.openTime ∈ rest.map Bar.openTime then keepLast rest else bar :: keepLast rest

def trimRollingWindow (bars : List Bar) (maxBars : ℕ) : List Bar :=
  if maxBars = 0 ∨ bars.length ≤ maxBars then bars else bars.drop (bars.length - maxBars)

/-- The rolling window after a new frame was merged into it. -/
def mergeWindow (rolling ordered : List Bar) (maxBars : ℕ) : List Bar :=
  trimRollingWindow (sortIndex (keepLast (rolling ++ ordered))) maxBars

/-! ## Indicator frames -/

/-- Bars with named columns of the same length. -/
structure IndicatorFrame where
  bars : List Bar
  columns : List (String × List (Option ℚ)) := []
  deriving DecidableEq, Repr

namespace IndicatorFrame

def hasColumn (frame : IndicatorFrame) (name : String) : Bool := name ∈ frame.columns.map (·.1)

def setColumn (frame : IndicatorFrame) (name : String) (values : List (Option ℚ)) :
    IndicatorFrame :=
  { frame with columns := frame.columns.filter (fun c => c.1 ≠ name) ++ [(name, values)] }

def row (frame : IndicatorFrame) (bar : Bar) (i : ℕ) : BarRow :=
  { bar, columns := frame.columns.map (fun c => (c.1, c.2[i]?.join)) }

def rows (frame : IndicatorFrame) : List BarRow := frame.bars.mapIdx (fun i bar => frame.row bar i)

/-- `frame.loc[open_time]`, the last such row when there are several. -/
def loc (frame : IndicatorFrame) (openTime : Time) : Option BarRow :=
  (frame.rows.filter (fun r => r.bar.openTime = openTime)).getLast?

end IndicatorFrame

/-- True ranges; the first bar has no previous close. -/
def trueRanges : Option ℚ → List Bar → List ℚ
  | _, [] => []
  | none, bar :: rest => (bar.high - bar.low) :: trueRanges (some bar.close) rest
  | some prevClose, bar :: rest =>
    max (max (bar.high - bar.low) |bar.high - prevClose|) |bar.low - prevClose| ::
      trueRanges (some bar.close) rest

/-- `ewm(alpha, adjust=False).mean()` after the value `prev`. -/
def ewmMean (alpha : ℚ) : Option ℚ → List ℚ → List ℚ
  | _, [] => []
  | none, x :: rest => x :: ewmMean alpha (some x) rest
  | some prev, x :: rest =>
    ((1 - alpha) * prev + alpha * x) :: ewmMean alpha (some ((1 - alpha) * prev + alpha * x)) rest

def computeAtr (bars : List Bar) (period : ℕ) : List (Option ℚ) :=
  (ewmMean (1 / period) none (trueRanges none bars)).mapIdx
    (fun i atr => if period ≤ i + 1 then some atr else none)

/-- `rolling(period).max().shift(1)`, or `min`, given by `pick`. -/
def rollingShifted (pick : ℚ → ℚ → ℚ) (values : List ℚ) (period : ℕ) : List (Option ℚ) :=
  (List.range values.length).map (fun i =>
    if period ≤ i then
      match (values.drop (i - period)).take period with
      | [] => none
      | x :: rest => some (rest.foldl pick x)
    else none)

def addAtr (frame : IndicatorFrame) (period : ℤ) : Except ExecutionError IndicatorFrame :=
  if period = 0 then .error .divisionByZero
  else if period < 0 then .error (.external "alpha must satisfy: 0 < alpha <= 1")
  else .ok (frame.setColumn (ExitColumn.atr period).name (computeAtr frame.bars period.toNat))

def addDonchian (frame : IndicatorFrame) (period : ℤ) : IndicatorFrame :=
  let high := ExitColumn.donchianHigh period
  let low := ExitColumn.donchianLow period
  if frame.hasColumn high.name ∧ frame.hasColumn low.name then frame
  else
    (frame.setColumn high.name (rollingShifted max (frame.bars.map Bar.high) period.toNat)).setColumn
      low.name (rollingShifted min (frame.bars.map Bar.low) period.toNat)

/-- The columns that the exit rules need and the strategy did not compute. -/
def completeColumns (p : ExitParams) (frame : IndicatorFrame) :
    Except ExecutionError IndicatorFrame := do
  let missing := (requiredColumns p).filter (fun c => !frame.hasColumn c.name)
  let frame ← missing.foldlM (fun f c =>
    match c with
    | .atr period => addAtr f period
    | _ => .ok f) frame
  let periods := (missing.filterMap (fun c =>
    match c with
    | .atr _ => none
    | .donchianHigh period => some period
    | .donchianLow period => some period)).eraseDups
  return periods.foldl addDonchian frame

/-! ## Strategies -/

/-- A strategy object with states `S`. `compute_indicators` may change the object, also when it
raises; the two checks read it. -/
structure TradingStrategy (S : Type) where
  computeIndicators : S → List Bar → S × Except ExecutionError IndicatorFrame
  checkEntryConditions : S → BarRow → Except ExecutionError (List Signal)
  checkExitConditions : S → BarRow → List Trade → Except ExecutionError (List Signal)
  exitParams : ExitParams := {}
  /-- `sizer.size_signal` on the first entry signal; the quantity of the order, if any. -/
  sizeSignal : Signal → BarRow → Except ExecutionError (Option ℚ)

variable {S : Type}

/-- The mutable part of an evaluator. -/
structure Evaluator (S : Type) where
  symbol : String
  timeframe : String
  windowBound : ℕ
  strategy : S
  exitState : ExitState := ExitState.empty
  rolling : List Bar := []
  openTrade : Option Trade := none
  lastEvaluatedClose : Option Time := none
  replayMode : Bool := false

def augmentIndicatorFrame (strategy : TradingStrategy S) (s : S) (bars : List Bar) :
    S × Except ExecutionError IndicatorFrame :=
  let (s, chunk) := strategy.computeIndicators s bars
  (s, chunk.bind (completeColumns strategy.exitParams))

/-- Exit rules first, then the strategy's exits for symbols not yet covered, then its entries. -/
def evaluateQueuedSignals (strategy : TradingStrategy S) (s : S) (exitState : ExitState)
    (row : BarRow) (openTrades : List Trade) :
    ExitState × Except ExecutionError (List Signal × List Signal) :=
  let (exitState, exits) := checkExits strategy.exitParams openTrades row exitState
  let closedSymbols := exits.map Signal.symbol
  (exitState, do
    let strategyExits ← strategy.checkExitConditions s row
      (openTrades.filter (fun t => t.symbol ∉ closedSymbols))
    let entries ← strategy.checkEntryConditions s row
    return (exits ++ strategyExits, entries))

def domainActionFromQueued (pendingExits pendingEntries : List Signal) :
    SignalAction × Option String :=
  match pendingExits with
  | first :: _ => (.close, some ((first.exitReason.filter (· ≠ "")).getD "exit_rule"))
  | [] =>
    match pendingEntries.find? (fun s => s.action = .buy ∨ s.action = .sell) with
    | some signal => (signal.action, some "entry")
    | none => (.hold, none)

def requestedQuantity (strategy : TradingStrategy S) (action : SignalAction)
    (pendingEntries : List Signal) (row : BarRow) : Except ExecutionError (Option ℚ) :=
  match pendingEntries with
  | entry :: _ => if action = .buy ∨ action = .sell then strategy.sizeSignal entry row else .ok none
  | [] => .ok none

namespace Evaluator

def seedWindow (ev : Evaluator S) (frame : List Bar) : Evaluator S :=
  { ev with rolling := trimRollingWindow (sortIndex frame) ev.windowBound }

def setOpenTrade (ev : Evaluator S) (trade : Option Trade) : Evaluator S :=
  { ev with openTrade := trade }

/-- `_evaluate_row`. The watermark moves last. -/
def evaluateRow (strategy : TradingStrategy S) (ev : Evaluator S) (row : BarRow)
    (barCloseTime : Time) : Evaluator S × Except ExecutionError ForwardDecisionResult :=
  let duplicate := !ev.replayMode && ev.lastEvaluatedClose = some barCloseTime
  let (exitState, queued) := evaluateQueuedSignals strategy ev.strategy ev.exitState row
    ev.openTrade.toList
  let ev := { ev with exitState }
  let sized := do
    let (exits, entries) ← queued
    let (signalAction, reason) := domainActionFromQueued exits entries
    let quantity ← requestedQuantity strategy signalAction entries row
    return { barCloseTime, barClosePrice := row.bar.close, signalAction, reason
             requestedQuantity := quantity, queuedExitSignals := exits
             queuedEntrySignals := entries, replay := ev.replayMode
             skippedDuplicate := duplicate : ForwardDecisionResult }
  match sized with
  | .error e => (ev, .error e)
  | .ok result =>
    (if !ev.replayMode && !duplicate then { ev with lastEvaluatedClose := some barCloseTime }
      else ev, .ok result)

/-- The loop of `ingest_completed_bars`; the window is merged. -/
def evaluateBars (strategy : TradingStrategy S) (duration : Time) (throughClose : Option Time) :
    List Bar → Evaluator S → Evaluator S × Except ExecutionError (List ForwardDecisionResult)
  | [], ev => (ev, .ok [])
  | bar :: rest, ev =>
    let closeTime := bar.closeTime duration
    if throughClose.any (· < closeTime) then (ev, .ok [])
    else if ev.lastEvaluatedClose.any (closeTime < ·) then
      evaluateBars strategy duration throughClose rest ev
    else
      let (s, augmented) := augmentIndicatorFrame strategy ev.strategy ev.rolling
      let ev := { ev with strategy := s }
      match augmented with
      | .error e => (ev, .error e)
      | .ok frame =>
        match frame.loc bar.openTime with
        | none => evaluateBars strategy duration throughClose rest ev
        | some row =>
          match evaluateRow strategy ev row closeTime with
          | (ev, .error e) => (ev, .error e)
          | (ev, .ok result) =>
            let (ev, results) := evaluateBars strategy duration throughClose rest ev
            (ev, results.map (result :: ·))

def ingestCompletedBars (strategy : TradingStrategy S) (ev : Evaluator S) (frame : List Bar)
    (throughClose : Option Time := none) :
    Evaluator S × Except ExecutionError (List ForwardDecisionResult) :=
  if frame = [] then (ev, .ok [])
  else
    let ordered := sortIndex frame
    let ev := { ev with rolling := mergeWindow ev.rolling ordered ev.windowBound }
    match barDuration ev.timeframe with
    | .error e => (ev, .error e)
    | .ok duration => evaluateBars strategy duration throughClose ordered ev

/-- Stateful exit state is rebuilt without decisions; the mode is left in any case. -/
def replayRecovery (strategy : TradingStrategy S) (ev : Evaluator S) (frame : List Bar)
    (endClose : Option Time) : Evaluator S × Except ExecutionError (List ForwardDecisionResult) :=
  let (ev, results) := ingestCompletedBars strategy { ev with replayMode := true } frame endClose
  ({ ev with replayMode := false }, results)

end Evaluator

/-! ## The position view -/

/-- `execution_position_to_trade`. -/
def executionPositionToTrade (deployment : ExecutionDeployment) (position : ExecutionNetPosition)
    (pointValue : ℚ) : Except ExecutionError (Option Trade) :=
  if position.side = .flat ∨ position.quantity ≤ 0 then .ok none
  else
    match position.averageEntryPrice, position.openedAt with
    | some entryPrice, some entryTime => .ok (some
        { id := "exec-" ++ toString deployment.id, symbol := deployment.symbol
          action := if position.side = .long then .buy else .sell
          quantity := position.quantity, entryTime, entryPrice, pointValue })
    | _, _ => .error (.external "open execution position requires entry price and opened_at")

end QBackend.Execution
