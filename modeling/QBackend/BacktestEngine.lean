import QBackend.PositionSizing

/-!
# The back-test engine

`BacktestEngine` of `backtesting/engine.py` with the registry of `backtesting/registry.py` and the
costs of `backtesting/costs.py`. Signals are derived from a closed bar and executed at the open of
the next one. The orders of the registry are written and never read, so only its trades are here.
-/

namespace QBackend.Backtesting

open Execution

/-! ## Trades and costs -/

structure TransactionCostConfig where
  costPerContract : ℚ := 0
  costBps : ℚ := 0
  perContract_nonneg : 0 ≤ costPerContract
  bps_nonneg : 0 ≤ costBps

def sideCost (costs : Option TransactionCostConfig) (price quantity pointValue : ℚ) : ℚ :=
  match costs with
  | none => 0
  | some c => quantity * c.costPerContract + c.costBps / 10000 * price * quantity * pointValue

structure TradeExit where
  time : Time
  price : ℚ
  reason : String
  pnl : ℚ
  deriving DecidableEq, Repr

/-- A trade of the registry. It is open as long as it has no exit. -/
structure RegisteredTrade extends Trade where
  commission : ℚ := 0
  exit : Option TradeExit := none
  deriving DecidableEq, Repr

namespace RegisteredTrade

def isOpen (trade : RegisteredTrade) : Bool := trade.exit.isNone

/-- `_close_trade_with_costs` on an open trade: the cost of the exit side, then the profit less all
commissions. -/
def close (trade : RegisteredTrade) (costs : Option TransactionCostConfig) (time : Time)
    (price : ℚ) (reason : String) : RegisteredTrade :=
  let commission := trade.commission + sideCost costs price trade.quantity trade.pointValue
  let gross := if trade.action = .buy
    then (price - trade.entryPrice) * trade.quantity * trade.pointValue
    else (trade.entryPrice - price) * trade.quantity * trade.pointValue
  { trade with commission, exit := some { time, price, reason, pnl := gross - commission } }

/-- The position of an open trade with its sign. -/
def signed (trade : RegisteredTrade) : ℚ :=
  if trade.action = .buy then trade.quantity else -trade.quantity

end RegisteredTrade

/-! ## The engine and its state -/

/-- The abstract class `PositionSizer`: the quantity of the order of `size_signal`, and the largest
position per symbol. -/
structure Sizer where
  sizeSignal : Signal → (price capital : ℚ) → BarRow → Option ℚ
  maxPositionSize : (price capital : ℚ) → Option ℚ
  size_pos : ∀ {signal price capital row q}, sizeSignal signal price capital row = some q → 0 < q

theorem scaled_pos {scale : Bool} {signal : Signal} {n : ℤ} {q : ℚ}
    (h : scaled scale signal n = some q) : 0 < q := by
  unfold scaled at h
  split at h
  · cases h
  next hn =>
    split at h
    · split at h
      · cases h
      next hfloor =>
        cases h
        exact_mod_cast not_le.mp hfloor
    · cases h
      exact_mod_cast not_le.mp hn

theorem sizeSignal_pos {sizer : PositionSizer} {signal : Signal} {bar : SizingBar} {capital q : ℚ}
    (h : sizer.sizeSignal signal bar capital = some q) : 0 < q := by
  unfold PositionSizer.sizeSignal at h
  split at h
  · cases h
  · cases sizer with
    | fixedQuantity s =>
      have hfloor : ∀ x : ℚ, (if ⌊x⌋ ≤ 0 then none else some ((⌊x⌋ : ℤ) : ℚ)) = some q → 0 < q := by
        intro x hx
        split at hx
        · cases hx
        next hpos =>
          cases hx
          exact_mod_cast not_le.mp hpos
      exact hfloor _ h
    | fixedSafetyMargin s => exact scaled_pos h
    | inverseVolatility s =>
      obtain ⟨n, -, hn⟩ := Option.bind_eq_some_iff.mp h
      exact scaled_pos hn

/-- Each configured sizer reads the price and the volatility of the bar that fills. -/
def sizerOf (sizer : PositionSizer) : Sizer where
  sizeSignal signal price capital row :=
    sizer.sizeSignal signal { price, volatility := row.get "volatility" } capital
  maxPositionSize := sizer.maxPositionSize
  size_pos := sizeSignal_pos

structure Engine where
  sizer : Sizer
  initialCapital : ℚ := 100000
  pointValues : List (String × ℚ) := []
  dayTrade : Bool := false
  dayTradeStartTime : String := "09:00"
  dayTradeEndTime : String := "16:00"
  dayTradeCloseTime : String := "17:00"
  costs : Option TransactionCostConfig := none
  /-- The identifiers that `uuid4` draws, no two alike. -/
  uuid : ℕ → String
  uuid_injective : uuid.Injective

structure EngineState where
  trades : List RegisteredTrade := []
  capital : ℚ
  exitState : ExitState := ExitState.empty
  pendingExits : List Signal := []
  pendingEntries : List Signal := []
  /-- How many trade identifiers were drawn. -/
  drawn : ℕ := 0

namespace EngineState

def openTrades (st : EngineState) : List Trade :=
  (st.trades.filter (·.isOpen)).map (·.toTrade)

def clearPending (st : EngineState) : EngineState :=
  { st with pendingExits := [], pendingEntries := [] }

/-- One round of the closing loops. A trade that is closed already is returned as it is, and its
profit is added to the capital once more. -/
def closeTrade (e : Engine) (time : Time) (price : ℚ) (reason : String) (st : EngineState)
    (id : String) : EngineState :=
  match st.trades.find? (fun t => t.id = id) with
  | none => st
  | some trade =>
    match trade.exit with
    | some exit => { st with capital := st.capital + exit.pnl }
    | none =>
      let closed := trade.close e.costs time price reason
      { st with
        trades := st.trades.map (fun t => if t.id = id then closed else t)
        capital := st.capital + (closed.exit.elim 0 TradeExit.pnl) }

def closeTrades (e : Engine) (time : Time) (price : ℚ) (reason : String) (ids : List String)
    (st : EngineState) : EngineState :=
  ids.foldl (closeTrade e time price reason) st

def closeAll (e : Engine) (time : Time) (price : ℚ) (reason : String) (st : EngineState) :
    EngineState :=
  closeTrades e time price reason (st.openTrades.map Trade.id) st

/-- An exit queued on the previous bar. -/
def executeExit (e : Engine) (time : Time) (price : ℚ) (st : EngineState) (signal : Signal) :
    EngineState :=
  if signal.action ≠ .close then st
  else
    closeTrades e time price ((signal.exitReason.filter (· ≠ "")).getD "SIGNAL")
      ((st.openTrades.filter (fun t => t.symbol = signal.symbol)).map Trade.id) st

/-- What the cap leaves of an order. -/
def capped (maxSize : Option ℚ) (openQty quantity : ℚ) : Option ℚ :=
  match maxSize with
  | none => some quantity
  | some m =>
    if m - openQty ≤ 0 then none
    else some (if m - openQty < quantity then m - openQty else quantity)

/-- The quantity at which an entry is filled, if it is. -/
def entryQuantity (e : Engine) (price : ℚ) (row : BarRow) (st : EngineState) (signal : Signal) :
    Option ℚ :=
  (e.sizer.sizeSignal signal price st.capital row).bind
    (capped (e.sizer.maxPositionSize price st.capital) (openQuantity st.openTrades signal.symbol))

/-- An entry queued on the previous bar. -/
def executeEntry (e : Engine) (time : Time) (price : ℚ) (row : BarRow) (st : EngineState)
    (signal : Signal) : EngineState :=
  match st.entryQuantity e price row signal with
  | none => st
  | some quantity =>
    let pointValue := (e.pointValues.lookup signal.symbol).getD 1
    { st with
      trades := st.trades ++
        [{ id := e.uuid st.drawn, symbol := signal.symbol
           action := if signal.action = .buy then .buy else .sell
           quantity, entryTime := time, entryPrice := price, pointValue
           commission := sideCost e.costs price quantity pointValue }]
      drawn := st.drawn + 1 }

def executeExits (e : Engine) (time : Time) (price : ℚ) (st : EngineState) : EngineState :=
  st.pendingExits.foldl (executeExit e time price) st

def executeEntries (e : Engine) (time : Time) (price : ℚ) (row : BarRow) (st : EngineState) :
    EngineState :=
  st.pendingEntries.foldl (executeEntry e time price row) st

end EngineState

/-! ## Closing trades

The registry is a dictionary, so that an identifier names one trade. -/

@[simp] theorem RegisteredTrade.close_id (t : RegisteredTrade) (costs : Option TransactionCostConfig)
    (time : Time) (price : ℚ) (reason : String) : (t.close costs time price reason).id = t.id := rfl

@[simp] theorem RegisteredTrade.close_isOpen (t : RegisteredTrade)
    (costs : Option TransactionCostConfig) (time : Time) (price : ℚ) (reason : String) :
    (t.close costs time price reason).isOpen = false := rfl

/-- The trade after a closing loop over the identifiers that satisfy `chosen`. -/
def closedIf (e : Engine) (time : Time) (price : ℚ) (reason : String) (chosen : String → Prop)
    [DecidablePred chosen] (t : RegisteredTrade) : RegisteredTrade :=
  if t.isOpen ∧ chosen t.id then t.close e.costs time price reason else t

namespace EngineState

def Distinct (st : EngineState) : Prop := (st.trades.map (·.id)).Nodup

section Closing

variable {e : Engine} {time : Time} {price : ℚ} {reason : String} {st : EngineState}

@[simp] theorem closedIf_id (chosen : String → Prop) [DecidablePred chosen] (t : RegisteredTrade) :
    (closedIf e time price reason chosen t).id = t.id := by
  unfold closedIf
  split <;> rfl

theorem closeTrade_trades (h : st.Distinct) (id : String) :
    (st.closeTrade e time price reason id).trades =
      st.trades.map (closedIf e time price reason (· = id)) := by
  have hunique : ∀ t ∈ st.trades, ∀ u ∈ st.trades, t.id = u.id → t = u :=
    fun t ht u hu hid => List.inj_on_of_nodup_map h ht hu hid
  have hkeep : (∀ t ∈ st.trades, t.id = id → t.isOpen = false) →
      st.trades = st.trades.map (closedIf e time price reason (· = id)) := by
    intro hclosed
    refine (List.map_id' st.trades).symm.trans (List.map_congr_left fun t ht => ?_)
    unfold closedIf
    rw [if_neg fun hc => by simp [hclosed t ht hc.2] at hc]
  unfold closeTrade
  split
  next hnone =>
    refine hkeep fun t ht hid => ?_
    have hfind := List.find?_eq_none.mp hnone t ht
    simp [hid] at hfind
  next trade hfind =>
    have hmem : trade ∈ st.trades := List.mem_of_find?_eq_some hfind
    have hid : trade.id = id := by simpa using List.find?_some hfind
    split
    next exit hexit =>
      refine hkeep fun t ht htid => ?_
      rw [hunique t ht trade hmem (htid.trans hid.symm)]
      simp [RegisteredTrade.isOpen, hexit]
    next hexit =>
      refine List.map_congr_left fun t ht => ?_
      unfold closedIf
      by_cases htid : t.id = id
      · have ht' : t = trade := hunique t ht trade hmem (htid.trans hid.symm)
        subst ht'
        rw [if_pos htid, if_pos ⟨by simp [RegisteredTrade.isOpen, hexit], htid⟩]
      · rw [if_neg htid, if_neg fun hc => htid hc.2]

theorem Distinct.closeTrade (h : st.Distinct) (id : String) :
    (st.closeTrade e time price reason id).Distinct := by
  show (List.map _ _).Nodup
  rw [closeTrade_trades h, List.map_map]
  simpa [Function.comp_def] using show (st.trades.map (·.id)).Nodup from h

/-- A closing loop closes the open trades among its identifiers. -/
theorem closeTrades_trades (h : st.Distinct) (ids : List String) :
    (st.closeTrades e time price reason ids).trades =
      st.trades.map (closedIf e time price reason (· ∈ ids)) := by
  induction ids generalizing st with
  | nil =>
    refine (List.map_id' st.trades).symm.trans (List.map_congr_left fun t _ => ?_)
    simp [closedIf]
  | cons id rest ih =>
    have hstep : ((st.closeTrade e time price reason id).closeTrades e time price reason rest).trades =
        _ := ih (h.closeTrade id)
    rw [show st.closeTrades e time price reason (id :: rest) =
      (st.closeTrade e time price reason id).closeTrades e time price reason rest from rfl,
      hstep, closeTrade_trades h, List.map_map]
    refine List.map_congr_left fun t _ => ?_
    by_cases hopen : t.isOpen = true <;> by_cases hid : t.id = id <;>
      simp [closedIf, hopen, hid]

theorem Distinct.closeTrades (h : st.Distinct) (ids : List String) :
    (st.closeTrades e time price reason ids).Distinct := by
  show (List.map _ _).Nodup
  rw [closeTrades_trades h, List.map_map]
  simpa [Function.comp_def] using show (st.trades.map (·.id)).Nodup from h

theorem closeTrades_pendingEntries (ids : List String) (st : EngineState) :
    (st.closeTrades e time price reason ids).pendingEntries = st.pendingEntries := by
  induction ids generalizing st with
  | nil => rfl
  | cons id rest ih =>
    refine (ih _).trans ?_
    unfold closeTrade
    split
    · rfl
    · split <;> rfl

theorem executeExits_pendingEntries (st : EngineState) :
    (st.executeExits e time price).pendingEntries = st.pendingEntries := by
  unfold executeExits
  generalize st.pendingExits = signals
  induction signals generalizing st with
  | nil => rfl
  | cons signal rest ih =>
    refine (ih _).trans ?_
    unfold executeExit
    split
    · rfl
    · exact closeTrades_pendingEntries _ st

end Closing

end EngineState

/-! ## One bar -/

/-- Whole microseconds since midnight, and the day. -/
def timeOfDay (bar : Bar) : Time := bar.openTime % 86400000000

def date (bar : Bar) : ℤ := bar.openTime / 86400000000

structure DayTradeTimes where
  start : Time
  stop : Time
  close : Time
  deriving DecidableEq, Repr

def parseTime (text : String) : Option Time :=
  match text.splitOn ":" with
  | hour :: minute :: _ => do
    let h ← hour.toNat?
    let m ← minute.toNat?
    if h < 24 ∧ m < 60 then some ((h * 60 + m) * 60000000) else none
  | _ => none

/-- The time boundaries, parsed only when day trading is active. -/
def Engine.times (e : Engine) : Except ExecutionError (Option DayTradeTimes) :=
  if e.dayTrade then
    match parseTime e.dayTradeStartTime, parseTime e.dayTradeEndTime,
        parseTime e.dayTradeCloseTime with
    | some start, some stop, some close => .ok (some { start, stop, close })
    | _, _, _ => .error (.external ("Invalid day trade time config (start=" ++
        e.dayTradeStartTime ++ ", end=" ++ e.dayTradeEndTime ++ ", close=" ++
        e.dayTradeCloseTime ++ "). Must be HH:MM format."))
  else .ok none

section Loop

variable {S : Type} (e : Engine) (strategy : TradingStrategy S) (s : S)

/-- Section D: the exits and, when they are allowed, the entries for the next bar. -/
def queueSignals (row : BarRow) (entriesAllowed : Bool) (st : EngineState) :
    Except ExecutionError EngineState := do
  let (exitState, exits) := checkExits strategy.exitParams st.openTrades row st.exitState
  let closedSymbols := exits.map Signal.symbol
  let strategyExits ← strategy.checkExitConditions s row
    (st.openTrades.filter (fun t => t.symbol ∉ closedSymbols))
  let entries ← (if entriesAllowed then strategy.checkEntryConditions s row else .ok [] :
    Except ExecutionError (List Signal))
  return { st with exitState, pendingExits := exits ++ strategyExits, pendingEntries := entries }

/-- The body of the loop. On the last bar of a day, day trading queues nothing and ends flat. -/
def stepBar (times : Option DayTradeTimes) (tradeStart : Option Time) (lastOfDay : Bool)
    (row : BarRow) (st : EngineState) : Except ExecutionError EngineState :=
  let time := row.bar.openTime
  let fillPrice := row.bar.open_
  if tradeStart.any (time < ·) then .ok st
  else
    match times with
    | none =>
      queueSignals strategy s row true
        ((st.executeExits e time fillPrice).executeEntries e time fillPrice row)
    | some t =>
      if t.close ≤ timeOfDay row.bar then
        .ok (st.closeAll e time fillPrice "END_OF_DAY").clearPending
      else
        let st := (st.executeExits e time fillPrice).executeEntries e time fillPrice row
        if lastOfDay then .ok (st.closeAll e time row.bar.close "END_OF_DAY").clearPending
        else
          queueSignals strategy s row
            (t.start ≤ timeOfDay row.bar ∧ timeOfDay row.bar ≤ t.stop) st

def isLastOfDay (row : BarRow) (rest : List BarRow) : Bool :=
  match rest with
  | [] => true
  | next :: _ => date next.bar ≠ date row.bar

def runRows (times : Option DayTradeTimes) (tradeStart : Option Time) :
    List BarRow → EngineState → Except ExecutionError EngineState
  | [], st => .ok st
  | row :: rest, st => do
    let st ← stepBar e strategy s times tradeStart (isLastOfDay row rest) row st
    runRows times tradeStart rest st

end Loop

/-! ## Whole runs -/

inductive ParallelMode where
  | sequential | dayTrade
  deriving DecidableEq, Repr

/-- What the chunks of one run hand on: the strategy object, the state of its exit rules and the
number of identifiers drawn. -/
structure Session (S : Type) where
  strategy : S
  exitState : ExitState := ExitState.empty
  drawn : ℕ := 0

section Run

variable {S : Type} (e : Engine) (strategy : TradingStrategy S)

/-- The forced close at the end of a chunk. -/
def forceClose (bars : List Bar) (st : EngineState) : EngineState :=
  match bars.getLast? with
  | none => st
  | some bar => st.closeAll e bar.openTime bar.close "FORCE_CLOSE"

def runSingleChunk (tradeStart : Option Time) (forceCloseAtEnd : Bool) (bars : List Bar)
    (session : Session S) : Except ExecutionError (List RegisteredTrade × Session S) := do
  let (s, chunk) := augmentIndicatorFrame strategy session.strategy bars
  let frame ← chunk
  let times ← e.times
  let st ← runRows e strategy s times tradeStart frame.rows
    { capital := e.initialCapital, exitState := session.exitState, drawn := session.drawn }
  let st := if forceCloseAtEnd then forceClose e frame.bars st else st
  return (st.trades, { strategy := s, exitState := st.exitState, drawn := st.drawn })

/-- `TradeRegistry.merge`. -/
def mergeTrades (master other : List RegisteredTrade) : List RegisteredTrade :=
  other.foldl (fun trades t =>
    if trades.any (·.id = t.id) then trades.map (fun u => if u.id = t.id then t else u)
    else trades ++ [t]) master

/-- The dates of the bars, sorted. -/
def tradingDays (bars : List Bar) : List ℤ := (bars.map date).dedup.insertionSort (· ≤ ·)

/-- `data.groupby(data.index.date)`. -/
def dailyChunks (bars : List Bar) : List (List Bar) :=
  (tradingDays bars).map (fun d => bars.filter (fun b => date b = d))

def runChunk (tradeStart : Option Time) (acc : List RegisteredTrade × Session S)
    (chunk : List Bar) : Except ExecutionError (List RegisteredTrade × Session S) := do
  let (trades, session) ← runSingleChunk e strategy tradeStart true chunk acc.2
  return (mergeTrades acc.1 trades, session)

/-- `BacktestEngine.run`, as the trades of the registry. -/
def run (mode : ParallelMode) (tradeStart : Option Time) (s : S) (bars : List Bar) :
    Except ExecutionError (List RegisteredTrade) :=
  if bars = [] then .ok []
  else
    match mode with
    | .dayTrade => do
      let acc ← (dailyChunks bars).foldlM (runChunk e strategy tradeStart) ([], { strategy := s })
      return acc.1
    | .sequential => do
      let result ← runSingleChunk e strategy tradeStart false bars { strategy := s }
      return result.1

end Run

/-! ## An engine that trades one contract -/

/-- Identifiers of growing length. -/
def drawId (n : ℕ) : String := String.ofList (List.replicate n 'x')

theorem drawId_injective : drawId.Injective := by
  intro m n h
  have hlist : List.replicate m 'x' = List.replicate n 'x' := by
    simpa [drawId] using congrArg String.toList h
  simpa using congrArg List.length hlist

def unitEngine : Engine where
  sizer := sizerOf (.fixedQuantity { quantity := 1, quantity_pos := by decide })
  uuid := drawId
  uuid_injective := drawId_injective

end QBackend.Backtesting
