import QBackend.ExecutionDomain
import Mathlib.Algebra.Order.Ring.Rat

/-!
# Exit rules

The rules of `backtesting/exit_rules` and the loop of `ExitStrategy.check_exits` over them.
Prices are exact rationals, and a missing or NaN column entry is `none`.
-/

namespace QBackend.Execution

/-! ## Bars, rows and trades -/

/-- A completed bar, indexed by its open time. -/
structure Bar where
  openTime : Time
  open_ : ℚ
  high : ℚ
  low : ℚ
  close : ℚ
  volume : ℚ := 0
  deriving DecidableEq, Repr

/-- A row of an indicator frame. -/
structure BarRow where
  bar : Bar
  columns : List (String × Option ℚ) := []
  deriving DecidableEq, Repr

/-- `data.get(name, None)`, with NaN read as missing. -/
def BarRow.get (row : BarRow) (name : String) : Option ℚ :=
  (row.columns.find? (fun c => c.1 = name)).bind (·.2)

/-- The view of a position that strategies and exit rules receive. -/
structure Trade where
  id : String
  symbol : String
  action : ExecutionSide
  quantity : ℚ
  entryTime : Time
  entryPrice : ℚ
  pointValue : ℚ := 1
  deriving DecidableEq, Repr

def Trade.isLong (trade : Trade) : Bool := trade.action = .buy

/-! ## Parameters, columns and states -/

/-- The exit parameters with the defaults of the rules. A rule is off at its default. -/
structure ExitParams where
  stopLossPct : ℚ := 0
  stopLossAtr : ℚ := 0
  takeProfitPct : ℚ := 0
  takeProfitAtr : ℚ := 0
  trailingStopPct : ℚ := 0
  chandelierAtrMult : ℚ := 0
  breakevenTriggerPct : ℚ := 0
  breakevenOffsetPct : ℚ := 0
  psarAfStart : ℚ := 0
  psarAfStep : ℚ := 1 / 50
  psarAfMax : ℚ := 1 / 5
  targetRatchetAtr : ℚ := 0
  maxBarsInTrade : ℤ := 0
  donchianExitPeriod : ℤ := 0
  atrPeriod : ℤ := 14
  deriving DecidableEq, Repr

/-- The indicator columns that exit rules read. -/
inductive ExitColumn where
  | atr (period : ℤ)
  | donchianHigh (period : ℤ)
  | donchianLow (period : ℤ)
  deriving DecidableEq, Repr

def ExitColumn.name : ExitColumn → String
  | .atr period => "atr_" ++ toString period
  | .donchianHigh period => "donchian_high_" ++ toString period
  | .donchianLow period => "donchian_low_" ++ toString period

structure PsarState where
  sar : ℚ
  ep : ℚ
  af : ℚ
  priorLow : Option ℚ := none
  priorPriorLow : Option ℚ := none
  priorHigh : Option ℚ := none
  priorPriorHigh : Option ℚ := none
  deriving DecidableEq, Repr

/-- The dictionary a rule keeps for one trade. No two rules share one. -/
structure RuleState where
  extreme : Option ℚ := none
  peak : Option ℚ := none
  armed : Bool := false
  ratchet : Option ℚ := none
  psar : Option PsarState := none
  bars : ℤ := 0
  deriving DecidableEq, Repr

inductive ExitRuleId where
  | fixedSl | atrSl | fixedTp | atrTp | trailing | chandelier | breakeven | psar
  | profitTargetRatchet | timeStop | donchianStop
  deriving DecidableEq, Repr

def ExitRuleId.value : ExitRuleId → String
  | .fixedSl => "fixed_sl"
  | .atrSl => "atr_sl"
  | .fixedTp => "fixed_tp"
  | .atrTp => "atr_tp"
  | .trailing => "trailing"
  | .chandelier => "chandelier"
  | .breakeven => "breakeven"
  | .psar => "psar"
  | .profitTargetRatchet => "profit_target_ratchet"
  | .timeStop => "time_stop"
  | .donchianStop => "donchian_stop"

/-- `EXIT_RULES`, in the order of the registry. -/
def exitRules : List ExitRuleId :=
  [.fixedSl, .atrSl, .fixedTp, .atrTp, .trailing, .chandelier, .breakeven, .psar,
    .profitTargetRatchet, .timeStop, .donchianStop]

/-! ## The rules -/

section Rules

variable (p : ExitParams) (trade : Trade) (row : BarRow)

/-- The bar reached a stop, below a long and above a short. -/
def hitsStop (long short : ℚ) : Bool :=
  if trade.isLong then row.bar.low ≤ long else short ≤ row.bar.high

/-- The bar reached a target, above a long and below a short. -/
def hitsTarget (long short : ℚ) : Bool :=
  if trade.isLong then long ≤ row.bar.high else row.bar.low ≤ short

/-- Floating-point `move / entry >= trigger`; at entry zero the quotient is an infinity or NaN. -/
def gainReaches (move entry trigger : ℚ) : Bool :=
  if entry = 0 then 0 < move else trigger ≤ move / entry

def ExitRuleId.isEnabled : ExitRuleId → Bool
  | .fixedSl => 0 < p.stopLossPct
  | .atrSl => 0 < p.stopLossAtr
  | .fixedTp => 0 < p.takeProfitPct
  | .atrTp => 0 < p.takeProfitAtr
  | .trailing => 0 < p.trailingStopPct
  | .chandelier => 0 < p.chandelierAtrMult
  | .breakeven => 0 < p.breakevenTriggerPct
  | .psar => 0 < p.psarAfStart
  | .profitTargetRatchet => 0 < p.targetRatchetAtr
  | .timeStop => 0 < p.maxBarsInTrade
  | .donchianStop => 0 < p.donchianExitPeriod

def ExitRuleId.requiredColumns (rule : ExitRuleId) : List ExitColumn :=
  if rule.isEnabled p then
    match rule with
    | .atrSl | .atrTp | .chandelier | .profitTargetRatchet => [.atr p.atrPeriod]
    | .donchianStop => [.donchianHigh p.donchianExitPeriod, .donchianLow p.donchianExitPeriod]
    | _ => []
  else []

def clampPsarLong (sar : ℚ) (priorLow priorPriorLow : Option ℚ) : ℚ :=
  let clamped := priorLow.elim sar (min sar)
  priorPriorLow.elim clamped (min clamped)

def clampPsarShort (sar : ℚ) (priorHigh priorPriorHigh : Option ℚ) : ℚ :=
  let clamped := priorHigh.elim sar (max sar)
  priorPriorHigh.elim clamped (max clamped)

def updatePsarLong : Option PsarState → PsarState
  | none =>
    { sar := min trade.entryPrice row.bar.low, ep := max trade.entryPrice row.bar.high
      af := p.psarAfStart, priorLow := some row.bar.low }
  | some s =>
    { s with
      sar := clampPsarLong (s.sar + s.af * (s.ep - s.sar)) s.priorLow s.priorPriorLow
      ep := if s.ep < row.bar.high then row.bar.high else s.ep
      af := if s.ep < row.bar.high then min (s.af + p.psarAfStep) p.psarAfMax else s.af
      priorPriorLow := s.priorLow
      priorLow := some row.bar.low }

def updatePsarShort : Option PsarState → PsarState
  | none =>
    { sar := max trade.entryPrice row.bar.high, ep := min trade.entryPrice row.bar.low
      af := p.psarAfStart, priorHigh := some row.bar.high }
  | some s =>
    { s with
      sar := clampPsarShort (s.sar + s.af * (s.ep - s.sar)) s.priorHigh s.priorPriorHigh
      ep := if row.bar.low < s.ep then row.bar.low else s.ep
      af := if row.bar.low < s.ep then min (s.af + p.psarAfStep) p.psarAfMax else s.af
      priorPriorHigh := s.priorHigh
      priorHigh := some row.bar.high }

/-- The `on_bar` of the ratchet, once its column is there. -/
def updateRatchet (atr : ℚ) (s : RuleState) : RuleState :=
  let distance := p.targetRatchetAtr * atr
  if trade.isLong then
    if !s.armed && trade.entryPrice + distance ≤ row.bar.high then
      { s with armed := true, ratchet := some (row.bar.high - distance) }
    else if s.armed then
      { s with ratchet := s.ratchet.map (max · (row.bar.high - distance)) }
    else s
  else
    if !s.armed && row.bar.low ≤ trade.entryPrice - distance then
      { s with armed := true, ratchet := some (row.bar.low + distance) }
    else if s.armed then
      { s with ratchet := s.ratchet.map (min · (row.bar.low + distance)) }
    else s

def ExitRuleId.onBar (s : RuleState) : ExitRuleId → RuleState
  | .trailing =>
    let seen := s.extreme.getD trade.entryPrice
    { s with
      extreme := some (if trade.isLong then max seen row.bar.high else min seen row.bar.low) }
  | .chandelier =>
    let seen := s.peak.getD trade.entryPrice
    { s with peak := some (if trade.isLong then max seen row.bar.high else min seen row.bar.low) }
  | .breakeven =>
    let move := if trade.isLong then row.bar.high - trade.entryPrice
      else trade.entryPrice - row.bar.low
    { s with armed := s.armed || gainReaches move trade.entryPrice p.breakevenTriggerPct }
  | .psar =>
    { s with
      psar := some (if trade.isLong then updatePsarLong p trade row s.psar
        else updatePsarShort p trade row s.psar) }
  | .profitTargetRatchet =>
    match row.get (ExitColumn.atr p.atrPeriod).name with
    | none => s
    | some atr => updateRatchet p trade row atr s
  | .timeStop => { s with bars := s.bars + 1 }
  | _ => s

def ExitRuleId.shouldExit (s : RuleState) : ExitRuleId → Bool
  | .fixedSl => hitsStop trade row (trade.entryPrice * (1 - p.stopLossPct))
      (trade.entryPrice * (1 + p.stopLossPct))
  | .atrSl =>
    match row.get (ExitColumn.atr p.atrPeriod).name with
    | none => false
    | some atr => hitsStop trade row (trade.entryPrice - p.stopLossAtr * atr)
        (trade.entryPrice + p.stopLossAtr * atr)
  | .fixedTp => hitsTarget trade row (trade.entryPrice * (1 + p.takeProfitPct))
      (trade.entryPrice * (1 - p.takeProfitPct))
  | .atrTp =>
    match row.get (ExitColumn.atr p.atrPeriod).name with
    | none => false
    | some atr => hitsTarget trade row (trade.entryPrice + p.takeProfitAtr * atr)
        (trade.entryPrice - p.takeProfitAtr * atr)
  | .trailing =>
    let seen := s.extreme.getD trade.entryPrice
    hitsStop trade row (seen * (1 - p.trailingStopPct)) (seen * (1 + p.trailingStopPct))
  | .chandelier =>
    match row.get (ExitColumn.atr p.atrPeriod).name with
    | none => false
    | some atr =>
      let peak := s.peak.getD trade.entryPrice
      hitsStop trade row (peak - p.chandelierAtrMult * atr) (peak + p.chandelierAtrMult * atr)
  | .breakeven => s.armed && hitsStop trade row (trade.entryPrice * (1 + p.breakevenOffsetPct))
      (trade.entryPrice * (1 - p.breakevenOffsetPct))
  | .psar => s.psar.elim false (fun q => hitsStop trade row q.sar q.sar)
  | .profitTargetRatchet => s.armed && s.ratchet.elim false (fun r => hitsStop trade row r r)
  | .timeStop => p.maxBarsInTrade ≤ s.bars
  | .donchianStop =>
    match row.get (ExitColumn.donchianHigh p.donchianExitPeriod).name,
        row.get (ExitColumn.donchianLow p.donchianExitPeriod).name with
    | some high, some low => hitsStop trade row low high
    | _, _ => false

end Rules

def enabledRules (p : ExitParams) : List ExitRuleId := exitRules.filter (·.isEnabled p)

/-- `required_columns` of the registry, without repetitions. -/
def requiredColumns (p : ExitParams) : List ExitColumn :=
  ((enabledRules p).flatMap (·.requiredColumns p)).eraseDups

/-! ## The loop over trades and rules -/

/-- `ExitStrategy._state`; a missing entry is the empty dictionary. -/
abbrev ExitState := String → ExitRuleId → RuleState

def ExitState.empty : ExitState := fun _ _ => {}

def ExitState.set (state : ExitState) (id : String) (rule : ExitRuleId) (s : RuleState) :
    ExitState :=
  fun id' rule' => if id' = id ∧ rule' = rule then s else state id' rule'

/-- `_prune_stale_state`. -/
def pruneStaleState (openTrades : List Trade) (state : ExitState) : ExitState :=
  fun id rule => if id ∈ openTrades.map Trade.id then state id rule else {}

def columnsReady (p : ExitParams) (row : BarRow) (rule : ExitRuleId) : Bool :=
  (rule.requiredColumns p).all (fun c => (row.get c.name).isSome)

/-- The rules for one trade. The first that fires ends the loop, so that the rules after it do
not see the bar. -/
def checkRules (p : ExitParams) (row : BarRow) (trade : Trade) :
    List ExitRuleId → ExitState → ExitState × Option Signal
  | [], state => (state, none)
  | rule :: rest, state =>
    let s := rule.onBar p trade row (state trade.id rule)
    let state := state.set trade.id rule s
    if columnsReady p row rule ∧ rule.shouldExit p trade row s then
      (state, some
        { symbol := trade.symbol, action := .close, exitReason := some rule.value })
    else checkRules p row trade rest state

def checkTrades (p : ExitParams) (row : BarRow) :
    List Trade → ExitState → ExitState × List Signal
  | [], state => (state, [])
  | trade :: rest, state =>
    let (state, signal) := checkRules p row trade (enabledRules p) state
    let (state, signals) := checkTrades p row rest state
    (state, signal.toList ++ signals)

def checkExits (p : ExitParams) (openTrades : List Trade) (row : BarRow) (state : ExitState) :
    ExitState × List Signal :=
  checkTrades p row openTrades (pruneStaleState openTrades state)

end QBackend.Execution
