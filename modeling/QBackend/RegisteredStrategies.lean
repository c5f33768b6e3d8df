import QBackend.ExitSides
import QBackend.MaskedSeries

/-!
# The registered candle strategies

The classes of `backtesting/strategies` and `MACrossoverStrategy` of `strategy.py`: the columns that
`compute_indicators` adds to a frame, and the two checks, which read the columns at one bar.
Lookbacks and lags are natural numbers, as their registered bounds have them.
-/

namespace QBackend.RegisteredStrategies

open GenomeDsl CausalSeries PriceFloat
open Execution (Time Trade Signal ExecutionSide)

/-! ## What the checks read -/

section Reading

variable {F : Type} [PriceFloat F]

def flags (bs : List Bool) : Column F := .bools (bs.map some)

/-- `current_data.get(name, False)` of a column at a bar. -/
def flagAt (columns : Outputs F) (name : String) (bar : ℕ) : Bool :=
  signalAt ((columns.lookup name).map Column.signals) bar

/-- `current_data.get(name, default)` of a column of numbers. -/
def numberAt (columns : Outputs F) (name : String) (default : F) (bar : ℕ) : F :=
  (((columns.lookup name).map Column.values).bind fun xs => xs[bar]?).getD default

/-- An entry signal; the strength scales the size of the order. -/
structure EntrySignal (F : Type) where
  symbol : String
  side : ExecutionSide
  strength : F

/-- BUY on the first flag, else SELL on the second. -/
def enterOn (symbol : String) (buy sell : Bool) (strength : F) : List (EntrySignal F) :=
  if buy then [⟨symbol, .buy, strength⟩]
  else if sell then [⟨symbol, .sell, strength⟩]
  else []

def buySellEntries (columns : Outputs F) (symbol : String) (bar : ℕ) : List (EntrySignal F) :=
  enterOn symbol (flagAt columns "buy_signal" bar) (flagAt columns "sell_signal" bar) one

/-- CLOSE for an open trade of the symbol, by the flag of its side. -/
def sideExit (symbol : String) (exitLong exitShort : Bool) (trade : Trade) : Option Signal :=
  if trade.symbol ≠ symbol then none
  else if trade.action = .buy ∧ exitLong then some { symbol, action := .close }
  else if trade.action = .sell ∧ exitShort then some { symbol, action := .close }
  else none

def flagExits (columns : Outputs F) (long short symbol : String) (bar : ℕ)
    (openTrades : List Trade) : List Signal :=
  openTrades.filterMap (sideExit symbol (flagAt columns long bar) (flagAt columns short bar))

theorem signals_flags (bs : List Bool) : (flags (F := F) bs).signals = bs := by
  simp [flags, Column.signals, Column.flags]

theorem flagAt_eq {columns : Outputs F} {name : String} {bs : List Bool}
    (h : columns.lookup name = some (flags bs)) (bar : ℕ) :
    flagAt columns name bar = signalAt (some bs) bar := by
  unfold flagAt
  rw [h, Option.map_some, signals_flags]

end Reading

/-! ## Rules -/

section Rules

variable {F : Type} [PriceFloat F]

def both (as bs : List Bool) : List Bool := List.zipWith (fun a b => a && b) as bs

/-- Each row of a series against one number. -/
def against (compare : F → F → Bool) (level : F) (xs : List F) : List Bool :=
  xs.map fun x => compare x level

structure MACrossover where
  shortPeriod : ℤ
  longPeriod : ℤ
  threshold : ℚ
  shortMaType : MaType
  longMaType : MaType

def MACrossover.computeIndicators (s : MACrossover) (frame : Frame F) :
    Except Failure (Outputs F) := do
  let close := frame.column Row.close
  let maShort ← computeMa close s.shortPeriod s.shortMaType
  let maLong ← computeMa close s.longPeriod s.longMaType
  let delta := List.zipWith sub maShort maLong
  let prevDelta := previous delta
  pure [("ma_short", .numbers maShort), ("ma_long", .numbers maLong), ("delta", .numbers delta),
    ("prev_delta", .numbers prevDelta),
    ("buy_signal", flags (both (against gt (ofRat s.threshold) delta)
      (against le (ofRat s.threshold) prevDelta))),
    ("sell_signal", flags (both (against lt (ofRat (-s.threshold)) delta)
      (against ge (ofRat (-s.threshold)) prevDelta)))]

structure RSIMeanReversion where
  period : ℤ
  oversold : ℚ
  overbought : ℚ

/-- Both signals are crosses from below. -/
def RSIMeanReversion.computeIndicators (s : RSIMeanReversion) (frame : Frame F) :
    Except Failure (Outputs F) := do
  let rsi ← computeRsi (frame.column Row.close) s.period
  let prevRsi := previous rsi
  pure [("rsi", .numbers rsi), ("prev_rsi", .numbers prevRsi),
    ("buy_signal", flags (both (against le (ofRat s.oversold) prevRsi)
      (against gt (ofRat s.oversold) rsi))),
    ("sell_signal", flags (both (against le (ofRat s.overbought) prevRsi)
      (against gt (ofRat s.overbought) rsi)))]

/-- A row before and a row of two series: the comparison that held and the one that holds. -/
def crosses (before now : F → F → Bool) (xs ys prevXs prevYs : List F) : List Bool :=
  both (List.zipWith before prevXs prevYs) (List.zipWith now xs ys)

structure BollingerReversion where
  period : ℤ
  numStd : ℚ

def BollingerReversion.computeIndicators (s : BollingerReversion) (frame : Frame F) :
    Except Failure (Outputs F) := do
  let close := frame.column Row.close
  let bands ← computeBollingerBands close s.period (ofRat s.numStd)
  let upper := bands.1
  let middle := bands.2.1
  let lower := bands.2.2
  let prevClose := previous close
  let prevLower := previous lower
  let prevUpper := previous upper
  let prevMiddle := previous middle
  pure [("bb_upper", .numbers upper), ("bb_middle", .numbers middle), ("bb_lower", .numbers lower),
    ("prev_close", .numbers prevClose), ("prev_bb_lower", .numbers prevLower),
    ("prev_bb_upper", .numbers prevUpper), ("prev_bb_middle", .numbers prevMiddle),
    ("buy_signal", flags (crosses ge lt close lower prevClose prevLower)),
    ("sell_signal", flags (crosses le gt close upper prevClose prevUpper)),
    ("exit_long_signal", flags (crosses le gt close middle prevClose prevMiddle)),
    ("exit_short_signal", flags (crosses ge lt close middle prevClose prevMiddle))]

structure DonchianBreakout where
  period : ℤ

def DonchianBreakout.computeIndicators (s : DonchianBreakout) (frame : Frame F) :
    Except Failure (Outputs F) := do
  let close := frame.column Row.close
  let channel ←
    computeDonchianChannels (frame.column Row.high) (frame.column Row.low) s.period
  let upper := channel.1
  let lower := channel.2
  let prevClose := previous close
  let prevUpper := previous upper
  let prevLower := previous lower
  pure [("donchian_upper", .numbers upper), ("donchian_lower", .numbers lower),
    ("prev_close", .numbers prevClose), ("prev_donchian_upper", .numbers prevUpper),
    ("prev_donchian_lower", .numbers prevLower),
    ("buy_signal", flags (crosses le gt close upper prevClose prevUpper)),
    ("sell_signal", flags (crosses ge lt close lower prevClose prevLower))]

structure MACD where
  fastPeriod : ℤ
  slowPeriod : ℤ
  signalPeriod : ℤ

def MACD.computeIndicators (s : MACD) (frame : Frame F) : Except Failure (Outputs F) := do
  let lines ← computeMacd (frame.column Row.close) s.fastPeriod s.slowPeriod s.signalPeriod
  let macd := lines.1
  let signal := lines.2.1
  let histogram := lines.2.2
  let prevMacd := previous macd
  let prevSignal := previous signal
  pure [("macd", .numbers macd), ("macd_signal", .numbers signal),
    ("macd_histogram", .numbers histogram), ("prev_macd", .numbers prevMacd),
    ("prev_macd_signal", .numbers prevSignal),
    ("buy_signal", flags (crosses le gt macd signal prevMacd prevSignal)),
    ("sell_signal", flags (crosses ge lt macd signal prevMacd prevSignal))]

/-! ## Lai and Lau -/

/-- `add_bar_index` -/
def barIndex (frame : Frame F) : Column F :=
  .numbers ((List.range frame.rows.length).map fun i : ℕ => ofRat (i : ℚ))

/-- `compute_ma_band_signals`: the columns that it adds. -/
def computeMaBandSignals (close ma : List F) (bandPct : ℚ) : Outputs F :=
  let band : F := div (ofRat bandPct) (ofRat 100)
  let upper := ma.map fun x => mul x (add one band)
  let lower := ma.map fun x => mul x (sub one band)
  let prevClose := previous close
  [("ma_band_upper", .numbers upper), ("ma_band_lower", .numbers lower),
    ("buy_signal", flags (crosses le gt close upper prevClose (previous upper))),
    ("sell_signal", flags (crosses ge lt close lower prevClose (previous lower)))]

/-- `compute_trb_channel_signals`: the close before against the channel, the close against the
band. -/
def computeTrbChannelSignals (close : List F) (period : ℤ) (bandPct : ℚ) :
    Except Failure (Outputs F) := do
  let channel ← computeTrbChannel close period (ofRat bandPct)
  let channelHigh := channel.1
  let channelLow := channel.2.1
  let upper := channel.2.2.1
  let lower := channel.2.2.2
  let prevClose := previous close
  pure [("channel_high", .numbers channelHigh), ("channel_low", .numbers channelLow),
    ("trb_upper", .numbers upper), ("trb_lower", .numbers lower),
    ("buy_signal", flags (crosses le gt close upper prevClose channelHigh)),
    ("sell_signal", flags (crosses ge lt close lower prevClose channelLow))]

structure TRB where
  period : ℤ
  bandPct : ℚ
  holdingPeriod : ℤ

def TRB.computeIndicators (s : TRB) (frame : Frame F) : Except Failure (Outputs F) := do
  let signals ← computeTrbChannelSignals (frame.column Row.close) s.period s.bandPct
  pure (("bar_index", barIndex frame) :: signals)

structure FMA where
  period : ℤ
  bandPct : ℚ
  maType : MaType
  holdingPeriod : ℤ

def FMA.computeIndicators (s : FMA) (frame : Frame F) : Except Failure (Outputs F) := do
  let close := frame.column Row.close
  let ma ← computeMa close s.period s.maType
  pure (("bar_index", barIndex frame) :: ("ma", .numbers ma) ::
    computeMaBandSignals close ma s.bandPct)

structure VMA where
  period : ℤ
  bandPct : ℚ
  maType : MaType

def VMA.computeIndicators (s : VMA) (frame : Frame F) : Except Failure (Outputs F) := do
  let close := frame.column Row.close
  let ma ← computeMa close s.period s.maType
  pure (("ma", .numbers ma) :: computeMaBandSignals close ma s.bandPct)

/-! ## Momentum -/

inductive VolEstimator where
  | yangZhang | closeToClose
  deriving DecidableEq, Repr

def VolEstimator.value : VolEstimator → String
  | .yangZhang => "yang_zhang"
  | .closeToClose => "close_to_close"

def rebalanceMask (rebalanceBars : ℤ) (frame : Frame F) : List Bool :=
  (List.range frame.rows.length).map (isRebalance rebalanceBars)

def fillZero (x : F) : F := if isNaN x then ofRat 0 else x

/-- The sign at the rebalance before, at the rows of rebalances. -/
def prevRebalanceSign (rebalance : List Bool) (momentum : List F) : List F :=
  scattered (ofRat 0) rebalance
    ((previous (picked rebalance (momentum.map signOrNaN))).map fillZero)

/-- A change of sign, at a rebalance with a momentum. -/
def signChange (side : F → Bool) (opposite : F → Bool) (rebalance : List Bool)
    (momentum prevSign : List F) : List Bool :=
  List.zipWith (fun rebalance row => rebalance && side row.1 && opposite row.2 && !isNaN row.1)
    rebalance (List.zip momentum prevSign)

/-- The columns from the momentum on, which two classes have in common. -/
def momentumColumns (rebalanceBars : ℤ) (frame : Frame F) (momentum strength volatility : List F) :
    Outputs F :=
  let rebalance := rebalanceMask rebalanceBars frame
  let prevSign := prevRebalanceSign rebalance momentum
  [("momentum", .numbers momentum), ("signal_strength", .numbers strength),
    ("volatility", .numbers volatility), ("bar_index", barIndex frame),
    ("rebalance", flags rebalance),
    ("buy_signal", flags (signChange (fun m => lt (ofRat 0) m) (fun p => le p (ofRat 0)) rebalance
      momentum prevSign)),
    ("sell_signal", flags (signChange (fun m => lt m (ofRat 0)) (fun p => le (ofRat 0) p) rebalance
      momentum prevSign))]

/-- The entries of the momentum classes: none without a momentum, and at every rebalance when
positions are set again there. -/
def momentumEntries (everyBar : Bool) (columns : Outputs F) (symbol : String) (bar : ℕ) :
    List (EntrySignal F) :=
  let momentum := numberAt columns "momentum" nan bar
  let strength := numberAt columns "signal_strength" one bar
  if isNaN momentum then []
  else if everyBar then
    if flagAt columns "rebalance" bar then
      enterOn symbol (lt (ofRat 0) momentum) (lt momentum (ofRat 0)) strength
    else []
  else
    enterOn symbol (flagAt columns "buy_signal" bar) (flagAt columns "sell_signal" bar) strength

def momentumExits (everyBar : Bool) (columns : Outputs F) (symbol : String) (bar : ℕ)
    (openTrades : List Trade) : List Signal :=
  openTrades.filterMap fun trade =>
    if trade.symbol ≠ symbol then none
    else if trade.action = .buy ∧ flagAt columns "sell_signal" bar then
      some { symbol, action := .close }
    else if trade.action = .sell ∧ flagAt columns "buy_signal" bar then
      some { symbol, action := .close }
    else if everyBar ∧ flagAt columns "rebalance" bar then some { symbol, action := .close }
    else none

/-- The Newey–West t-statistic of the mean of one window. -/
def neweyWest (window lags : ℕ) (returns : List F) : F :=
  let m := div (total returns) (ofRat window)
  let deviations := returns.map fun x => sub x m
  let autocovariance := fun j : ℕ =>
    div (total (List.zipWith mul (deviations.drop j) deviations)) (ofRat window)
  let longRun := (List.range lags).foldl (fun (s : F) (j : ℕ) =>
    let weight := sub one (div (ofRat ((j : ℚ) + 1)) (ofRat ((lags : ℚ) + 1)))
    add s (mul (mul (ofRat 2) weight) (autocovariance (j + 1)))) (autocovariance 0)
  if lt (ofRat (1 / 10 ^ 12)) longRun then div m (sqrt (div longRun (ofRat window))) else ofRat 0

/-- `compute_rolling_newey_west_t_stat` -/
def computeRollingNeweyWestTStat (returns : List F) (window lags : ℕ) : Except Failure (List F) :=
  if window = 0 then .error .zeroDivisionError
  else .ok (rolling window (fun w => if w.length < window then nan else neweyWest window lags w)
    returns)

/-- `replace([inf, -inf], nan).fillna(0.0)`; what is infinite has no difference with itself. -/
def finiteOrZero (x : F) : F := if isNaN (sub x x) then ofRat 0 else x

/-- `np.minimum` -/
def minimum (a b : F) : F :=
  if isNaN a then a else if isNaN b then b else if lt b a then b else a

inductive TradingRule where
  | sign
  /-- The t-statistic, with the cap of the strength and the lags. -/
  | trend (signalCap : ℚ) (nwLags : ℕ)
  deriving DecidableEq

structure TSMOM where
  lookbackBars : ℕ
  rebalanceBars : ℤ
  volWindow : ℤ
  volEstimator : VolEstimator
  tradingRule : TradingRule
  rebalanceOnEveryBar : Bool

def TSMOM.computeIndicators (s : TSMOM) (frame : Frame F) : Except Failure (Outputs F) := do
  let close := frame.column Row.close
  match s.tradingRule with
  | .sign =>
    let momentum := relativeChange s.lookbackBars close
    let volatility ← estimateVolatility frame close s.volEstimator.value s.volWindow
    pure (momentumColumns s.rebalanceBars frame momentum (close.map fun _ => one) volatility)
  | .trend signalCap nwLags =>
    let tStat ← computeRollingNeweyWestTStat ((logReturns close).map finiteOrZero) s.lookbackBars
      nwLags
    let strength := tStat.map fun t =>
      div (minimum (PriceFloat.abs t) (ofRat signalCap)) (ofRat signalCap)
    let volatility ← estimateVolatility frame close s.volEstimator.value s.volWindow
    pure (("t_stat", .numbers tStat) ::
      momentumColumns s.rebalanceBars frame tStat strength volatility)

structure HurstTrendBlend where
  lookback₁ : ℕ
  lookback₂ : ℕ
  lookback₃ : ℕ
  rebalanceBars : ℤ
  volWindow : ℤ
  volEstimator : VolEstimator
  riskFreeRateAnnual : ℚ
  signalLagBars : ℕ
  rebalanceOnEveryBar : Bool

/-- The sign of the return over a lookback in excess of the rate. -/
def HurstTrendBlend.excessSign (s : HurstTrendBlend) (close : List F) (lookback : ℕ) : List F :=
  (relativeChange lookback close).map fun r =>
    signOrNaN (sub r (mul (div (ofRat s.riskFreeRateAnnual) (ofRat 252)) (ofRat lookback)))

def HurstTrendBlend.computeIndicators (s : HurstTrendBlend) (frame : Frame F) :
    Except Failure (Outputs F) := do
  let close := frame.column Row.close
  let sig₁ := s.excessSign close s.lookback₁
  let sig₂ := s.excessSign close s.lookback₂
  let sig₃ := s.excessSign close s.lookback₃
  let blend := List.zipWith (fun ab c => div (add ab c) (ofRat 3)) (List.zipWith add sig₁ sig₂) sig₃
  let lagged := if 0 < s.signalLagBars then shift nan s.signalLagBars blend else blend
  let volatility ← estimateVolatility frame close s.volEstimator.value s.volWindow
  pure (("sig_1", .numbers sig₁) :: ("sig_2", .numbers sig₂) :: ("sig_3", .numbers sig₃) ::
    momentumColumns s.rebalanceBars frame lagged (lagged.map fun x => fillZero (PriceFloat.abs x))
      volatility)

/-! ## Pairs -/

inductive PairPosition where
  | flat | long | short
  deriving DecidableEq, Repr

/-- What the loop over the bars of a pair keeps: the bar, the prices at the start of the cycle and
the spreads so far. -/
structure PairState (F : Type) where
  bar : ℕ
  position : PairPosition
  startA : F
  startB : F
  sdSpread : F
  spreads : List F

structure PairSignals (F : Type) where
  buy : Bool
  sell : Bool
  exit : Bool
  spread : F

def normalizedPrice (start price : F) : F :=
  if lt (ofRat (1 / 10 ^ 12)) start then div price start else ofRat 1

/-- The deviation of the spreads over the formation period. -/
def formationDeviation (formationBars : ℕ) (spreads : List F) : F :=
  let values := window formationBars spreads
  let m := div (total values) (ofRat formationBars)
  sqrt (div (total (values.map fun x => mul (sub x m) (sub x m))) (ofRat formationBars))

/-- The position after a bar of the trading period. -/
def tradePair (threshold : ℚ) (lastBar : Bool) (sd spread : F) : PairPosition → PairPosition
  | .flat =>
    if lt (ofRat (1 / 10 ^ 12)) sd then
      if lt (mul (ofRat threshold) sd) spread then .short
      else if lt spread (mul (ofRat (-threshold)) sd) then .long
      else .flat
    else .flat
  | .long => if le (ofRat 0) spread || lastBar then .flat else .long
  | .short => if le spread (ofRat 0) || lastBar then .flat else .short

/-- One pass of the loop of `_compute_pairs_signals_numba`. -/
def pairStep (formationBars tradingBars : ℕ) (threshold : ℚ) (s : PairState F) (price : F × F) :
    PairState F × PairSignals F :=
  let k := s.bar % (formationBars + tradingBars)
  let startA := if k = 0 then price.1 else s.startA
  let startB := if k = 0 then price.2 else s.startB
  let position := if k = 0 then PairPosition.flat else s.position
  let spread := sub (normalizedPrice startA price.1) (normalizedPrice startB price.2)
  let spreads := s.spreads ++ [spread]
  if k + 1 = formationBars then
    (⟨s.bar + 1, position, startA, startB, formationDeviation formationBars spreads, spreads⟩,
      ⟨false, false, false, spread⟩)
  else if formationBars ≤ k then
    let next := tradePair threshold (k + 1 = formationBars + tradingBars) s.sdSpread spread position
    (⟨s.bar + 1, next, startA, startB, s.sdSpread, spreads⟩,
      ⟨decide (position = .flat ∧ next = .long), decide (position = .flat ∧ next = .short),
        decide (position ≠ .flat ∧ next = .flat), spread⟩)
  else (⟨s.bar + 1, position, startA, startB, s.sdSpread, spreads⟩, ⟨false, false, false, spread⟩)

def pairStart : PairState F := ⟨0, .flat, ofRat 0, ofRat 0, ofRat 0, []⟩

/-- The columns of the two assets, and a cycle with at least one bar. -/
structure GatevPairs where
  colA : String
  colB : String
  openColA : String
  openColB : String
  formationBars : ℕ
  tradingBars : ℕ
  openThresholdSd : ℚ
  volWindow : ℤ
  cycle_pos : 0 < formationBars + tradingBars

/-- `df[name]`, when there is such a column. -/
def namedColumn (frame : Frame F) (name : String) : Option (List F) :=
  match name with
  | "open" => some (frame.column Row.opn)
  | "high" => some (frame.column Row.high)
  | "low" => some (frame.column Row.low)
  | "close" => some (frame.column Row.close)
  | "volume" => some (frame.column Row.volume)
  | _ => if name ∈ frame.exogColumns then some (frame.column fun r => r.exog name) else none

def GatevPairs.missingColumns (s : GatevPairs) : Failure :=
  .valueError ("Data must contain both '" ++ s.colA ++ "' and '" ++ s.colB ++
    "' columns for Pairs Trading.")

/-- The open of the synthetic asset, its close where an open is missing. -/
def GatevPairs.syntheticOpen (s : GatevPairs) (df : String → Option (List F)) (close : List F) :
    List F :=
  match df s.openColA, df s.openColB with
  | some openA, some openB => List.zipWith sub openA openB
  | _, _ => close

/-- The prices of the two assets are read after the columns of the synthetic asset are assigned, so
an asset in one of these columns is read as the synthetic asset. -/
def GatevPairs.computeIndicators (s : GatevPairs) (frame : Frame F) :
    Except Failure (Outputs F) :=
  match namedColumn frame s.colA, namedColumn frame s.colB with
  | some closeA, some closeB => do
    let close := List.zipWith sub closeA closeB
    let withClose := Function.update (namedColumn frame) "close" (some close)
    let opn := s.syntheticOpen withClose close
    let df := Function.update (Function.update (Function.update withClose "open" (some opn)) "high"
      (some close)) "low" (some close)
    let priceA := (df s.colA).getD []
    let priceB := (df s.colB).getD []
    let signals := scan (pairStep s.formationBars s.tradingBars s.openThresholdSd) pairStart
      (List.zip priceA priceB)
    let volA ← computeRealizedVol priceA s.volWindow
    let volB ← computeRealizedVol priceB s.volWindow
    pure [("close", .numbers close), ("open", .numbers opn), ("high", .numbers close),
      ("low", .numbers close), ("buy_signal", flags (signals.map PairSignals.buy)),
      ("sell_signal", flags (signals.map PairSignals.sell)),
      ("exit_signal", flags (signals.map PairSignals.exit)),
      ("spread", .numbers (signals.map PairSignals.spread)),
      ("volatility", .numbers (List.zipWith (fun a b => mul (ofRat (1 / 2)) (add a b)) volA volB)),
      ("bar_index", barIndex frame), ("rebalance", flags (frame.rows.map fun _ => false))]
  | _, _ => .error s.missingColumns

end Rules

/-! ## The registry -/

/-- A strategy as its `build` makes it. -/
inductive RegisteredStrategy where
  | maCrossover (s : MACrossover)
  | rsiMeanReversion (s : RSIMeanReversion)
  | bollingerReversion (s : BollingerReversion)
  | donchianBreakout (s : DonchianBreakout)
  | macd (s : MACD)
  | trb (s : TRB)
  | fma (s : FMA)
  | vma (s : VMA)
  | tsmom (s : TSMOM)
  | hurstTrendBlend (s : HurstTrendBlend)
  | gatevPairs (s : GatevPairs)

namespace RegisteredStrategy

/-- The name in the registry. -/
def name : RegisteredStrategy → String
  | .maCrossover _ => "MACrossover"
  | .rsiMeanReversion _ => "RSIMeanReversion"
  | .bollingerReversion _ => "BollingerReversion"
  | .donchianBreakout _ => "DonchianBreakout"
  | .macd _ => "MACD"
  | .trb _ => "TRB"
  | .fma _ => "FMA"
  | .vma _ => "VMA"
  | .tsmom _ => "TSMOM"
  | .hurstTrendBlend _ => "HurstTrendBlend"
  | .gatevPairs _ => "GatevPairs"

variable {F : Type} [PriceFloat F]

def computeIndicators (s : RegisteredStrategy) (frame : Frame F) : Except Failure (Outputs F) :=
  match s with
  | .maCrossover s => s.computeIndicators frame
  | .rsiMeanReversion s => s.computeIndicators frame
  | .bollingerReversion s => s.computeIndicators frame
  | .donchianBreakout s => s.computeIndicators frame
  | .macd s => s.computeIndicators frame
  | .trb s => s.computeIndicators frame
  | .fma s => s.computeIndicators frame
  | .vma s => s.computeIndicators frame
  | .tsmom s => s.computeIndicators frame
  | .hurstTrendBlend s => s.computeIndicators frame
  | .gatevPairs s => s.computeIndicators frame

/-- `check_entry_conditions` at a bar of the columns. -/
def checkEntryConditions (s : RegisteredStrategy) (columns : Outputs F) (symbol : String)
    (bar : ℕ) : List (EntrySignal F) :=
  match s with
  | .tsmom s => momentumEntries s.rebalanceOnEveryBar columns symbol bar
  | .hurstTrendBlend s => momentumEntries s.rebalanceOnEveryBar columns symbol bar
  | _ => buySellEntries columns symbol bar

/-- `check_exit_conditions`: the classes with a holding period look up the bar of the entry. -/
def checkExitConditions (s : RegisteredStrategy) (columns : Outputs F) (times : List Time)
    (symbol : String) (bar : ℕ) (openTrades : List Trade) : List Signal :=
  match s with
  | .bollingerReversion _ =>
    flagExits columns "exit_long_signal" "exit_short_signal" symbol bar openTrades
  | .trb s => fixedHoldingPeriodExits times symbol s.holdingPeriod bar openTrades
  | .fma s => fixedHoldingPeriodExits times symbol s.holdingPeriod bar openTrades
  | .tsmom s => momentumExits s.rebalanceOnEveryBar columns symbol bar openTrades
  | .hurstTrendBlend s => momentumExits s.rebalanceOnEveryBar columns symbol bar openTrades
  | .gatevPairs _ => flagExits columns "exit_signal" "exit_signal" symbol bar openTrades
  | _ => flagExits columns "sell_signal" "buy_signal" symbol bar openTrades

end RegisteredStrategy

end QBackend.RegisteredStrategies
