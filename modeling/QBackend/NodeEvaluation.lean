import QBackend.GenomeCompile

/-!
# Evaluation of nodes

`_evaluate_node` of `composite_strategy.py` and `feature_nodes.py`: what a node writes, port by
port, given the columns that its inputs are bound to. A boolean that is missing is `none`; in
arithmetic booleans are the numbers 0 and 1.
-/

namespace QBackend.GenomeDsl

open CausalSeries PriceFloat
open Execution (Time)

/-! ## Columns -/

/-- A column of numbers or of booleans; a boolean column that was shifted or reindexed has rows
without a value. -/
inductive Column (F : Type) where
  | numbers (xs : List F)
  | bools (bs : List (Option Bool))
  deriving DecidableEq

section Columns

variable {F : Type} [PriceFloat F]

def ofBool (b : Bool) : F := ofRat (if b then 1 else 0)

namespace Column

def values : Column F → List F
  | .numbers xs => xs
  | .bools bs => bs.map fun b => (b.map ofBool).getD nan

/-- Whether a number is true as a Python object. -/
def truth (x : F) : Bool := !(le x (ofRat 0) && le (ofRat 0) x)

def flags : Column F → List (Option Bool)
  | .numbers xs => xs.map fun x => if isNaN x then none else some (truth x)
  | .bools bs => bs

/-- `fillna(False).astype(bool)`. -/
def signals (column : Column F) : List Bool := column.flags.map fun b => b.getD false

def shift (bars : ℤ) : Column F → Column F
  | .numbers xs => .numbers (CausalSeries.shift nan bars xs)
  | .bools bs => .bools (CausalSeries.shift none bars bs)

def abs : Column F → Column F
  | .numbers xs => .numbers (xs.map PriceFloat.abs)
  | .bools bs => .bools bs

end Column

/-! ## Parameters and inputs -/

abbrev Params := List (String × Value)

abbrev Outputs (F : Type) := List (String × Column F)

def intParam (params : Params) (key : String) : Except Failure ℤ := do
  let value ← getKey params key
  value.toInt

def floatParam (params : Params) (key : String) : Except Failure F := do
  let value ← getKey params key
  value.toFloat

variable (F) in
def strParam (params : Params) (key : String) : Except Failure String := do
  let value ← getKey params key
  pure (value.toStr F)

def input (inputs : List (Column F)) (index : ℕ) : Except Failure (Column F) :=
  match inputs[index]? with
  | some column => .ok column
  | none => .error .indexError

def series (inputs : List (Column F)) (index : ℕ) : Except Failure (List F) := do
  let column ← input inputs index
  pure column.values

def out (xs : List F) : Outputs F := [("out", .numbers xs)]

def outBools (bs : List Bool) : Outputs F := [("out", .bools (bs.map some))]

/-! ## Sources -/

/-- `symbol.replace("$", "").replace("/", "_").replace("\\", "_")`. -/
def symbolNamespace (symbol : String) : String :=
  String.ofList (symbol.toList.flatMap fun c =>
    if c = '$' then [] else if c = '/' ∨ c = '\\' then ['_'] else [c])

def exogColumnName (symbol suffix : String) : String :=
  "exog_" ++ symbolNamespace symbol ++ "_" ++ suffix

def resolveExogColumn (frame : Frame F) (symbol suffix : String) : Except Failure (List F) :=
  let column := exogColumnName symbol suffix
  if column ∈ frame.exogColumns then .ok (frame.column fun r => r.exog column)
  else .error (.keyError column)

/-- `astype(bool)`, for which NaN is true. -/
def astypeBool (xs : List F) : List Bool := xs.map fun x => isNaN x || Column.truth x

def evaluateExog (frame : Frame F) (kind : NodeKind) (params : Params) :
    Except Failure (Outputs F) := do
  match kind with
  | .sourceExogReturn =>
    let lookback ← intParam params "lookback_bars"
    let symbol ← strParam F params "symbol"
    pure (out (← resolveExogColumn frame symbol ("return_" ++ toString lookback)))
  | .sourceExogReturnZscore =>
    let lookback ← intParam params "lookback_bars"
    let window ← intParam params "window"
    let symbol ← strParam F params "symbol"
    pure (out (← resolveExogColumn frame symbol
      ("return_zscore_" ++ toString lookback ++ "_" ++ toString window)))
  | .sourceExogRollingCorr =>
    let window ← intParam params "window"
    let symbol ← strParam F params "symbol"
    pure (out (← resolveExogColumn frame symbol ("rolling_corr_" ++ toString window)))
  | .sourceExogRelativeStrength =>
    let lookback ← intParam params "lookback_bars"
    let symbol ← strParam F params "symbol"
    pure (out (← resolveExogColumn frame symbol ("relative_strength_" ++ toString lookback)))
  | .sourceExogVolRegime =>
    let window ← intParam params "vol_window"
    let symbol ← strParam F params "symbol"
    pure (outBools (astypeBool
      (← resolveExogColumn frame symbol ("vol_regime_" ++ toString window))))
  | .sourceExogDirectionRegime =>
    let lookback ← intParam params "lookback_bars"
    let symbol ← strParam F params "symbol"
    pure (outBools (astypeBool
      (← resolveExogColumn frame symbol ("direction_regime_" ++ toString lookback))))
  | _ =>
    let symbol ← strParam F params "symbol"
    pure (out (← resolveExogColumn frame symbol "close"))

/-! ## Indicators -/

/-- The volatility of the estimator that is asked for, from the bars or from the source. -/
def estimateVolatility (frame : Frame F) (source : List F) (estimator : String) (window : ℤ) :
    Except Failure (List F) :=
  if estimator = "yang_zhang" then
    computeYangZhang (frame.column Row.opn) (frame.column Row.high) (frame.column Row.low)
      (frame.column Row.close) window
  else computeRealizedVol source window

def signOrNaN (x : F) : F := if isNaN x then nan else sign x

/-- Whether the bar is one on which the position is set again; numpy has `n % 0 = 0`. -/
def isRebalance (rebalanceBars : ℤ) (bar : ℕ) : Bool :=
  decide (rebalanceBars = 0 ∨ (bar : ℤ) % rebalanceBars = 0)

/-- One row of the rebalancing loop: the sign at the last rebalance is what the row is compared
with, and zero stands for a missing one. -/
def tsmomStep (rebalanceBars : ℤ) (s : ℕ × F) (momentum : F) : (ℕ × F) × Bool × Bool :=
  let rebalance := isRebalance rebalanceBars s.1
  let known := !isNaN momentum
  let sign := signOrNaN momentum
  let next := if rebalance then (if isNaN sign then ofRat 0 else sign) else s.2
  ((s.1 + 1, next),
    rebalance && lt (ofRat 0) momentum && le s.2 (ofRat 0) && known,
    rebalance && lt momentum (ofRat 0) && le (ofRat 0) s.2 && known)

def evaluateTsmom (frame : Frame F) (params : Params) : Except Failure (Outputs F) := do
  let lookback ← intParam params "lookback_bars"
  let rebalanceBars ← intParam params "rebalance_bars"
  let volWindow ← intParam params "vol_window"
  let estimator ← strParam F params "vol_estimator"
  let momentum := relativeChange lookback (frame.column Row.close)
  let volatility ← estimateVolatility frame (frame.column Row.close) estimator volWindow
  let entries := scan (tsmomStep rebalanceBars) (0, ofRat 0) momentum
  pure [("momentum", .numbers momentum), ("volatility", .numbers volatility),
    ("buy_signal", .bools (entries.map fun e => some e.1)),
    ("sell_signal", .bools (entries.map fun e => some e.2))]

def evaluateTrendBlend (params : Params) (inputs : List (Column F)) :
    Except Failure (Outputs F) := do
  let source ← series inputs 0
  let lookback₁ ← intParam params "lookback_1"
  let lookback₂ ← intParam params "lookback_2"
  let lookback₃ ← intParam params "lookback_3"
  let volWindow ← intParam params "vol_window"
  let signs := fun lookback => (relativeChange lookback source).map signOrNaN
  let volatility ← computeRealizedVol source volWindow
  pure [("out", .numbers (List.zipWith (fun ab c => div (add ab c) (ofRat 3))
      (List.zipWith add (signs lookback₁) (signs lookback₂)) (signs lookback₃))),
    ("volatility", .numbers volatility)]

/-- The latent columns of the encoder for a frame and the number of rows it was trained on. -/
structure Latents (F : Type) where
  columns : List (List F)
  warmup : ℕ

def applyWarmup (warmup : ℕ) (xs : List F) : List F :=
  List.replicate (min warmup xs.length) nan ++ xs.drop warmup

def evaluateLatent (frame : Frame F) (latents : Option (Latents F)) (params : Params) :
    Except Failure (Outputs F) :=
  match latents with
  | none => .ok (out (frame.rows.map fun _ => nan))
  | some latents => do
    let index ← ((params.lookup "latent_index").getD (.int 0)).toInt
    match latents.columns[min (max 0 index).toNat (latents.columns.length - 1)]? with
    | some column => pure (out (applyWarmup latents.warmup column))
    | none => .error .indexError

def evaluateIndicator (frame : Frame F) (latents : Option (Latents F)) (kind : NodeKind)
    (params : Params) (inputs : List (Column F)) : Except Failure (Outputs F) := do
  match kind with
  | .indMa =>
    let source ← series inputs 0
    let period ← intParam params "period"
    let maType ← normalizeMaType (← strParam F params "ma_type")
    pure (out (← computeMa source period maType))
  | .indEma =>
    let source ← series inputs 0
    let period ← intParam params "period"
    pure (out (← computeMa source period .ema))
  | .indRsi =>
    let source ← series inputs 0
    let period ← intParam params "period"
    pure (out (← computeRsi source period))
  | .indAtr =>
    let period ← intParam params "period"
    pure (out (← computeAtr (frame.column Row.high) (frame.column Row.low)
      (frame.column Row.close) period))
  | .indMacd =>
    let source ← series inputs 0
    let fast ← intParam params "fast_period"
    let slow ← intParam params "slow_period"
    let signal ← intParam params "signal_period"
    let macd ← computeMacd source fast slow signal
    pure [("macd", .numbers macd.1), ("macd_signal", .numbers macd.2.1),
      ("macd_histogram", .numbers macd.2.2)]
  | .indBollinger =>
    let source ← series inputs 0
    let period ← intParam params "period"
    let numStd ← floatParam params "num_std"
    let bands ← computeBollingerBands source period numStd
    pure [("bb_upper", .numbers bands.1), ("bb_middle", .numbers bands.2.1),
      ("bb_lower", .numbers bands.2.2)]
  | .indDonchian =>
    let period ← intParam params "period"
    let channel ← computeDonchianChannels (frame.column Row.high) (frame.column Row.low) period
    pure [("donchian_upper", .numbers channel.1), ("donchian_lower", .numbers channel.2)]
  | .indMomentum =>
    let source ← series inputs 0
    let lookback ← intParam params "lookback_bars"
    pure (out (relativeChange lookback source))
  | .indRealizedVol =>
    let source ← series inputs 0
    let window ← intParam params "window"
    let estimator := ((params.lookup "estimator").getD (.str "close_to_close")).toStr F
    pure (out (← estimateVolatility frame source estimator window))
  | .indDiff =>
    let left ← series inputs 0
    let right ← series inputs 1
    pure (out (List.zipWith sub left right))
  | .indRatio =>
    let left ← series inputs 0
    let right ← series inputs 1
    pure (out (List.zipWith (fun l r => sub (div l r) one) left right))
  | .indTrbChannel =>
    let close ← series inputs 0
    let period ← intParam params "period"
    let bandPct ← floatParam params "band_pct"
    let channel ← computeTrbChannel close period bandPct
    pure [("channel_high", .numbers channel.1), ("channel_low", .numbers channel.2.1),
      ("trb_upper", .numbers channel.2.2.1), ("trb_lower", .numbers channel.2.2.2)]
  | .indMaBand =>
    let ma ← series inputs 0
    let bandPct ← floatParam params "band_pct"
    let band := div bandPct (ofRat 100)
    pure [("ma_band_upper", .numbers (ma.map fun x => mul x (add one band))),
      ("ma_band_lower", .numbers (ma.map fun x => mul x (sub one band)))]
  | .indTsmom => evaluateTsmom frame params
  | .indTrendBlend => evaluateTrendBlend params inputs
  | _ => evaluateLatent frame latents params

/-! ## Transforms -/

def evaluateTransform (kind : NodeKind) (params : Params) (inputs : List (Column F)) :
    Except Failure (Outputs F) := do
  match kind with
  | .transformShift =>
    let source ← input inputs 0
    let bars ← ((params.lookup "bars").getD (.int 1)).toInt
    pure [("out", source.shift bars)]
  | .transformAbs =>
    let source ← input inputs 0
    pure [("out", source.abs)]
  | .transformScale =>
    let source ← series inputs 0
    let factor : F ← floatParam params "factor"
    pure (out (source.map fun x => mul x factor))
  | .transformZscore =>
    let source ← series inputs 0
    let window ← intParam params "window"
    pure (out (← computeRollingZscore source window))
  | .transformRank =>
    let source ← series inputs 0
    let window ← intParam params "window"
    pure (out (← computeRollingRank source window))
  | .transformPctChange =>
    let source ← series inputs 0
    let changeBars ← intParam params "change_bars"
    pure (out (← computePctChange source changeBars))
  | _ =>
    let source ← series inputs 0
    let low ← floatParam params "clip_low"
    let high ← floatParam params "clip_high"
    pure (out (← computeClip source low high))

/-! ## Features -/

/-- The distance of the close from a level of the session before, in units of the ATR. -/
def evaluateSessionDistance (frame : Frame F) (params : Params) (agg : List (Row F) → F) :
    Except Failure (Outputs F) := do
  let period ← intParam params "atr_period"
  pure (out (← computeDistanceAtr (frame.column Row.close) (mapPreviousSession frame agg)
    (frame.column Row.high) (frame.column Row.low) period))

def evaluateOpeningRange (frame : Frame F) (params : Params) :
    Except Failure (List F × List F) := do
  let sessionOpen ← strParam F params "session_open"
  let rangeMinutes ← intParam params "range_minutes"
  computeOpeningRangeLevels frame sessionOpen rangeMinutes

def evaluateFeatureNode (frame : Frame F) (kind : NodeKind) (params : Params)
    (inputs : List (Column F)) : Except Failure (Outputs F) := do
  match kind with
  | .featureMinutesFromOpen =>
    pure (out (← computeMinutesFromOpen frame (← strParam F params "session_open")))
  | .featureTimeOfDay =>
    let sessionOpen ← strParam F params "session_open"
    let sessionClose ← strParam F params "session_close"
    pure (out (← computeTimeOfDay frame sessionOpen sessionClose))
  | .featureDayOfWeek => pure (out (computeDayOfWeek frame))
  | .featureMonthOfYear => pure (out (computeMonthOfYear frame))
  | .featureSessionWindow =>
    let windowFrom ← strParam F params "window_from"
    let windowTo ← strParam F params "window_to"
    pure (outBools (← computeSessionWindow frame windowFrom windowTo))
  | .featureVolRegime =>
    let source ← series inputs 0
    let window ← intParam params "window"
    let lookback ← intParam params "regime_lookback"
    pure (out (← computeVolRegime source window lookback))
  | .featureTrendRegime =>
    let source ← series inputs 0
    let period ← intParam params "ma_period"
    pure (out (← computeTrendRegime source period))
  | .featureRangeCompression =>
    let source ← series inputs 0
    let _ ← intParam params "window"
    let lookback ← intParam params "regime_lookback"
    pure (out (← computeRangeCompression (frame.column Row.high) (frame.column Row.low) source
      lookback))
  | .featurePrevSessionHigh | .featureD1PrevHigh =>
    pure (out (mapPreviousSession frame sessionHigh))
  | .featurePrevSessionLow | .featureD1PrevLow =>
    pure (out (mapPreviousSession frame sessionLow))
  | .featurePrevSessionClose | .featureD1PrevClose =>
    pure (out (mapPreviousSession frame sessionClose))
  | .featureSessionGap => pure (out (computeSessionGap frame))
  | .featureD1Trend => pure (out (computeD1Trend frame))
  | .featureD1Volatility => pure (out (← computeD1Volatility frame))
  | .featureDistPrevSessionHighAtr => evaluateSessionDistance frame params sessionHigh
  | .featureDistPrevSessionLowAtr => evaluateSessionDistance frame params sessionLow
  | .featureDistPrevSessionCloseAtr => evaluateSessionDistance frame params sessionClose
  | .featureOpeningRangeHigh => pure (out (← evaluateOpeningRange frame params).1)
  | _ => pure (out (← evaluateOpeningRange frame params).2)

/-! ## Booleans and exits -/

/-- pandas gives false where a side is missing. -/
def logical (op : Bool → Bool → Bool) (a b : Option Bool) : Option Bool :=
  match a, b with
  | some a, some b => some (op a b)
  | _, _ => some false

/-- A comparison of the row and one of the row before, of two series. -/
def crossing (now before : F → F → Bool) (left right : List F) : List Bool :=
  List.zipWith (fun a b => a && b) (List.zipWith now left right)
    (List.zipWith before (previous left) (previous right))

def gt (a b : F) : Bool := lt b a

def ge (a b : F) : Bool := le b a

/-- A cross of two series, or of one series and the threshold. -/
def evaluateCross (now before : F → F → Bool) (params : Params) (inputs : List (Column F)) :
    Except Failure (Outputs F) := do
  if inputs.length = 1 then
    let source ← series inputs 0
    let threshold ← ((params.lookup "threshold").getD (.float 0)).toFloat
    pure (outBools (List.zipWith (fun x p => now x threshold && before p threshold) source
      (previous source)))
  else
    let left ← series inputs 0
    let right ← series inputs 1
    pure (outBools (crossing now before left right))

def evaluateComparison (compare : F → F → Bool) (inputs : List (Column F)) :
    Except Failure (Outputs F) := do
  let left ← series inputs 0
  let right ← series inputs 1
  pure (outBools (List.zipWith compare left right))

def evaluateTouch (now before : F → F → Bool) (inputs : List (Column F)) :
    Except Failure (Outputs F) := do
  let close ← series inputs 0
  let band ← series inputs 1
  pure (outBools (crossing now before close band))

/-- The close of the row before against the channel of the row. -/
def evaluateBreakout (now before : F → F → Bool) (inputs : List (Column F)) :
    Except Failure (Outputs F) := do
  let close ← series inputs 0
  let band ← series inputs 1
  let channel ← series inputs 2
  pure (outBools (List.zipWith (fun a b => a && b) (List.zipWith before (previous close) channel)
    (List.zipWith now close band)))

def evaluateLogic (op : Bool → Bool → Bool) (inputs : List (Column F)) :
    Except Failure (Outputs F) := do
  let left ← input inputs 0
  let right ← input inputs 1
  pure [("out", .bools (List.zipWith (logical op) left.flags right.flags))]

def evaluateBoolNode (kind : NodeKind) (params : Params) (inputs : List (Column F)) :
    Except Failure (Outputs F) := do
  match kind with
  | .logicAnd => evaluateLogic (fun a b => a && b) inputs
  | .logicOr => evaluateLogic (fun a b => a || b) inputs
  | .logicNot =>
    let source ← input inputs 0
    pure (outBools (source.signals.map fun b => !b))
  | .cmpGt => evaluateComparison gt inputs
  | .cmpLt => evaluateComparison lt inputs
  | .cmpGte => evaluateComparison ge inputs
  | .cmpLte => evaluateComparison le inputs
  | .cmpCrossAbove => evaluateCross gt le params inputs
  | .cmpCrossBelow => evaluateCross lt ge params inputs
  | .cmpTouchBelow => evaluateTouch lt ge inputs
  | .cmpTouchAbove => evaluateTouch gt le inputs
  | .cmpTrbBreakoutAbove => evaluateBreakout gt le inputs
  | _ => evaluateBreakout lt ge inputs

def evaluateMiddleBand (inputs : List (Column F)) : Except Failure (Outputs F) := do
  let close ← series inputs 0
  let middle ← series inputs 1
  pure [("exit_long", .bools ((crossing gt le close middle).map some)),
    ("exit_short", .bools ((crossing lt ge close middle).map some))]

/-! ## Every kind -/

/-- The columns that the node writes; exit policies other than the middle band write none. -/
def evaluateKind (frame : Frame F) (latents : Option (Latents F)) (kind : NodeKind)
    (params : Params) (inputs : List (Column F)) : Except Failure (Outputs F) :=
  match kind with
  | .sourceClose => .ok (out (frame.column Row.close))
  | .sourceHigh => .ok (out (frame.column Row.high))
  | .sourceLow => .ok (out (frame.column Row.low))
  | .sourceOpen => .ok (out (frame.column Row.opn))
  | .sourceVolume => .ok (out (frame.column Row.volume))
  | .exitMiddleBand => evaluateMiddleBand inputs
  | kind =>
    match kind.family with
    | .source => evaluateExog frame kind params
    | .ind => evaluateIndicator frame latents kind params inputs
    | .transform => evaluateTransform kind params inputs
    | .feature => evaluateFeatureNode frame kind params inputs
    | .cmp | .logic => evaluateBoolNode kind params inputs
    | .exit => .ok []

end Columns

end QBackend.GenomeDsl
