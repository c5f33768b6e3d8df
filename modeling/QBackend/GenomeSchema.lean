import QBackend.SessionContext
import QBackend.KeyedTables
import Mathlib.Data.Rat.Defs

/-!
# Genomes

`schema.py`, `node_specs.py` and `param_bounds.py`: the documents of the genome DSL, the node
kinds with their arity, ports and parameters, and the parameters that a search may set. Documents
with a kind outside the table are rejected at once, so kinds are an enumeration here.
-/

namespace QBackend.GenomeDsl

/-! ## Parameter values -/

/-- A JSON value; `other` is a list or an object, known by its text. -/
inductive Value where
  | int (n : ℤ)
  | float (q : ℚ)
  | bool (b : Bool)
  | str (s : String)
  | null
  | other (text : String)
  deriving DecidableEq, Repr

namespace Value

/-- The number of an `int` or a `float`; a `bool` is an `int` in Python. -/
def number? : Value → Option ℚ
  | .int n => some n
  | .float q => some q
  | .bool b => some (if b then 1 else 0)
  | _ => none

def isInt : Value → Bool
  | .int _ | .bool _ => true
  | _ => false

def negate : Value → Value
  | .int n => .int (-n)
  | .float q => .float (-q)
  | .bool b => .int (if b then -1 else 0)
  | v => v

/-- Decimal digits, with single underscores between them. -/
def readDigits (value : ℕ) (afterDigit : Bool) : List Char → Option ℕ
  | [] => if afterDigit then some value else none
  | '_' :: cs => if afterDigit then readDigits value false cs else none
  | c :: cs => (digit? c).bind fun d => readDigits (10 * value + d) true cs

def readInt : List Char → Option ℤ
  | '-' :: cs => (readDigits 0 false cs).map fun n => -(n : ℤ)
  | '+' :: cs => (readDigits 0 false cs).map fun n => (n : ℤ)
  | cs => (readDigits 0 false cs).map fun n => (n : ℤ)

/-- `int(value)`. -/
def toInt : Value → Except Failure ℤ
  | .int n => .ok n
  | .float q => .ok (q.num.tdiv q.den)
  | .bool b => .ok (if b then 1 else 0)
  | .str s =>
    match readInt (strip s).toList with
    | some n => .ok n
    | none => .error (.valueError "invalid literal for int() with base 10")
  | .null | .other _ => .error (.typeError "int() argument must be a string or a real number")

variable {F : Type} [PriceFloat F]

/-- `float(value)`. -/
def toFloat : Value → Except Failure F
  | .int n => .ok (PriceFloat.ofRat n)
  | .float q => .ok (PriceFloat.ofRat q)
  | .bool b => .ok (PriceFloat.ofRat (if b then 1 else 0))
  | .str s =>
    match PriceFloat.ofString s with
    | some x => .ok x
    | none => .error (.valueError "could not convert string to float")
  | .null | .other _ => .error (.typeError "float() argument must be a string or a real number")

variable (F) in
/-- `str(value)`. -/
def toStr : Value → String
  | .int n => toString n
  | .float q => PriceFloat.reprRat F q
  | .bool b => if b then "True" else "False"
  | .str s => s
  | .null => "None"
  | .other text => text

end Value

/-- A literal, or a reference to a parameter of the search. -/
inductive ParamValue where
  | lit (value : Value)
  | ref (param : String) (negate : Bool)
  deriving DecidableEq, Repr

/-! ## Node kinds -/

inductive OutputType where
  | priceSeries | oscillator | boolSeries | exitPolicy
  deriving DecidableEq, Repr

inductive NodeKind where
  | sourceClose | sourceHigh | sourceLow | sourceOpen | sourceVolume | sourceExogClose
  | sourceExogReturn | sourceExogReturnZscore | sourceExogRollingCorr
  | sourceExogRelativeStrength | sourceExogVolRegime | sourceExogDirectionRegime | indMa | indEma
  | indRsi | indAtr | indMacd | indBollinger | indDonchian | indMomentum | indRealizedVol
  | indDiff | indRatio | indTrbChannel | indMaBand | indTsmom | transformShift | transformAbs
  | transformScale | transformZscore | transformRank | transformPctChange | transformClip
  | featureMinutesFromOpen | featureTimeOfDay | featureDayOfWeek | featureMonthOfYear
  | featureSessionWindow | featureVolRegime | featureTrendRegime | featureRangeCompression
  | featurePrevSessionHigh | featurePrevSessionLow | featurePrevSessionClose | featureSessionGap
  | featureDistPrevSessionHighAtr | featureDistPrevSessionLowAtr | featureDistPrevSessionCloseAtr
  | featureOpeningRangeHigh | featureOpeningRangeLow | featureD1PrevHigh | featureD1PrevLow
  | featureD1PrevClose | featureD1Trend | featureD1Volatility | cmpGt | cmpLt | cmpGte | cmpLte
  | cmpCrossAbove | cmpCrossBelow | cmpTouchBelow | cmpTouchAbove | cmpTrbBreakoutAbove
  | cmpTrbBreakoutBelow | logicAnd | logicOr | logicNot | exitOppositeSignal | exitMiddleBand
  | exitFixedHolding | exitRebalance | indTrendBlend | indLatent
  deriving DecidableEq, Repr

/-- The part of the kind before the first dot. -/
inductive NodeFamily where
  | source | ind | transform | feature | cmp | logic | exit
  deriving DecidableEq, Repr

def NodeKind.family : NodeKind → NodeFamily
  | .sourceClose | .sourceHigh | .sourceLow | .sourceOpen | .sourceVolume | .sourceExogClose
  | .sourceExogReturn | .sourceExogReturnZscore | .sourceExogRollingCorr
  | .sourceExogRelativeStrength | .sourceExogVolRegime | .sourceExogDirectionRegime => .source
  | .indMa | .indEma | .indRsi | .indAtr | .indMacd | .indBollinger | .indDonchian | .indMomentum
  | .indRealizedVol | .indDiff | .indRatio | .indTrbChannel | .indMaBand | .indTsmom
  | .indTrendBlend | .indLatent => .ind
  | .transformShift | .transformAbs | .transformScale | .transformZscore | .transformRank
  | .transformPctChange | .transformClip => .transform
  | .cmpGt | .cmpLt | .cmpGte | .cmpLte | .cmpCrossAbove | .cmpCrossBelow | .cmpTouchBelow
  | .cmpTouchAbove | .cmpTrbBreakoutAbove | .cmpTrbBreakoutBelow => .cmp
  | .logicAnd | .logicOr | .logicNot => .logic
  | .exitOppositeSignal | .exitMiddleBand | .exitFixedHolding | .exitRebalance => .exit
  | _ => .feature

structure NodeSpec where
  minInputs : ℕ
  maxInputs : ℕ
  inputSeriesTypes : Option (List OutputType)
  ports : List (String × OutputType)
  allowedParamKeys : List String

/-- `NODE_SPECS`. -/
def nodeSpec : NodeKind → NodeSpec
  | .sourceClose => ⟨0, 0, none, [("out", .priceSeries)], []⟩
  | .sourceHigh => ⟨0, 0, none, [("out", .priceSeries)], []⟩
  | .sourceLow => ⟨0, 0, none, [("out", .priceSeries)], []⟩
  | .sourceOpen => ⟨0, 0, none, [("out", .priceSeries)], []⟩
  | .sourceVolume => ⟨0, 0, none, [("out", .priceSeries)], []⟩
  | .sourceExogClose => ⟨0, 0, none, [("out", .priceSeries)], ["symbol"]⟩
  | .sourceExogReturn => ⟨0, 0, none, [("out", .oscillator)], ["symbol", "lookback_bars"]⟩
  | .sourceExogReturnZscore =>
    ⟨0, 0, none,
      [("out", .oscillator)],
      ["symbol", "lookback_bars", "window"]⟩
  | .sourceExogRollingCorr => ⟨0, 0, none, [("out", .oscillator)], ["symbol", "window"]⟩
  | .sourceExogRelativeStrength => ⟨0, 0, none, [("out", .oscillator)], ["symbol", "lookback_bars"]⟩
  | .sourceExogVolRegime => ⟨0, 0, none, [("out", .boolSeries)], ["symbol", "vol_window"]⟩
  | .sourceExogDirectionRegime => ⟨0, 0, none, [("out", .boolSeries)], ["symbol", "lookback_bars"]⟩
  | .indMa => ⟨1, 1, some [.priceSeries], [("out", .priceSeries)], ["period", "ma_type"]⟩
  | .indEma => ⟨1, 1, some [.priceSeries], [("out", .priceSeries)], ["period"]⟩
  | .indRsi => ⟨1, 1, some [.priceSeries], [("out", .oscillator)], ["period"]⟩
  | .indAtr => ⟨0, 0, none, [("out", .oscillator)], ["period"]⟩
  | .indMacd =>
    ⟨1, 1, some [.priceSeries],
      [("macd", .oscillator), ("macd_signal", .oscillator), ("macd_histogram", .oscillator)],
      ["fast_period", "slow_period", "signal_period"]⟩
  | .indBollinger =>
    ⟨1, 1, some [.priceSeries],
      [("bb_upper", .priceSeries), ("bb_middle", .priceSeries), ("bb_lower", .priceSeries)],
      ["period", "num_std"]⟩
  | .indDonchian =>
    ⟨0, 0, none,
      [("donchian_upper", .priceSeries), ("donchian_lower", .priceSeries)],
      ["period"]⟩
  | .indMomentum => ⟨1, 1, some [.priceSeries], [("out", .oscillator)], ["lookback_bars"]⟩
  | .indRealizedVol => ⟨1, 1, some [.priceSeries], [("out", .oscillator)], ["window", "estimator"]⟩
  | .indDiff => ⟨2, 2, some [.priceSeries, .priceSeries], [("out", .priceSeries)], []⟩
  | .indRatio => ⟨2, 2, some [.priceSeries, .oscillator], [("out", .oscillator)], []⟩
  | .indTrbChannel =>
    ⟨1, 1, some [.priceSeries],
      [("channel_high", .priceSeries),
        ("channel_low", .priceSeries),
        ("trb_upper", .priceSeries),
        ("trb_lower", .priceSeries)],
      ["period", "band_pct"]⟩
  | .indMaBand =>
    ⟨1, 1, some [.priceSeries],
      [("ma_band_upper", .priceSeries), ("ma_band_lower", .priceSeries)],
      ["band_pct"]⟩
  | .indTsmom =>
    ⟨0, 0, none,
      [("buy_signal", .boolSeries),
        ("sell_signal", .boolSeries),
        ("momentum", .oscillator),
        ("volatility", .oscillator)],
      ["lookback_bars", "rebalance_bars", "vol_window", "vol_estimator"]⟩
  | .transformShift => ⟨1, 1, none, [("out", .priceSeries)], ["bars"]⟩
  | .transformAbs => ⟨1, 1, none, [("out", .priceSeries)], []⟩
  | .transformScale => ⟨1, 1, none, [("out", .priceSeries)], ["factor"]⟩
  | .transformZscore => ⟨1, 1, none, [("out", .oscillator)], ["window"]⟩
  | .transformRank => ⟨1, 1, none, [("out", .oscillator)], ["window"]⟩
  | .transformPctChange => ⟨1, 1, none, [("out", .oscillator)], ["change_bars"]⟩
  | .transformClip => ⟨1, 1, none, [("out", .priceSeries)], ["clip_low", "clip_high"]⟩
  | .featureMinutesFromOpen => ⟨0, 0, none, [("out", .oscillator)], ["session_open"]⟩
  | .featureTimeOfDay => ⟨0, 0, none, [("out", .oscillator)], ["session_open", "session_close"]⟩
  | .featureDayOfWeek => ⟨0, 0, none, [("out", .oscillator)], []⟩
  | .featureMonthOfYear => ⟨0, 0, none, [("out", .oscillator)], []⟩
  | .featureSessionWindow => ⟨0, 0, none, [("out", .boolSeries)], ["window_from", "window_to"]⟩
  | .featureVolRegime =>
    ⟨1, 1, some [.priceSeries],
      [("out", .oscillator)],
      ["window", "regime_lookback"]⟩
  | .featureTrendRegime => ⟨1, 1, some [.priceSeries], [("out", .oscillator)], ["ma_period"]⟩
  | .featureRangeCompression =>
    ⟨1, 1, some [.priceSeries],
      [("out", .oscillator)],
      ["window", "regime_lookback"]⟩
  | .featurePrevSessionHigh => ⟨0, 0, none, [("out", .priceSeries)], []⟩
  | .featurePrevSessionLow => ⟨0, 0, none, [("out", .priceSeries)], []⟩
  | .featurePrevSessionClose => ⟨0, 0, none, [("out", .priceSeries)], []⟩
  | .featureSessionGap => ⟨0, 0, none, [("out", .oscillator)], []⟩
  | .featureDistPrevSessionHighAtr => ⟨0, 0, none, [("out", .oscillator)], ["atr_period"]⟩
  | .featureDistPrevSessionLowAtr => ⟨0, 0, none, [("out", .oscillator)], ["atr_period"]⟩
  | .featureDistPrevSessionCloseAtr => ⟨0, 0, none, [("out", .oscillator)], ["atr_period"]⟩
  | .featureOpeningRangeHigh =>
    ⟨0, 0, none,
      [("out", .priceSeries)],
      ["session_open", "range_minutes"]⟩
  | .featureOpeningRangeLow =>
    ⟨0, 0, none,
      [("out", .priceSeries)],
      ["session_open", "range_minutes"]⟩
  | .featureD1PrevHigh => ⟨0, 0, none, [("out", .priceSeries)], []⟩
  | .featureD1PrevLow => ⟨0, 0, none, [("out", .priceSeries)], []⟩
  | .featureD1PrevClose => ⟨0, 0, none, [("out", .priceSeries)], []⟩
  | .featureD1Trend => ⟨0, 0, none, [("out", .oscillator)], []⟩
  | .featureD1Volatility => ⟨0, 0, none, [("out", .oscillator)], []⟩
  | .cmpGt => ⟨2, 2, some [.priceSeries, .priceSeries], [("out", .boolSeries)], []⟩
  | .cmpLt => ⟨2, 2, some [.priceSeries, .priceSeries], [("out", .boolSeries)], []⟩
  | .cmpGte => ⟨2, 2, some [.priceSeries, .priceSeries], [("out", .boolSeries)], []⟩
  | .cmpLte => ⟨2, 2, some [.priceSeries, .priceSeries], [("out", .boolSeries)], []⟩
  | .cmpCrossAbove => ⟨1, 2, none, [("out", .boolSeries)], ["threshold", "negate"]⟩
  | .cmpCrossBelow => ⟨1, 2, none, [("out", .boolSeries)], ["threshold", "negate"]⟩
  | .cmpTouchBelow => ⟨2, 2, some [.priceSeries, .priceSeries], [("out", .boolSeries)], []⟩
  | .cmpTouchAbove => ⟨2, 2, some [.priceSeries, .priceSeries], [("out", .boolSeries)], []⟩
  | .cmpTrbBreakoutAbove =>
    ⟨3, 3, some [.priceSeries, .priceSeries, .priceSeries],
      [("out", .boolSeries)],
      []⟩
  | .cmpTrbBreakoutBelow =>
    ⟨3, 3, some [.priceSeries, .priceSeries, .priceSeries],
      [("out", .boolSeries)],
      []⟩
  | .logicAnd => ⟨2, 2, none, [("out", .boolSeries)], []⟩
  | .logicOr => ⟨2, 2, none, [("out", .boolSeries)], []⟩
  | .logicNot => ⟨1, 1, none, [("out", .boolSeries)], []⟩
  | .exitOppositeSignal => ⟨0, 0, none, [("out", .exitPolicy)], []⟩
  | .exitMiddleBand =>
    ⟨2, 2, some [.priceSeries, .priceSeries],
      [("exit_long", .boolSeries), ("exit_short", .boolSeries)],
      []⟩
  | .exitFixedHolding => ⟨0, 0, none, [("out", .exitPolicy)], ["holding_period"]⟩
  | .exitRebalance => ⟨0, 0, none, [("out", .exitPolicy)], []⟩
  | .indTrendBlend =>
    ⟨1, 1, some [.priceSeries],
      [("out", .oscillator), ("volatility", .oscillator)],
      ["lookback_1", "lookback_2", "lookback_3", "vol_window"]⟩
  | .indLatent => ⟨0, 0, none, [("out", .oscillator)], ["latent_index"]⟩

def portOutputType (kind : NodeKind) (port : String) : Option OutputType :=
  (nodeSpec kind).ports.lookup port

/-! ## Documents -/

theorem nodup_noKeys : (([] : List (String × ParamValue)).map Prod.fst).Nodup := List.nodup_nil

structure GenomeNode where
  id : String
  kind : NodeKind
  params : List (String × ParamValue) := []
  inputs : List String := []
  /-- The params are a dict. -/
  keysNodup : (params.map Prod.fst).Nodup := by
    first | exact QBackend.GenomeDsl.nodup_noKeys | decide

/-- The `exit_rule_policy` of the metadata; `params` is none when it is not an object. -/
structure ExitRulePolicy where
  presetId : Option String
  params : Option (List (String × ParamValue))

structure Genome where
  nodes : List GenomeNode
  entryLong : String
  entryShort : String
  exitLong : String
  exitShort : String
  exitRulePolicy : Option ExitRulePolicy := none

/-- The node and the port of a reference `node:port`; the port is `out` when there is no colon. -/
def parseInputRef (raw : String) : String × String :=
  match raw.toList.span (· ≠ ':') with
  | (_, []) => (raw, "out")
  | (node, _ :: port) => (String.ofList node, String.ofList port)

def GenomeNode.parents (node : GenomeNode) : List String :=
  node.inputs.map fun raw => (parseInputRef raw).1

def Genome.ids (genome : Genome) : List String := genome.nodes.map GenomeNode.id

def Genome.node? (genome : Genome) (id : String) : Option GenomeNode :=
  KeyedTables.lookup GenomeNode.id genome.nodes id

/-- The parents by id, none for an id that is not there. -/
def Genome.parents (genome : Genome) (id : String) : List String :=
  ((genome.node? id).map GenomeNode.parents).getD []

/-! ## Parameter bounds -/

inductive Bounds where
  | int (min max : ℤ)
  | float (min max : ℚ)
  | choices (choices : List String)

structure ParamSpec where
  default : Value
  bounds : Bounds

def maTypeChoices : List String := ["ema", "hma", "sma", "smma", "wma"]

/-- `GENOME_PARAM_BOUNDS`, with the keys that the exit rules register. -/
def genomeParamBounds : List (String × ParamSpec) :=
  [("short_period", ⟨.int 50, .int 5 60⟩),
    ("long_period", ⟨.int 200, .int 50 300⟩),
    ("short_ma_type", ⟨.str "sma", .choices maTypeChoices⟩),
    ("long_ma_type", ⟨.str "sma", .choices maTypeChoices⟩),
    ("threshold", ⟨.float 0, .float (-3) 3⟩),
    ("period", ⟨.int 20, .int 10 100⟩),
    ("oversold", ⟨.float 30, .float 15 40⟩),
    ("overbought", ⟨.float 70, .float 60 85⟩),
    ("num_std", ⟨.float 2, .float 1 3⟩),
    ("fast_period", ⟨.int 12, .int 5 20⟩),
    ("slow_period", ⟨.int 26, .int 20 60⟩),
    ("signal_period", ⟨.int 9, .int 5 15⟩),
    ("band_pct", ⟨.float 0, .float 0 1⟩),
    ("holding_period", ⟨.int 10, .int 5 30⟩),
    ("ma_type", ⟨.str "sma", .choices maTypeChoices⟩),
    ("lookback_bars", ⟨.int 252, .int 60 360⟩),
    ("rebalance_bars", ⟨.int 21, .int 10 60⟩),
    ("vol_window", ⟨.int 63, .int 20 120⟩),
    ("vol_estimator", ⟨.str "yang_zhang", .choices ["yang_zhang", "close_to_close"]⟩),
    ("factor", ⟨.float 1, .float (1 / 2) 3⟩),
    ("lookback_1", ⟨.int 21, .int 10 60⟩),
    ("lookback_2", ⟨.int 63, .int 30 150⟩),
    ("lookback_3", ⟨.int 252, .int 100 400⟩),
    ("latent_index", ⟨.int 0, .int 0 31⟩),
    ("window", ⟨.int 63, .int 5 200⟩),
    ("change_bars", ⟨.int 1, .int 1 100⟩),
    ("clip_low", ⟨.float (-3), .float (-5) 0⟩),
    ("clip_high", ⟨.float 3, .float 0 5⟩),
    ("regime_lookback", ⟨.int 63, .int 20 500⟩),
    ("ma_period", ⟨.int 20, .int 10 100⟩),
    ("atr_period", ⟨.int 14, .int 7 28⟩),
    ("range_minutes", ⟨.int 60, .int 15 120⟩),
    ("exit_stop_loss_pct", ⟨.int 0, .float 0 (1 / 20)⟩),
    ("exit_stop_loss_atr", ⟨.int 0, .float 0 4⟩),
    ("exit_atr_period", ⟨.int 14, .int 7 28⟩),
    ("exit_take_profit_pct", ⟨.int 0, .float 0 (1 / 10)⟩),
    ("exit_take_profit_atr", ⟨.int 0, .float 0 6⟩),
    ("exit_trailing_stop_pct", ⟨.int 0, .float 0 (3 / 50)⟩),
    ("exit_chandelier_atr_mult", ⟨.int 0, .float 0 10⟩),
    ("exit_breakeven_trigger_pct", ⟨.int 0, .float 0 (3 / 100)⟩),
    ("exit_breakeven_offset_pct", ⟨.float 0, .float (1 / 2000) (1 / 200)⟩),
    ("exit_psar_af_start", ⟨.int 0, .float 0 (1 / 10)⟩),
    ("exit_psar_af_step", ⟨.float (1 / 50), .float 0 (1 / 10)⟩),
    ("exit_psar_af_max", ⟨.float (1 / 5), .float 0 1⟩),
    ("exit_target_ratchet_atr", ⟨.int 0, .float 0 20⟩),
    ("exit_max_bars_in_trade", ⟨.int 0, .int 0 5000⟩),
    ("exit_donchian_exit_period", ⟨.int 0, .int 0 500⟩)]

/-- A value that the search may give the parameter. -/
def Bounds.admits : Bounds → Value → Bool
  | .int lo hi, .int n => decide (lo ≤ n ∧ n ≤ hi)
  | .float lo hi, .int n => decide (lo ≤ n ∧ n ≤ hi)
  | .float lo hi, .float q => decide (lo ≤ q ∧ q ≤ hi)
  | .choices cs, .str s => cs.contains s
  | _, _ => false

/-- The parameters of a trial. -/
abbrev TrialParams := String → Option Value

/-- Every parameter that is set is one of the table and within its bounds. -/
def InBounds (trial : TrialParams) : Prop :=
  ∀ key value, trial key = some value →
    ∃ spec, genomeParamBounds.lookup key = some spec ∧ spec.bounds.admits value = true

end QBackend.GenomeDsl
