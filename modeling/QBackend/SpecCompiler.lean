import QBackend.StrategySpecs
import Mathlib.Algebra.Group.Nat.Defs

/-!
# The compiler of strategy specs

`compiler.py`: a valid spec becomes one of two registered strategies, or a genome. `_GenomeBuilder`
is a record of the nodes built so far that the methods pass along; its dictionaries are lists of
pairs in the order of insertion. The digest of a compiled strategy is not computed, only what
`json.dumps` may raise on the way to it.
-/

namespace QBackend.StrategyBuilder

open GenomeDsl FallibleSteps

inductive CompileFailure where
  /-- A `StrategyCompileError` of status `validation_failed`. -/
  | validationFailed (errors : List ValidationErrorDetail)
  /-- A `StrategyCompileError` of status `compile_failed`. -/
  | compileFailed (message : String) (errors : List ValidationErrorDetail)
  /-- The `GenomeValidationError` is reraised as a `StrategyCompileError`. -/
  | genomeInvalid (error : ValidationError)
  | keyError (key : String)
  | overflowError
  | valueError
  /-- What the validator itself raised. -/
  | validatorRaised (failure : Failure)
  deriving DecidableEq, Repr

abbrev Compile := Except CompileFailure

/-- A `StrategyCompileError` that is given no error details. -/
def refuse (message : String) : CompileFailure :=
  .compileFailed message [⟨"", "compile_failed", message, []⟩]

/-! ## Tables of the compiler -/

def operatorToCmpKind : List (String × NodeKind) :=
  [(">", .cmpGt), ("<", .cmpLt), (">=", .cmpGte), ("<=", .cmpLte),
    ("crosses_above", .cmpCrossAbove), ("crosses_below", .cmpCrossBelow)]

def sourceKindByColumn : List (String × NodeKind) :=
  [("open", .sourceOpen), ("high", .sourceHigh), ("low", .sourceLow), ("close", .sourceClose),
    ("volume", .sourceVolume)]

/-- The column has a source node. -/
def isSource (column : String) : Bool := (sourceKindByColumn.lookup column).isSome

/-- `_INDICATOR_OUTPUT_PORTS`: the port of the node for each port of the spec. -/
def nodeOutputPorts : List (String × List (String × String)) :=
  [("sma", [("", "out")]),
    ("ema", [("", "out")]),
    ("rsi", [("", "out")]),
    ("atr", [("", "out")]),
    ("donchian", [("upper", "donchian_upper"), ("lower", "donchian_lower")]),
    ("bollinger_bands", [("upper", "bb_upper"), ("middle", "bb_middle"), ("lower", "bb_lower")])]

/-! ## Operands and conditions -/

/-- `float` of an integer raises from the midpoint above the largest double on. -/
def floatLimit : ℕ := 2 ^ 1024 - 2 ^ 970

/-- `float(operand)`, for a number. -/
def Operand.toFloat : Operand → Compile ℚ
  | .int n => if n.natAbs < floatLimit then .ok n else .error .overflowError
  | .float q => .ok q
  | .text _ => .error .valueError

def Operand.isNumber : Operand → Bool
  | .text _ => false
  | .int _ | .float _ => true

/-- The operand as it stands in a summary. -/
def Operand.toStr (F : Type) [PriceFloat F] : Operand → String
  | .text ref => ref
  | .int n => toString n
  | .float q => PriceFloat.reprRat F q

def isCrossing (op : String) : Bool := op = "crosses_above" || op = "crosses_below"

def ConditionLeaf.comparison? : ConditionLeaf → Option ComparisonCondition
  | .comparison condition => some condition
  | _ => none

def comparisonConditions (group : ConditionGroup) : List ComparisonCondition :=
  group.conditions.filterMap ConditionLeaf.comparison?

def exitRuleConditions (group : ConditionGroup) : List ConditionLeaf :=
  group.conditions.filter fun leaf => !leaf.isComparison

/-- The value of `_indicators_by_id`, where the last indicator of an id stands. -/
def StrategySpec.indicator? (spec : StrategySpec) (id : String) : Option IndicatorSpec :=
  spec.indicators.reverse.find? fun indicator => indicator.id = id

/-! ## The builder -/

structure Builder where
  nodes : List GenomeNode := []
  nodeCounter : ℕ := 0
  indicatorNodes : List (String × String) := []
  sourceNodes : List (String × String) := []

def nodeName (n : ℕ) : String := "n" ++ toString n

def Builder.addNode (b : Builder) (kind : NodeKind) (params : List (String × ParamValue))
    (inputs : List String) (keys : (params.map Prod.fst).Nodup := by simp) : String × Builder :=
  let id := nodeName (b.nodeCounter + 1)
  (id, { b with
    nodeCounter := b.nodeCounter + 1
    nodes := b.nodes ++ [⟨id, kind, params, inputs, keys⟩] })

def Builder.sourceNode (b : Builder) (column : String) : Compile (String × Builder) :=
  match b.sourceNodes.lookup column with
  | some id => .ok (id, b)
  | none =>
    match sourceKindByColumn.lookup column with
    | none => .error (refuse s!"Unsupported price source '{column}'.")
    | some kind =>
      let (id, b) := b.addNode kind [] []
      .ok (id, { b with sourceNodes := b.sourceNodes ++ [(column, id)] })

def Builder.buildIndicatorNode (b : Builder) (indicator : IndicatorSpec) : Compile (String × Builder) :=
  if indicator.type = "sma" ∨ indicator.type = "ema" then do
    let (source, b) ← b.sourceNode indicator.source.name
    return b.addNode .indMa
      [("period", .lit (.int indicator.period)), ("ma_type", .lit (.str indicator.type))] [source]
  else if indicator.type = "rsi" then do
    let (source, b) ← b.sourceNode indicator.source.name
    return b.addNode .indRsi [("period", .lit (.int indicator.period))] [source]
  else if indicator.type = "donchian" then
    .ok (b.addNode .indDonchian [("period", .lit (.int indicator.period))] [])
  else if indicator.type = "bollinger_bands" then do
    let (source, b) ← b.sourceNode indicator.source.name
    return b.addNode .indBollinger
      [("period", .lit (.int indicator.period)), ("num_std", .lit (.float 2))] [source]
  else
    let message := s!"Indicator type '{indicator.type}' cannot be compiled."
    .error (.compileFailed message [⟨"indicators", "unsupported_indicator", message, []⟩])

def Builder.addIndicator (b : Builder) (indicator : IndicatorSpec) :
    Compile Builder := do
  let (id, b) ← b.buildIndicatorNode indicator
  return { b with indicatorNodes := b.indicatorNodes ++ [(indicator.id, id)] }

def Builder.buildIndicators (b : Builder) (indicators : List IndicatorSpec) :
    Compile Builder :=
  indicators.foldlM Builder.addIndicator b

section Conditions

variable (spec : StrategySpec)

/-- The reference to the port of an indicator's node; a port that the map does not have falls
back to the nameless one. -/
def resolvePort (base port node : String) (ports : List (String × String)) :
    Compile String :=
  match ports.lookup port, ports.lookup "" with
  | some nodePort, _ | none, some nodePort =>
    .ok (if nodePort = "out" then node else node ++ ":" ++ nodePort)
  | none, none =>
    let message := s!"Indicator '{base}' has no output port '{port}'."
    .error (.compileFailed message [⟨"conditions", "unknown_indicator_reference", message,
      ports.map fun entry => base ++ "." ++ entry.1⟩])

def Builder.resolveReference (b : Builder) (ref : String) : Compile (String × Builder) :=
  if isSource ref then b.sourceNode ref
  else
    let (base, port) := splitReference ref
    match b.indicatorNodes.lookup base with
    | some node =>
      match spec.indicator? base with
      | none => .error (.keyError base)
      | some indicator =>
        match nodeOutputPorts.lookup indicator.type with
        | none => .error (.keyError indicator.type)
        | some ports => do return (← resolvePort base port node ports, b)
    | none =>
      let message := s!"Unknown reference '{ref}'."
      .error (.compileFailed message [⟨"conditions", "unknown_indicator_reference", message, []⟩])

def literalFailure : CompileFailure :=
  .compileFailed ("Literal thresholds in level comparisons are not supported in composite " ++
      "compilation; use crosses_above/crosses_below or a built-in registry mapping.")
    [⟨"entry", "unsupported_compile_operand",
      "Literal numeric operands for level comparisons must use " ++
        "crosses_above/crosses_below or map to a registry strategy.", []⟩]

def Builder.resolveOperand (b : Builder) : Operand → Compile (String × Builder)
  | .text ref => b.resolveReference spec ref
  | .int _ | .float _ => .error literalFailure

/-- The node of a reference to its only output, else the reference itself. -/
def inputRef (ref : String) : String :=
  if (parseInputRef ref).2 = "out" then (parseInputRef ref).1 else ref

def isMovingAverage (id : String) : Bool :=
  (spec.indicator? id).any fun indicator => indicator.type = "sma" || indicator.type = "ema"

def isMaPair (left : String) : Operand → Bool
  | .text right =>
    isMovingAverage spec (splitReference left).1 && isMovingAverage spec (splitReference right).1
  | .int _ | .float _ => false

def Builder.compileComparison (b : Builder) (condition : ComparisonCondition) : Compile (String × Builder) :=
  match operatorToCmpKind.lookup condition.op with
  | none => .error (.keyError condition.op)
  | some kind => do
    let (left, b) ← b.resolveReference spec condition.left
    if isCrossing condition.op ∧ condition.right.isNumber then
      let threshold ← condition.right.toFloat
      return b.addNode kind [("threshold", .lit (.float threshold))] [inputRef left]
    let (right, b) ← b.resolveOperand spec condition.right
    if isCrossing condition.op ∧ (parseInputRef left).2 = "out" ∧ (parseInputRef right).2 = "out" ∧
        isMaPair spec condition.left condition.right then
      let (diff, b) := b.addNode .indDiff [] [(parseInputRef left).1, (parseInputRef right).1]
      return b.addNode kind [("threshold", .lit (.float 0))] [diff]
    return b.addNode kind [] [inputRef left, inputRef right]

def Builder.compileComparisons (b : Builder) :
    List ComparisonCondition → Compile (List String × Builder)
  | [] => .ok ([], b)
  | condition :: rest => do
    let (ref, b) ← b.compileComparison spec condition
    let (refs, b) ← b.compileComparisons rest
    return (ref :: refs, b)

end Conditions

/-- `_combine_bool_nodes`, from the first reference on. -/
def Builder.combineBoolNodes (b : Builder) (join : NodeKind) (current : String) :
    List String → String × Builder
  | [] => (current, b)
  | ref :: rest =>
    let (joined, b) := b.addNode join [] [current, ref]
    b.combineBoolNodes join joined rest

def ConditionGroup.join : ConditionGroup → NodeKind
  | .all _ => .logicAnd
  | .any _ => .logicOr

def ConditionGroup.summary (F : Type) [PriceFloat F] (group : ConditionGroup) : String :=
  let joiner := match group with
    | .all _ => " AND "
    | .any _ => " OR "
  joiner.intercalate ((comparisonConditions group).map fun item =>
    item.left ++ " " ++ item.op ++ " " ++ item.right.toStr F)

def Builder.alwaysFalseNode (b : Builder) (signal : String) : String × Builder :=
  let (inverted, b) := b.addNode .logicNot [] [signal]
  b.addNode .logicAnd [] [signal, inverted]

def Builder.alwaysFalseOhlc (b : Builder) : Compile (String × Builder) := do
  let (close, b) ← b.sourceNode "close"
  let (high, b) ← b.sourceNode "high"
  return b.addNode .cmpGt [] [close, high]

/-- The reference of the group; an exit of rules alone has a signal that is never raised. -/
def Builder.compileConditionGroup (b : Builder) (spec : StrategySpec) (group : ConditionGroup)
    (label : String) : Compile (String × Builder) := do
  match comparisonConditions group with
  | [] =>
    if label = "exit" ∧ exitRuleConditions group ≠ [] then b.alwaysFalseOhlc
    else .error (refuse s!"{label} must include at least one comparison condition.")
  | comparisons =>
    let (refs, b) ← b.compileComparisons spec comparisons
    match refs with
    | [] => .error .valueError
    | first :: rest => return b.combineBoolNodes group.join first rest

/-! ## Exit policies -/

def genomeExitParamRef (name : String) : String := "exit_" ++ name

def exitBinding (name : String) : String × ParamValue := (name, .ref (genomeExitParamRef name) false)

/-- The params are listed by their sorted names. -/
def buildExitRulePolicy (presetId : String) (names : List String) : ExitRulePolicy :=
  ⟨some presetId, some (((presetExitParamNames names).dedup.insertionSort (· ≤ ·)).map exitBinding)⟩

def buildSingleStopExitPolicy (atr : Bool) : ExitRulePolicy :=
  if atr then ⟨some "atr_stop_only", some (["stop_loss_atr", "atr_period"].map exitBinding)⟩
  else ⟨some "fixed_stop_only", some (["stop_loss_pct"].map exitBinding)⟩

/-- The bracket preset, with the two percentages as parameters of the strategy. -/
def bracketPolicy (stopLoss takeProfit : ℚ) :
    Compile (ExitRulePolicy × List (String × Value)) :=
  match exitPresets.lookup "fixed_pct_bracket" with
  | none => .error (refuse "Unknown exit preset 'fixed_pct_bracket'.")
  | some names => .ok (buildExitRulePolicy "fixed_pct_bracket" names,
    [(genomeExitParamRef "stop_loss_pct", .float stopLoss),
      (genomeExitParamRef "take_profit_pct", .float takeProfit)])

def ConditionLeaf.stopLoss? : ConditionLeaf → Option ExitRule
  | .stopLoss rule => some rule
  | _ => none

def ConditionLeaf.takeProfit? : ConditionLeaf → Option ExitRule
  | .takeProfit rule => some rule
  | _ => none

/-- The last rule of a kind, which is the one that counts. -/
def lastStopLoss (group : ConditionGroup) : Option ExitRule :=
  (group.conditions.filterMap ConditionLeaf.stopLoss?).getLast?

def lastTakeProfit (group : ConditionGroup) : Option ExitRule :=
  (group.conditions.filterMap ConditionLeaf.takeProfit?).getLast?

/-- The policy of the genome and the parameters that it adds to the strategy. -/
def buildExitPolicy (spec : StrategySpec) :
    Compile (Option ExitRulePolicy × List (String × Value)) :=
  match lastStopLoss spec.exit, lastTakeProfit spec.exit with
  | none, none => .ok (none, [])
  | some stop, some take =>
    match stop.mode, take.mode with
    | .percent, .percent => do
      let (policy, params) ← bracketPolicy stop.value take.value
      return (some policy, params)
    | _, _ =>
      .error (refuse "Mixed ATR/percent stop and take-profit combinations are not supported.")
  | none, some take =>
    match take.mode with
    | .percent => do
      let (policy, params) ← bracketPolicy 0 take.value
      return (some policy, params)
    | .atr => .error (refuse "ATR-only take-profit rules are not supported.")
  | some stop, none =>
    match stop.mode with
    | .percent => .ok (some (buildSingleStopExitPolicy false),
      [(genomeExitParamRef "stop_loss_pct", .float stop.value)])
    | .atr => .ok (some (buildSingleStopExitPolicy true),
      [(genomeExitParamRef "stop_loss_atr", .float stop.value),
        (genomeExitParamRef "atr_period", .int (stop.atrPeriod.getD 14))])

/-- `_GenomeBuilder.build`. -/
def buildGenome (spec : StrategySpec) :
    Compile (Genome × List (String × Value)) := do
  let b ← Builder.buildIndicators {} spec.indicators
  let (entry, b) ← b.compileConditionGroup spec spec.entry "entry"
  let (exit, b) ← b.compileConditionGroup spec spec.exit "exit"
  let (short, b) := b.alwaysFalseNode entry
  let (policy, params) ← buildExitPolicy spec
  return ({
    nodes := b.nodes
    entryLong := entry
    entryShort := short
    exitLong := exit
    exitShort := short
    exitRulePolicy := policy }, params)

/-! ## Compiled strategies -/

structure CompiledStrategy where
  name : String
  strategyName : String
  strategyLabel : String
  /-- Beside these, a composite strategy has its genome among the parameters. -/
  strategyParams : List (String × Value)
  genome : Genome
  indicators : List String
  entrySummary : String
  exitSummary : String
  symbols : List String
  symbol : String
  timeframe : String
  market : String
  positionSizing : List (String × Value)
  execution : ExecutionAssumptions

def optionalFloat (value : Option ℚ) : Value := (value.map Value.float).getD .null

def positionSizingPayload (risk : RiskSpec) : List (String × Value) :=
  match risk.positionSizing with
  | .fixedQuantity => [("type", .str "fixed_quantity"), ("quantity", optionalFloat risk.quantity)]
  | .fixedSafetyMargin => [("type", .str "fixed_safety_margin"),
    ("safety_margin_per_contract", optionalFloat risk.safetyMarginPerContract)]

/-- An integer is written with at most 4300 digits. -/
def digitLimit : ℕ := 10 ^ 4300

/-- `json.dumps` does not raise for the value. -/
def dumpable : Value → Bool
  | .int n => n.natAbs < digitLimit
  | _ => true

@[simp] theorem dumpable_float (q : ℚ) : dumpable (.float q) = true := rfl

@[simp] theorem dumpable_str (s : String) : dumpable (.str s) = true := rfl

/-- `_build_compiled`; the integers of the genome are periods, which are written anyway. -/
def buildCompiled (spec : StrategySpec) (strategyName strategyLabel : String)
    (params : List (String × Value)) (genome : Genome) (entrySummary exitSummary : String) :
    Compile CompiledStrategy := do
  ensure (params.all fun param => dumpable param.2) .valueError
  return {
    name := spec.name
    strategyName := strategyName
    strategyLabel := strategyLabel
    strategyParams := params
    genome := genome
    indicators := spec.indicators.map fun item => item.id ++ " (" ++ item.type ++ ")"
    entrySummary := entrySummary
    exitSummary := exitSummary
    symbols := spec.symbols
    symbol := spec.symbols.head spec.symbolsNonempty
    timeframe := spec.timeframe
    market := spec.market
    positionSizing := positionSizingPayload spec.risk
    execution := spec.execution }

/-! ## Registered strategies -/

/-- `MA_CROSSOVER_GENOME`. -/
def maCrossoverGenome : Genome where
  nodes :=
    [⟨"n1", .sourceClose, [], [], by decide⟩,
      ⟨"n2", .indMa, [("period", .ref "short_period" false), ("ma_type", .ref "short_ma_type" false)],
        ["n1"], by decide⟩,
      ⟨"n3", .indMa, [("period", .ref "long_period" false), ("ma_type", .ref "long_ma_type" false)],
        ["n1"], by decide⟩,
      ⟨"n4", .indDiff, [], ["n2", "n3"], by decide⟩,
      ⟨"n5", .cmpCrossAbove, [("threshold", .ref "threshold" false)], ["n4"], by decide⟩,
      ⟨"n6", .cmpCrossBelow, [("threshold", .ref "threshold" true)], ["n4"], by decide⟩]
  entryLong := "n5"
  entryShort := "n6"
  exitLong := "n6"
  exitShort := "n5"

/-- `RSI_MEAN_REVERSION_GENOME`. -/
def rsiMeanReversionGenome : Genome where
  nodes :=
    [⟨"n1", .sourceClose, [], [], by decide⟩,
      ⟨"n2", .indRsi, [("period", .ref "period" false)], ["n1"], by decide⟩,
      ⟨"n3", .cmpCrossAbove, [("threshold", .ref "oversold" false)], ["n2"], by decide⟩,
      ⟨"n4", .cmpCrossAbove, [("threshold", .ref "overbought" false)], ["n2"], by decide⟩]
  entryLong := "n3"
  entryShort := "n4"
  exitLong := "n4"
  exitShort := "n3"

/-- `_refs_equal`, where a right side that is a number is no text. -/
def refsEqual (left : Operand) (id : String) : Bool :=
  left = .text id || left = .text (splitReference id).1

/-- The two moving averages, the first condition of which is on the first. -/
def matchMaCrossover (spec : StrategySpec) : Option (IndicatorSpec × IndicatorSpec) :=
  match spec.indicators, comparisonConditions spec.entry, comparisonConditions spec.exit with
  | [first, second], [entry], [exit] =>
    if (first.type = "sma" ∨ first.type = "ema") ∧ (second.type = "sma" ∨ second.type = "ema") ∧
        first.source = .close ∧ second.source = .close ∧
        entry.op = "crosses_above" ∧ exit.op = "crosses_below" ∧
        refsEqual (.text entry.left) first.id ∧ refsEqual entry.right second.id ∧
        refsEqual (.text exit.left) first.id ∧ refsEqual exit.right second.id then
      some (first, second)
    else none
  | _, _, _ => none

def compileMaCrossover (spec : StrategySpec) (first second : IndicatorSpec) :
    Compile CompiledStrategy :=
  let (fast, slow) := if second.period ≤ first.period then (second, first) else (first, second)
  buildCompiled spec "MACrossover" "MA Crossover"
    [("short_period", .int fast.period), ("long_period", .int slow.period),
      ("short_ma_type", .str fast.type), ("long_ma_type", .str slow.type), ("threshold", .float 0)]
    maCrossoverGenome (fast.id ++ " crosses above " ++ slow.id)
    (fast.id ++ " crosses below " ++ slow.id)

/-- The indicator and the two thresholds. -/
def matchRsiMeanReversion (spec : StrategySpec) : Option (IndicatorSpec × Operand × Operand) :=
  match spec.indicators, comparisonConditions spec.entry, comparisonConditions spec.exit with
  | [rsi], [entry], [exit] =>
    if rsi.type = "rsi" ∧ entry.op = "crosses_above" ∧ exit.op = "crosses_above" ∧
        refsEqual (.text entry.left) rsi.id ∧ refsEqual (.text exit.left) rsi.id ∧
        entry.right.isNumber ∧ exit.right.isNumber then
      some (rsi, entry.right, exit.right)
    else none
  | _, _, _ => none

section Compile

variable (F : Type) [PriceFloat F]

def compileRsiMeanReversion (spec : StrategySpec) (rsi : IndicatorSpec)
    (oversold overbought : Operand) : Compile CompiledStrategy := do
  let low ← oversold.toFloat
  let high ← overbought.toFloat
  buildCompiled spec "RSIMeanReversion" "RSI Mean Reversion"
    [("period", .int rsi.period), ("oversold", .float low), ("overbought", .float high)]
    rsiMeanReversionGenome ("RSI crosses above " ++ oversold.toStr F)
    ("RSI crosses above " ++ overbought.toStr F)

/-- `_try_compile_registry_strategy`; none when no registered strategy matches. -/
def tryCompileRegistryStrategy (spec : StrategySpec) :
    Option (Compile CompiledStrategy) :=
  if exitRuleConditions spec.exit ≠ [] then none
  else
    match matchMaCrossover spec, matchRsiMeanReversion spec with
    | some (first, second), _ => some (compileMaCrossover spec first second)
    | none, some (rsi, low, high) => some (compileRsiMeanReversion F spec rsi low high)
    | none, none => none

/-- The summary that the builder gives of the exit. -/
def exitSummary (spec : StrategySpec) : String :=
  if comparisonConditions spec.exit = [] then "Exit via stop/take-profit rules"
  else spec.exit.summary F

def compileCompositeStrategy (spec : StrategySpec) :
    Compile CompiledStrategy := do
  let (genome, params) ← buildGenome spec
  match validateGenome F genome defaultMaxDepth defaultMaxNodeCount with
  | .error e => .error (.genomeInvalid e)
  | .ok () =>
    buildCompiled spec "CompositeStrategy" "Composite strategy" params genome
      (spec.entry.summary F) (exitSummary F spec)

/-- The validator, with its errors raised. -/
def requireValid (known : List String) (spec : StrategySpec) : Compile Unit :=
  match validateSemantics known spec with
  | .error failure => .error (.validatorRaised failure)
  | .ok [] => .ok ()
  | .ok errors => .error (.validationFailed errors)

def compileStrategySpec (known : List String) (spec : StrategySpec) :
    Compile CompiledStrategy := do
  requireValid known spec
  match tryCompileRegistryStrategy F spec with
  | some compiled => compiled
  | none => compileCompositeStrategy F spec

/-- `compile_strategy_spec_payload`, which validates the payload and then the spec read from it,
written out again. -/
def compileStrategySpecPayload (known : List String) (spec : StrategySpec) :
    Compile CompiledStrategy := do
  requireValid known spec
  compileStrategySpec F known spec

end Compile

end QBackend.StrategyBuilder
