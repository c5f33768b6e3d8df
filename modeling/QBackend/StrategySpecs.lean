import QBackend.GenomeValidation

/-!
# Strategy specs

`spec_models.py` and `validator.py`: the documents of the strategy builder and the checks that
`validate_strategy_spec_payload` makes of one. A payload that `StrategySpec.model_validate` reads is
a `StrategySpec` here, with the constraints of the fields as fields; `extra="forbid"` leaves no
place for a forbidden key, and numbers are the finite ones that JSON has.
-/

namespace QBackend.StrategyBuilder

open GenomeDsl FallibleSteps

/-! ## Documents -/

inductive PriceColumn where
  | openPrice | high | low | close | volume
  deriving DecidableEq, Repr

def PriceColumn.name : PriceColumn → String
  | .openPrice => "open"
  | .high => "high"
  | .low => "low"
  | .close => "close"
  | .volume => "volume"

structure IndicatorSpec where
  id : String
  type : String
  source : PriceColumn := .close
  period : ℤ := 20
  idNonempty : id ≠ "" := by decide
  typeNonempty : type ≠ "" := by decide
  periodPos : 1 ≤ period := by decide

/-- The right side of a comparison. -/
inductive Operand where
  | text (ref : String)
  | int (n : ℤ)
  | float (q : ℚ)
  deriving DecidableEq, Repr

structure ComparisonCondition where
  left : String
  op : String
  right : Operand
  leftNonempty : left ≠ "" := by decide
  opNonempty : op ≠ "" := by decide

inductive ExitMode where
  | percent | atr
  deriving DecidableEq, Repr

/-- The fields that a stop loss and a take profit share. -/
structure ExitRule where
  mode : ExitMode
  value : ℚ
  atrPeriod : Option ℕ := none
  valuePos : 0 < value := by decide
  atrPeriodPos : ∀ n ∈ atrPeriod, 1 ≤ n := by decide

inductive ConditionLeaf where
  | comparison (condition : ComparisonCondition)
  | stopLoss (rule : ExitRule)
  | takeProfit (rule : ExitRule)

/-- Exactly one of the two lists is there. -/
inductive ConditionGroup where
  | all (conditions : List ConditionLeaf)
  | any (conditions : List ConditionLeaf)

def ConditionGroup.conditions : ConditionGroup → List ConditionLeaf
  | .all conditions => conditions
  | .any conditions => conditions

def ConditionGroup.key : ConditionGroup → String
  | .all _ => "all"
  | .any _ => "any"

inductive RiskSizing where
  | fixedQuantity | fixedSafetyMargin
  deriving DecidableEq, Repr

structure RiskSpec where
  positionSizing : RiskSizing
  quantity : Option ℚ := none
  safetyMarginPerContract : Option ℚ := none
  quantityPos : ∀ q ∈ quantity, 0 < q := by decide
  marginPos : ∀ q ∈ safetyMarginPerContract, 0 < q := by decide

/-- The signal and entry timings are literals of one value. -/
structure ExecutionAssumptions where
  allowShort : Bool := false
  liveTrading : Bool := false

structure StrategySpec where
  name : String
  /-- The `universe`. -/
  symbols : List String
  market : String
  timeframe : String
  indicators : List IndicatorSpec := []
  entry : ConditionGroup
  exit : ConditionGroup
  risk : RiskSpec
  execution : ExecutionAssumptions := {}
  /-- The columns of `data_requirements`. -/
  dataRequirements : Option (List String) := none
  nameNonempty : name ≠ "" := by decide
  symbolsNonempty : symbols ≠ [] := by decide
  marketNonempty : market ≠ "" := by decide
  timeframeNonempty : timeframe ≠ "" := by decide

structure ValidationErrorDetail where
  path : String
  code : String
  message : String
  suggestions : List String := []
  deriving DecidableEq, Repr

/-! ## Tables of the validator -/

def mvpIndicatorTypes : List String := ["sma", "ema", "rsi", "donchian", "bollinger_bands", "atr"]

def mvpOperators : List String := [">", "<", ">=", "<=", "crosses_above", "crosses_below"]

/-- `INDICATOR_OUTPUT_PORTS`. -/
def indicatorOutputPorts : List (String × List String) :=
  [("sma", ["value"]),
    ("ema", ["value"]),
    ("rsi", ["value"]),
    ("atr", ["value"]),
    ("donchian", ["upper", "lower"]),
    ("bollinger_bands", ["upper", "middle", "lower"])]

/-- `PRICE_COLUMNS`. -/
def priceColumns : List String := ["open", "high", "low", "close", "volume", "tick_volume"]

/-- The markets of the capability registry. -/
def supportedMarkets : List String := ["B3"]

def timeframeNames : List String :=
  ["M1", "M2", "M3", "M4", "M5", "M6", "M10", "M12", "M15", "M20", "M30", "H1", "H2", "H3", "H4",
    "H6", "H8", "H12", "D1", "W1", "MN1"]

def ohlcvColumns : List String :=
  ["close", "high", "low", "open", "real_volume", "spread", "tick_volume"]

/-- `sorted`. -/
def sortedNames (names : List String) : List String := names.mergeSort fun a b => decide (a ≤ b)

def atIndex (path : String) (index : ℕ) : String := path ++ "[" ++ toString index ++ "]"

/-! ## Checks of the fields -/

def validateMarket (market : String) : List ValidationErrorDetail :=
  if market ∈ supportedMarkets then []
  else [⟨"market", "unsupported_market", s!"Market '{market}' is not currently supported.",
    sortedNames supportedMarkets⟩]

def validateTimeframe (timeframe : String) : List ValidationErrorDetail :=
  if (strip timeframe).toUpper ∈ timeframeNames then []
  else [⟨"timeframe", "unsupported_timeframe",
    s!"Timeframe '{timeframe}' is not currently supported.", sortedNames timeframeNames⟩]

/-- The symbols known are those of the default instruments and of the stored ones. -/
def validateUniverse (known symbols : List String) : List ValidationErrorDetail :=
  if symbols = [] then
    [⟨"universe", "empty_universe", "Universe must include at least one symbol.", []⟩]
  else
    symbols.zipIdx.flatMap fun (symbol, index) =>
      if symbol ∈ known then []
      else [⟨atIndex "universe" index, "unknown_symbol",
        s!"Symbol '{symbol}' is not in the known instrument catalog.",
        (sortedNames known).take 5⟩]

def validateDataRequirements (columns : Option (List String)) : List ValidationErrorDetail :=
  (columns.getD []).zipIdx.flatMap fun (column, index) =>
    if column ∈ ohlcvColumns then []
    else [⟨atIndex "data_requirements.columns" index, "unsupported_data_column",
      s!"Data column '{column}' is not currently supported.", sortedNames ohlcvColumns⟩]

/-- `GENOME_PARAM_BOUNDS["period"]`. -/
def periodBounds : ℤ × ℤ := (10, 100)

def validatePeriod (prefixPath : String) (period : ℤ) : List ValidationErrorDetail :=
  (if period < periodBounds.1 then
    [⟨prefixPath ++ ".period", "invalid_parameter",
      s!"Indicator period {period} is below the minimum {periodBounds.1}.", []⟩]
  else []) ++
  (if periodBounds.2 < period then
    [⟨prefixPath ++ ".period", "invalid_parameter",
      s!"Indicator period {period} exceeds the maximum {periodBounds.2}.", []⟩]
  else [])

def validateIndicator (seenIds : List String) (indicator : IndicatorSpec) (index : ℕ) :
    List ValidationErrorDetail :=
  let path := atIndex "indicators" index
  (if indicator.id ∈ seenIds then
    [⟨path ++ ".id", "duplicate_indicator_id", s!"Duplicate indicator id '{indicator.id}'.", []⟩]
  else []) ++
  if indicator.type ∉ mvpIndicatorTypes then
    [⟨path ++ ".type", "unsupported_indicator",
      s!"Indicator '{indicator.type}' is not currently supported.", mvpIndicatorTypes⟩]
  else
    (if indicator.source.name ∉ ohlcvColumns ∧ indicator.source ≠ .volume then
      [⟨path ++ ".source", "unsupported_data_column",
        s!"Indicator source '{indicator.source.name}' is not supported.",
        sortedNames ohlcvColumns⟩]
    else []) ++ validatePeriod path indicator.period

def validateIndicators : List String → ℕ → List IndicatorSpec → List ValidationErrorDetail
  | _, _, [] => []
  | seenIds, index, indicator :: rest =>
    validateIndicator seenIds indicator index ++
      validateIndicators (seenIds ++ [indicator.id]) (index + 1) rest

/-! ## Checks of the conditions -/

/-- `ref.partition(".")`, without the dot. -/
def splitReference (ref : String) : String × String :=
  match ref.toList.span (· ≠ '.') with
  | (base, []) => (String.ofList base, "")
  | (base, _ :: port) => (String.ofList base, String.ofList port)

def validateReference (indicators : List IndicatorSpec) (path ref : String) :
    Except Failure (List ValidationErrorDetail) :=
  if ref ∈ priceColumns then .ok []
  else
    let (base, port) := splitReference ref
    match indicators.find? (fun indicator => indicator.id = base) with
    | some indicator =>
      match indicatorOutputPorts.lookup indicator.type with
      | none => .error (.keyError indicator.type)
      | some ports =>
        if port ≠ "" ∧ port ∉ ports then
          .ok [⟨path, "unknown_indicator_reference",
            s!"Indicator '{base}' has no output port '{port}'.",
            ports.map fun name => base ++ "." ++ name⟩]
        else .ok []
    | none =>
      .ok [⟨path, "unknown_indicator_reference",
        s!"Unknown indicator or price reference '{ref}'.",
        sortedNames (indicators.map IndicatorSpec.id)⟩]

/-- One side of a comparison; only a text is a reference. -/
def validateSide (indicators : List IndicatorSpec) (path : String) :
    Operand → Except Failure (List ValidationErrorDetail)
  | .text ref => validateReference indicators path ref
  | .int _ | .float _ => .ok []

def validateComparison (indicators : List IndicatorSpec) (path : String)
    (condition : ComparisonCondition) : Except Failure (List ValidationErrorDetail) := do
  let op := if condition.op ∈ mvpOperators then []
    else [⟨path ++ ".op", "unsupported_operator",
      s!"Operator '{condition.op}' is not currently supported.", mvpOperators⟩]
  let left ← validateSide indicators (path ++ ".left") (.text condition.left)
  let right ← validateSide indicators (path ++ ".right") condition.right
  return op ++ left ++ right

def validateExitCondition (path : String) (rule : ExitRule) : List ValidationErrorDetail :=
  if rule.mode = .atr ∧ rule.atrPeriod = none then
    [⟨path ++ ".atr_period", "invalid_parameter", "ATR-based exit rules require atr_period.", []⟩]
  else []

def validateLeaf (indicators : List IndicatorSpec) (path : String) :
    ConditionLeaf → Except Failure (List ValidationErrorDetail)
  | .comparison condition => validateComparison indicators path condition
  | .stopLoss rule | .takeProfit rule => .ok (validateExitCondition path rule)

def ConditionLeaf.isComparison : ConditionLeaf → Bool
  | .comparison _ => true
  | _ => false

def validateConditionGroup (indicators : List IndicatorSpec) (group : ConditionGroup)
    (path : String) (requireComparison : Bool) : Except Failure (List ValidationErrorDetail) := do
  let listPath := path ++ "." ++ group.key
  if group.conditions.isEmpty then
    if requireComparison then
      return [⟨listPath, "missing_entry_logic",
        "Entry logic must include at least one condition.", []⟩]
    else
      return [⟨listPath, "missing_exit_logic", "Exit logic must include at least one rule.", []⟩]
  let errors ← group.conditions.zipIdx.mapM fun (condition, index) =>
    validateLeaf indicators (atIndex listPath index) condition
  if requireComparison ∧ !group.conditions.any ConditionLeaf.isComparison then
    return errors.flatten ++ [⟨listPath, "missing_entry_logic",
      "Entry logic must include at least one comparison condition.", []⟩]
  else return errors.flatten

/-! ## The rest of the document -/

/-- The sizing is one of the two supported ones by its type. -/
def validateRisk (risk : RiskSpec) : List ValidationErrorDetail :=
  match risk.positionSizing with
  | .fixedQuantity =>
    if risk.quantity = none then
      [⟨"risk.quantity", "invalid_parameter", "fixed_quantity sizing requires quantity > 0.", []⟩]
    else []
  | .fixedSafetyMargin =>
    if risk.safetyMarginPerContract = none then
      [⟨"risk.safety_margin_per_contract", "invalid_parameter",
        "fixed_safety_margin sizing requires safety_margin_per_contract > 0.", []⟩]
    else []

def validateExecution (execution : ExecutionAssumptions) : List ValidationErrorDetail :=
  (if execution.allowShort then
    [⟨"execution_assumptions.allow_short", "short_not_allowed",
      "Short selling is not supported in the AI strategy builder MVP.", []⟩]
  else []) ++
  (if execution.liveTrading then
    [⟨"execution_assumptions.live_trading", "unsupported_capability",
      "Live trading is not currently supported.", ["backtest_only"]⟩]
  else [])

def validateSemantics (known : List String) (spec : StrategySpec) :
    Except Failure (List ValidationErrorDetail) := do
  let fields := validateMarket spec.market ++ validateTimeframe spec.timeframe ++
    validateUniverse known spec.symbols ++ validateDataRequirements spec.dataRequirements ++
    validateIndicators [] 0 spec.indicators
  let entry ← validateConditionGroup spec.indicators spec.entry "entry" true
  let exit ← validateConditionGroup spec.indicators spec.exit "exit" false
  return fields ++ entry ++ exit ++ validateRisk spec.risk ++ validateExecution spec.execution

/-- The payload is valid: the validator returns, and without errors. -/
def Valid (known : List String) (spec : StrategySpec) : Prop :=
  validateSemantics known spec = .ok []

/-! ## What a valid spec has -/

/-- The reference is to a price column, or to an indicator and one of its ports. -/
def ValidReference (indicators : List IndicatorSpec) (ref : String) : Prop :=
  ref ∈ priceColumns ∨ ∃ indicator ∈ indicators, ∃ ports,
    indicator.id = (splitReference ref).1 ∧
    indicatorOutputPorts.lookup indicator.type = some ports ∧
    ((splitReference ref).2 = "" ∨ (splitReference ref).2 ∈ ports)

structure ValidComparison (indicators : List IndicatorSpec) (condition : ComparisonCondition) :
    Prop where
  operator : condition.op ∈ mvpOperators
  left : ValidReference indicators condition.left
  right : ∀ ref, condition.right = .text ref → ValidReference indicators ref

structure ValidIndicators (indicators : List IndicatorSpec) : Prop where
  nodup : (indicators.map IndicatorSpec.id).Nodup
  types : ∀ indicator ∈ indicators, indicator.type ∈ mvpIndicatorTypes
  periods : ∀ indicator ∈ indicators, periodBounds.1 ≤ indicator.period ∧
    indicator.period ≤ periodBounds.2

section Valid

variable {indicators : List IndicatorSpec} {path ref : String}

theorem validReference_of_ok (h : validateReference indicators path ref = .ok []) :
    ValidReference indicators ref := by
  unfold validateReference at h
  by_cases hprice : ref ∈ priceColumns
  · exact .inl hprice
  · rw [if_neg hprice] at h
    cases hfound : indicators.find? (fun indicator => indicator.id = (splitReference ref).1) with
    | none =>
      simp only [hfound] at h
      cases h
    | some indicator =>
      have hid : indicator.id = (splitReference ref).1 := by simpa using List.find?_some hfound
      cases hports : indicatorOutputPorts.lookup indicator.type with
      | none =>
        simp only [hfound, hports] at h
        cases h
      | some ports =>
        simp only [hfound, hports] at h
        by_cases hbad : (splitReference ref).2 ≠ "" ∧ (splitReference ref).2 ∉ ports
        · rw [if_pos hbad] at h
          cases h
        · refine .inr ⟨indicator, List.mem_of_find?_eq_some hfound, ports, hid, hports, ?_⟩
          by_cases hempty : (splitReference ref).2 = ""
          · exact .inl hempty
          · exact .inr (by_contra fun hmem => hbad ⟨hempty, hmem⟩)

theorem validComparison_of_ok {condition : ComparisonCondition}
    (h : validateComparison indicators path condition = .ok []) :
    ValidComparison indicators condition := by
  unfold validateComparison at h
  simp only [bind_eq_ok] at h
  obtain ⟨left, hleft, right, hright, h⟩ := h
  have hparts : condition.op ∈ mvpOperators ∧ left = [] ∧ right = [] := by
    simpa [pure_eq_ok] using h
  obtain ⟨hop, rfl, rfl⟩ := hparts
  refine ⟨hop, validReference_of_ok hleft, fun ref href => ?_⟩
  rw [href] at hright
  exact validReference_of_ok hright

theorem validIndicators_of_nil {seenIds : List String} {index : ℕ}
    (h : validateIndicators seenIds index indicators = []) :
    (∀ indicator ∈ indicators, indicator.id ∉ seenIds) ∧ ValidIndicators indicators := by
  induction indicators generalizing seenIds index with
  | nil => exact ⟨by simp, List.nodup_nil, by simp, by simp⟩
  | cons first rest ih =>
    obtain ⟨hfirst, hrest⟩ := List.append_eq_nil_iff.mp h
    obtain ⟨hfresh, hvalid⟩ := ih hrest
    unfold validateIndicator at hfirst
    obtain ⟨hseen, hfields⟩ := List.append_eq_nil_iff.mp hfirst
    have hnew : first.id ∉ seenIds := by
      intro hmem
      rw [if_pos hmem] at hseen
      cases hseen
    have htype : first.type ∈ mvpIndicatorTypes := by
      by_contra hnot
      rw [if_pos hnot] at hfields
      cases hfields
    rw [if_neg (not_not.mpr htype)] at hfields
    have hperiod : periodBounds.1 ≤ first.period ∧ first.period ≤ periodBounds.2 := by
      obtain ⟨-, hperiods⟩ := List.append_eq_nil_iff.mp hfields
      unfold validatePeriod at hperiods
      obtain ⟨hlow, hhigh⟩ := List.append_eq_nil_iff.mp hperiods
      constructor
      · by_contra hlt
        rw [if_pos (not_le.mp hlt)] at hlow
        cases hlow
      · by_contra hlt
        rw [if_pos (not_le.mp hlt)] at hhigh
        cases hhigh
    refine ⟨List.forall_mem_cons.mpr ⟨hnew, fun indicator hi hmem => ?_⟩, ?_, ?_, ?_⟩
    · exact hfresh indicator hi (List.mem_append_left _ hmem)
    · refine List.nodup_cons.mpr ⟨fun hmem => ?_, hvalid.nodup⟩
      obtain ⟨indicator, hi, heq⟩ := List.mem_map.mp hmem
      exact hfresh indicator hi (by simp [heq])
    · exact List.forall_mem_cons.mpr ⟨htype, hvalid.types⟩
    · exact List.forall_mem_cons.mpr ⟨hperiod, hvalid.periods⟩

/-- A group without errors has a condition, valid comparisons, and a comparison where one is
required. -/
theorem validateConditionGroup_ok {group : ConditionGroup} {required : Bool}
    (h : validateConditionGroup indicators group path required = .ok []) :
    group.conditions ≠ [] ∧
      (∀ condition, .comparison condition ∈ group.conditions →
        ValidComparison indicators condition) ∧
      (required = true → ∃ leaf ∈ group.conditions, leaf.isComparison = true) := by
  unfold validateConditionGroup at h
  cases hempty : group.conditions.isEmpty with
  | true =>
    rw [if_pos hempty] at h
    cases required
    · cases h
    · cases h
  | false =>
    rw [if_neg (by simp [hempty])] at h
    simp only [bind_eq_ok] at h
    obtain ⟨errors, hmap, h⟩ := h
    have hflat : errors.flatten = [] ∧
        (required = true → ∃ leaf ∈ group.conditions, leaf.isComparison = true) := by
      by_cases hmissing :
          required = true ∧ (!group.conditions.any ConditionLeaf.isComparison) = true
      · rw [if_pos hmissing, pure_eq_ok] at h
        simp at h
      · rw [if_neg hmissing, pure_eq_ok] at h
        refine ⟨h, fun hrequired => ?_⟩
        simpa using fun hnone => hmissing ⟨hrequired, hnone⟩
    refine ⟨fun hnil => by simp [hnil] at hempty, fun condition hc => ?_, hflat.2⟩
    obtain ⟨index, hindex⟩ := List.mem_iff_getElem?.mp hc
    have hzip : (ConditionLeaf.comparison condition, index) ∈ group.conditions.zipIdx :=
      List.mem_zipIdx_iff_getElem?.mpr hindex
    obtain ⟨found, hfound⟩ := exists_ok_of_mapM hmap hzip
    have hnil : found = [] := List.flatten_eq_nil_iff.mp hflat.1 found
      ((mem_of_mapM hmap).mpr ⟨_, hzip, hfound⟩)
    rw [hnil] at hfound
    exact validComparison_of_ok hfound

variable {known : List String} {spec : StrategySpec}

theorem Valid.parts (h : Valid known spec) :
    validateIndicators [] 0 spec.indicators = [] ∧
      validateConditionGroup spec.indicators spec.entry "entry" true = .ok [] ∧
      validateConditionGroup spec.indicators spec.exit "exit" false = .ok [] := by
  unfold Valid validateSemantics at h
  simp only [bind_eq_ok] at h
  obtain ⟨entry, hentry, exit, hexit, h⟩ := h
  simp only [pure_eq_ok, List.append_eq_nil_iff] at h
  obtain ⟨⟨⟨⟨⟨-, hindicators⟩, rfl⟩, rfl⟩, -⟩, -⟩ := h
  exact ⟨hindicators, hentry, hexit⟩

theorem Valid.validIndicators (h : Valid known spec) : ValidIndicators spec.indicators :=
  (validIndicators_of_nil h.parts.1).2

end Valid

end QBackend.StrategyBuilder
