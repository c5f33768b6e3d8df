import QBackend.CompiledSpecs
import QBackend.GenomeMeaning

/-!
# The meaning of a spec

A spec read as it stands: its indicators on the columns of the bars, its comparisons on the series
that they name, its groups at each bar. A spec that the compiler turns into a genome answers, run as
a composite strategy, as the spec says.
-/

namespace QBackend.StrategyBuilder

open GenomeDsl CausalSeries PriceFloat FallibleSteps RegisteredStrategies
open Execution (Trade)
open DistinctKeys (mem_of_lookup)

variable {F : Type} [PriceFloat F]

/-! ## Series -/

/-- The price columns by their names. -/
def priceColumnReads : List (String × (Row F → F)) :=
  [("open", Row.opn), ("high", Row.high), ("low", Row.low), ("close", Row.close),
    ("volume", Row.volume)]

def PriceColumn.read : PriceColumn → Row F → F
  | .openPrice => Row.opn
  | .high => Row.high
  | .low => Row.low
  | .close => Row.close
  | .volume => Row.volume

/-- The series of an indicator under the names of its ports; none where it is not computed. -/
def IndicatorSpec.series (frame : Frame F) (indicator : IndicatorSpec) :
    Option (List (String × List F)) :=
  let source := frame.column indicator.source.read
  if indicator.type = "sma" then
    (computeMa source indicator.period .sma).toOption.map fun ma => [("", ma)]
  else if indicator.type = "ema" then
    (computeMa source indicator.period .ema).toOption.map fun ma => [("", ma)]
  else if indicator.type = "rsi" then
    (computeRsi source indicator.period).toOption.map fun rsi => [("", rsi)]
  else if indicator.type = "donchian" then
    (computeDonchianChannels (frame.column Row.high) (frame.column Row.low)
      indicator.period).toOption.map fun channel => [("upper", channel.1), ("lower", channel.2)]
  else if indicator.type = "bollinger_bands" then
    (computeBollingerBands source indicator.period (ofRat 2)).toOption.map fun bands =>
      [("upper", bands.1), ("middle", bands.2.1), ("lower", bands.2.2)]
  else none

/-- The indicators of a spec with their series. -/
abbrev SeriesTable (F : Type) := List (IndicatorSpec × List (String × List F))

def seriesTable (frame : Frame F) (indicators : List IndicatorSpec) : Option (SeriesTable F) :=
  indicators.mapM fun indicator => (indicator.series frame).map fun series => (indicator, series)

/-- The series that a reference names; an indicator of one series has it under every port. -/
def namedSeries (frame : Frame F) (table : SeriesTable F) (ref : String) : Option (List F) :=
  ((priceColumnReads.lookup ref).map frame.column).or
    ((table.find? fun entry => entry.1.id = (splitReference ref).1).bind fun entry =>
      (entry.2.lookup (splitReference ref).2).or (entry.2.lookup ""))

/-! ## Conditions -/

def levelOperators : List (String × (F → F → Bool)) := [(">", gt), ("<", lt), (">=", ge), ("<=", le)]

/-- How the two series compare on the bar and on the bar before. -/
def crossingOperators : List (String × (F → F → Bool) × (F → F → Bool)) :=
  [("crosses_above", gt, le), ("crosses_below", lt, ge)]

def crossingLevel (now before : F → F → Bool) (threshold : F) (xs : List F) : List Bool :=
  List.zipWith (fun x p => now x threshold && before p threshold) xs (previous xs)

/-- Two moving averages cross where their difference crosses zero. -/
def crossingSeries (averages : Bool) (operators : (F → F → Bool) × (F → F → Bool))
    (left right : List F) : List Bool :=
  if averages then
    crossingLevel operators.1 operators.2 (ofRat 0) (List.zipWith sub left right)
  else crossing operators.1 operators.2 left right

section Conditions

variable (spec : StrategySpec) (frame : Frame F) (table : SeriesTable F)

def ComparisonCondition.againstSeries (condition : ComparisonCondition) (left right : List F) :
    Option (List Bool) :=
  ((crossingOperators.lookup condition.op).map fun operators =>
    crossingSeries (isMaPair spec condition.left condition.right) operators left right).or
      ((levelOperators.lookup condition.op).map fun compare => List.zipWith compare left right)

/-- Only crossings compare a series with a number. -/
def ComparisonCondition.againstNumber (condition : ComparisonCondition) (left : List F) :
    Option (List Bool) := do
  let operators ← crossingOperators.lookup condition.op
  let threshold ← condition.right.toFloat.toOption
  pure (crossingLevel operators.1 operators.2 (ofRat threshold) left)

/-- The bars on which the comparison holds. -/
def ComparisonCondition.signals (condition : ComparisonCondition) : Option (List Bool) := do
  let left ← namedSeries frame table condition.left
  match condition.right with
  | .text ref => (namedSeries frame table ref).bind (condition.againstSeries spec left)
  | .int _ | .float _ => condition.againstNumber left

def ConditionGroup.signals (group : ConditionGroup) : Option (List (List Bool)) :=
  (comparisonConditions group).mapM fun condition => condition.signals spec frame table

end Conditions

/-- The group holds on a bar; a group without comparisons never does. -/
def ConditionGroup.holds (group : ConditionGroup) (signals : List (List Bool)) (bar : ℕ) : Bool :=
  !signals.isEmpty && match group with
    | .all _ => signals.all fun signal => signalAt (some signal) bar
    | .any _ => signals.any fun signal => signalAt (some signal) bar

/-- What the spec says of a frame: it only buys, and only sells what it bought. -/
def specAnswers (spec : StrategySpec) (frame : Frame F) : Option (Answers F) := do
  let table ← seriesTable frame spec.indicators
  let entry ← spec.entry.signals spec frame table
  let exit ← spec.exit.signals spec frame table
  pure {
    entries := fun symbol bar => enterOn symbol (spec.entry.holds entry bar) false one
    exits := fun symbol bar openTrades =>
      openTrades.filterMap (sideExit symbol (spec.exit.holds exit bar) false) }

/-- The strategy that `_build_composite` makes of what was compiled. -/
def CompiledStrategy.composite (F : Type) [PriceFloat F] (compiled : CompiledStrategy) :
    Strategy F where
  genome := compiled.genome
  trial := fun key => compiled.strategyParams.lookup key

section Signals

variable {spec : StrategySpec} {frame : Frame F} {table : SeriesTable F}
  {condition : ComparisonCondition} {left : List F}

theorem signals_of_series {ref : String} {right : List F}
    (hleft : namedSeries frame table condition.left = some left) (href : condition.right = .text ref)
    (hright : namedSeries frame table ref = some right) :
    condition.signals spec frame table = condition.againstSeries spec left right := by
  unfold ComparisonCondition.signals
  rw [hleft, href]
  show (namedSeries frame table ref).bind _ = _
  rw [hright]
  rfl

theorem signals_of_number (hleft : namedSeries frame table condition.left = some left)
    (hnumber : condition.right.isNumber = true) :
    condition.signals spec frame table = condition.againstNumber left := by
  unfold ComparisonCondition.signals
  rw [hleft]
  cases hright : condition.right with
  | text ref =>
    rw [hright] at hnumber
    cases hnumber
  | int n => rfl
  | float q => rfl

end Signals

/-! ## Lengths -/

section Lengths

variable {spec : StrategySpec} {frame : Frame F} {table : SeriesTable F}

omit [PriceFloat F] in
theorem mapped_lengths {α : Type} {n : ℕ} {x : Except Failure α} {P : α → Prop}
    {f : α → List (String × List F)} {series : List (String × List F)} (hx : Returns x P)
    (hf : ∀ a, P a → ∀ s ∈ f a, s.2.length = n) (h : x.toOption.map f = some series) :
    ∀ s ∈ series, s.2.length = n := by
  obtain ⟨a, ha, rfl⟩ := Option.map_eq_some_iff.mp h
  exact hf a (hx a (eq_ok_of_toOption ha))

theorem IndicatorSpec.series_length {indicator : IndicatorSpec} {series : List (String × List F)}
    (h : indicator.series frame = some series) : ∀ s ∈ series, s.2.length = frame.rows.length := by
  have hcolumn : ∀ read : Row F → F, (frame.column read).length = frame.rows.length :=
    length_column frame
  unfold IndicatorSpec.series at h
  split_ifs at h
  · exact mapped_lengths (computeMa_length (hcolumn _)) (by simp) h
  · exact mapped_lengths (computeMa_length (hcolumn _)) (by simp) h
  · exact mapped_lengths (computeRsi_length (hcolumn _)) (by simp) h
  · exact mapped_lengths (computeDonchianChannels_length (hcolumn _) (hcolumn _)) (by simp) h
  · exact mapped_lengths (computeBollingerBands_length (hcolumn _)) (by simp) h

theorem mem_seriesTable {indicators : List IndicatorSpec} (h : seriesTable frame indicators = some table)
    {entry : IndicatorSpec × List (String × List F)} (hentry : entry ∈ table) :
    entry.1.series frame = some entry.2 := by
  induction indicators generalizing table with
  | nil =>
    obtain rfl := Option.some.inj h
    cases hentry
  | cons indicator indicators ih =>
    unfold seriesTable at h ih
    rw [List.mapM_cons] at h
    obtain ⟨first, hfirst, h⟩ := Option.bind_eq_some_iff.mp h
    obtain ⟨rest, hrest, h⟩ := Option.bind_eq_some_iff.mp h
    obtain rfl := Option.some.inj h
    obtain ⟨series, hseries, rfl⟩ := Option.map_eq_some_iff.mp hfirst
    obtain rfl | hentry := List.mem_cons.mp hentry
    · exact hseries
    · exact ih hrest hentry

theorem map_fst_seriesTable {indicators : List IndicatorSpec}
    (h : seriesTable frame indicators = some table) : table.map Prod.fst = indicators := by
  induction indicators generalizing table with
  | nil =>
    obtain rfl := Option.some.inj h
    rfl
  | cons indicator indicators ih =>
    unfold seriesTable at h ih
    rw [List.mapM_cons] at h
    obtain ⟨first, hfirst, h⟩ := Option.bind_eq_some_iff.mp h
    obtain ⟨rest, hrest, h⟩ := Option.bind_eq_some_iff.mp h
    obtain rfl := Option.some.inj h
    obtain ⟨series, -, rfl⟩ := Option.map_eq_some_iff.mp hfirst
    rw [List.map_cons, ih hrest]

theorem length_namedSeries
    (htable : ∀ entry ∈ table, ∀ s ∈ entry.2, s.2.length = frame.rows.length) {ref : String}
    {xs : List F} (h : namedSeries frame table ref = some xs) : xs.length = frame.rows.length := by
  unfold namedSeries at h
  obtain h | ⟨-, h⟩ := Option.or_eq_some_iff.mp h
  · obtain ⟨read, -, rfl⟩ := Option.map_eq_some_iff.mp h
    exact length_column frame read
  · obtain ⟨entry, hentry, h⟩ := Option.bind_eq_some_iff.mp h
    have hmem := List.mem_of_find?_eq_some hentry
    obtain h | ⟨-, h⟩ := Option.or_eq_some_iff.mp h
    · exact htable entry hmem _ (mem_of_lookup h)
    · exact htable entry hmem _ (mem_of_lookup h)

theorem length_crossingLevel {n : ℕ} {now before : F → F → Bool} {threshold : F} {xs : List F}
    (h : xs.length = n) : (crossingLevel now before threshold xs).length = n :=
  length_zipWith h (length_previous h)

theorem length_againstSeries {condition : ComparisonCondition} {left right : List F} {n : ℕ}
    (hl : left.length = n) (hr : right.length = n) {signal : List Bool}
    (h : condition.againstSeries spec left right = some signal) : signal.length = n := by
  obtain h | ⟨-, h⟩ := Option.or_eq_some_iff.mp h
  · obtain ⟨operators, -, rfl⟩ := Option.map_eq_some_iff.mp h
    unfold crossingSeries
    split
    · exact length_crossingLevel (length_zipWith hl hr)
    · exact length_crossing hl hr
  · obtain ⟨compare, -, rfl⟩ := Option.map_eq_some_iff.mp h
    exact length_zipWith hl hr

theorem length_againstNumber {condition : ComparisonCondition} {left : List F} {n : ℕ}
    (hl : left.length = n) {signal : List Bool}
    (h : condition.againstNumber left = some signal) : signal.length = n := by
  obtain ⟨operators, -, h⟩ := Option.bind_eq_some_iff.mp h
  obtain ⟨threshold, -, h⟩ := Option.bind_eq_some_iff.mp h
  obtain rfl := Option.some.inj h
  exact length_crossingLevel hl

theorem length_signals
    (htable : ∀ entry ∈ table, ∀ s ∈ entry.2, s.2.length = frame.rows.length)
    {condition : ComparisonCondition} {signal : List Bool}
    (h : condition.signals spec frame table = some signal) : signal.length = frame.rows.length := by
  obtain ⟨left, hleft, -⟩ := Option.bind_eq_some_iff.mp h
  have hl := length_namedSeries htable hleft
  cases hright : condition.right with
  | text ref =>
    cases hnamed : namedSeries frame table ref with
    | none =>
      unfold ComparisonCondition.signals at h
      rw [hleft, hright] at h
      simp [hnamed] at h
    | some right =>
      rw [signals_of_series hleft hright hnamed] at h
      exact length_againstSeries hl (length_namedSeries htable hnamed) h
  | int n =>
    rw [signals_of_number hleft (by rw [hright]; rfl)] at h
    exact length_againstNumber hl h
  | float q =>
    rw [signals_of_number hleft (by rw [hright]; rfl)] at h
    exact length_againstNumber hl h

end Lengths

end QBackend.StrategyBuilder
