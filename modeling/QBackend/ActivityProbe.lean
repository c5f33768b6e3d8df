import QBackend.AcceptedRuns
import QBackend.GeneticProvider
import Mathlib.Data.Int.Log
import Mathlib.Data.Rat.Floor

/-!
# Activity probes and repairs

`activity.py`: how often a genome signals on one frame, and the repairs of a genome that does not
signal often enough. A `GenomeValidationError` ends an attempt, everything else that is raised ends
the call. The quantiles are those of pandas.
-/

namespace QBackend.GenomeDsl

open PriceFloat FallibleSteps
open GeneticSearch (collectGenomeParamKeys)

/-! ## What is raised -/

inductive SearchError where
  | invalid (e : ValidationError)
  | raised (e : Failure)
  | overflowError
  deriving DecidableEq, Repr

/-- `except GenomeValidationError`. -/
def SearchError.caught : SearchError → Bool
  | .invalid e => decide (e ≠ .typeError)
  | _ => false

/-! ## Floats -/

/-- The quantiles of the values of a series, those of booleans too, and a float as the literal of a
parameter, which is read back as itself. -/
class ProbeFloat (F : Type) extends PriceFloat F where
  quantile : List F → ℚ → F
  boolQuantile : List Bool → ℚ → Except Failure F
  literal : F → Value
  toFloat_literal : ∀ x, (literal x).toFloat = .ok x

/-- Half to even. -/
def roundEven (x : ℚ) : ℤ :=
  if x - ⌊x⌋ < 1 / 2 then ⌊x⌋
  else if 1 / 2 < x - ⌊x⌋ then ⌊x⌋ + 1
  else if ⌊x⌋ % 2 = 0 then ⌊x⌋ else ⌊x⌋ + 1

/-- The float of 53 binary digits next to the number. -/
def roundDouble (x : ℚ) : ℚ :=
  let unit : ℚ := 2 ^ (Int.log 2 |x| - 52)
  roundEven (x / unit) * unit

/-- From here on an integer is too large for a float. -/
def floatLimit : ℤ := 2 ^ 1024 - 2 ^ 970

/-- `int(current * 0.6)`. -/
def sixTenths : Value → Except SearchError ℤ
  | .int n =>
    if floatLimit ≤ |n| then .error .overflowError
    else ((Value.float (roundDouble (roundDouble n * roundDouble (3 / 5)))).toInt).mapError .raised
  | .float q => ((Value.float (roundDouble (q * roundDouble (3 / 5)))).toInt).mapError .raised
  | .bool b =>
    ((Value.float (if b then roundDouble (3 / 5) else 0)).toInt).mapError .raised
  | _ => .error (.raised (.typeError "can't multiply sequence by non-int of type 'float'"))

section Floats

variable {F : Type} [PriceFloat F]

/-- `max(a, b)` -/
def pyMax (a b : F) : F := if lt a b then b else a

/-- `min(a, b)` -/
def pyMin (a b : F) : F := if lt b a then b else a

/-- `rng.uniform(a, b)` for the value of `rng.random()`. -/
def uniform (random a b : F) : F := add a (mul (sub b a) random)

end Floats

/-! ## Assignments -/

/-- `params[key] = value` -/
def assignKey (params : List (String × ParamValue)) (key : String) (value : ParamValue) :
    List (String × ParamValue) :=
  if key ∈ params.map Prod.fst then
    params.map fun param => if param.1 = key then (key, value) else param
  else params ++ [(key, value)]

theorem map_fst_assignKey {params : List (String × ParamValue)} {key : String} (value : ParamValue)
    (h : key ∈ params.map Prod.fst) :
    (assignKey params key value).map Prod.fst = params.map Prod.fst := by
  rw [assignKey, if_pos h, List.map_map]
  refine List.map_congr_left fun param _ => ?_
  by_cases heq : param.1 = key
  · simp [heq]
  · simp [heq]

theorem nodup_assignKey {params : List (String × ParamValue)} (key : String) (value : ParamValue)
    (h : (params.map Prod.fst).Nodup) : ((assignKey params key value).map Prod.fst).Nodup := by
  by_cases hmem : key ∈ params.map Prod.fst
  · rw [map_fst_assignKey value hmem]
    exact h
  · rw [assignKey, if_neg hmem, List.map_append, List.map_singleton, List.nodup_append]
    refine ⟨h, List.nodup_singleton key, ?_⟩
    rintro a ha b hb rfl
    obtain rfl := List.mem_singleton.mp hb
    exact hmem ha

def GenomeNode.assign (node : GenomeNode) (key : String) (value : ParamValue) : GenomeNode :=
  { node with
    params := assignKey node.params key value
    keysNodup := nodup_assignKey key value node.keysNodup }

/-- The parameter of the node with the id. -/
def Genome.assign (genome : Genome) (id key : String) (value : ParamValue) : Genome :=
  { genome with
    nodes := genome.nodes.map fun node => if node.id = id then node.assign key value else node }

def Genome.entryRef (genome : Genome) : Side → String
  | .long => genome.entryLong
  | .short => genome.entryShort

def Genome.setEntry (genome : Genome) (ref : String) : Side → Genome
  | .long => { genome with entryLong := ref }
  | .short => { genome with entryShort := ref }

/-! ## Activity -/

section Activity

variable {F : Type} [PriceFloat F]

structure ActivityStats where
  nEntries : ℕ
  nExits : ℕ
  minSignals : ℤ

def ActivityStats.isTradeable (stats : ActivityStats) : Bool :=
  decide (stats.minSignals ≤ stats.nEntries)

def defaultTrialParams (genome : Genome) : Except SearchError (List (String × Value)) :=
  ((collectGenomeParamKeys genome).insertionSort (· ≤ ·)).mapM fun key =>
    match genomeParamBounds.lookup key with
    | some bounds => .ok (key, bounds.default)
    | none => .error (.raised (.keyError key))

/-- `CompositeStrategy(genome=genome, params=params).compute_indicators(df)` -/
def probeIndicators (genome : Genome) (trialParams : List (String × Value)) (frame : Frame F) :
    Except SearchError (Indicators F) := do
  (validateGenome F genome defaultMaxDepth defaultMaxNodeCount).mapError .invalid
  (freshIndicators { genome := genome, trial := fun key => trialParams.lookup key }
    frame).mapError .raised

def countRisingEdges (values : List Bool) : ℕ :=
  if values.length < 2 then values.countP id
  else (values.zip values.tail).countP fun pair => !pair.1 && pair.2

/-- The crossings of the exits; where there are none, those of the column of a boolean exit. -/
def countExits (plan : ExecutionPlan) (indicators : Indicators F) : ℕ :=
  let nExits := ((indicators.exitLongSignal.map countRisingEdges).getD 0) +
    ((indicators.exitShortSignal.map countRisingEdges).getD 0)
  if nExits = 0 ∧ plan.exitLong.policy = .bool then
    match (plan.exitLong.column.or plan.exitShort.column).bind indicators.columns with
    | some column => countRisingEdges column.signals
    | none => nExits
  else nExits

def genomeSignalActivity (genome : Genome) (frame : Frame F) (minSignals : ℤ)
    (trialParams : List (String × Value)) : Except SearchError ActivityStats :=
  if frame.rows = [] then .ok ⟨0, 0, minSignals⟩
  else do
    let params ← if trialParams = [] then defaultTrialParams genome else .ok trialParams
    let indicators ← probeIndicators genome params frame
    let plan ← (compilePlan genome fun key => params.lookup key).mapError .raised
    pure
      { nEntries := countRisingEdges indicators.entryLongSignal +
          countRisingEdges indicators.entryShortSignal
        nExits := countExits plan indicators
        minSignals := minSignals }

end Activity

/-! ## Repairs -/

/-- The random choices of a call, by the place where they are made: the value of `random()` for the
threshold of a node, and the index that `choice` takes for an entry. -/
structure RepairDraws (F : Type) where
  random : ℕ → String → F
  choice : ℕ → Side → ℕ

/-- The limits of the search. -/
structure Limits where
  maxNodes : ℕ
  maxDepth : ℕ

section Repairs

variable {F : Type} [ProbeFloat F]

variable (F) in
def validateOrRaise (genome : Genome) (limits : Limits) : Except SearchError Genome := do
  (validateGenome F genome limits.maxDepth limits.maxNodes).mapError .invalid
  pure genome

/-- `series.dropna()` -/
def Column.dropna : Column F → Column F
  | .numbers xs => .numbers (xs.filter fun x => !isNaN x)
  | .bools bs => .bools (bs.filter Option.isSome)

def Column.quantile (column : Column F) (q : ℚ) : Except SearchError F :=
  match column with
  | .numbers xs => .ok (ProbeFloat.quantile xs q)
  | .bools bs => (ProbeFloat.boolQuantile (bs.map fun b => b.getD false) q).mapError .raised

/-- The values of the first input of a node on the frame. -/
def parentSeries (genome : Genome) (frame : Frame F) (cmpNode : GenomeNode)
    (trialParams : List (String × Value)) : Except SearchError (Option (Column F)) :=
  match cmpNode.inputs with
  | [] => .ok none
  | raw :: _ => do
    let indicators ← probeIndicators genome trialParams frame
    match indicators.columns (columnName (parseInputRef raw).1 (parseInputRef raw).2) with
    | none => pure none
    | some column => pure (if column.dropna.length = 0 then none else some column.dropna)

/-- The nodes whose threshold is moved. -/
def GenomeNode.Crosses (node : GenomeNode) : Bool :=
  (decide (node.kind = .cmpCrossAbove) || decide (node.kind = .cmpCrossBelow)) &&
    decide ("threshold" ∈ node.params.map Prod.fst)

/-- The threshold for the values of the first input, which has the given type. -/
def recenteredThreshold (kind : NodeKind) (type : OutputType) (random : F) (series : Column F) :
    Except SearchError F := do
  let low ← series.quantile (1 / 4)
  let median ← series.quantile (1 / 2)
  let high ← series.quantile (3 / 4)
  let (low, median, high) :=
    if type = .oscillator then
      let low := pyMax (ofRat 0) low
      let high := pyMin (ofRat 100) high
      (low, pyMin (pyMax median low) high, high)
    else (low, median, high)
  pure (if le high low then median
    else if kind = .cmpCrossAbove then uniform random low median
    else uniform random median high)

/-- The genome in the loop over its nodes, and whether a threshold was moved. -/
structure Recentering where
  child : Genome
  changed : Bool

def portType (kind : NodeKind) (port : String) : Except SearchError OutputType := do
  -- the default of `get` is looked up even where the port is there
  let out ← (getKey (nodeSpec kind).ports "out").mapError .raised
  pure ((portOutputType kind port).getD out)

def recenterNode (random : String → F) (frame : Frame F) (trialParams : List (String × Value))
    (s : Recentering) (node : GenomeNode) : Except SearchError Recentering :=
  if node.Crosses then do
    match ← parentSeries s.child frame node trialParams with
    | none => pure s
    | some series =>
      let source := parseInputRef (node.inputs.headD "")
      let parent ← (s.child.getNode source.1).mapError .raised
      let type ← portType parent.kind source.2
      let target ← recenteredThreshold node.kind type (random node.id) series
      pure ⟨s.child.assign node.id "threshold" (.lit (ProbeFloat.literal target)), true⟩
  else pure s

def repairRecenterThresholds (random : String → F) (genome : Genome) (frame : Frame F)
    (limits : Limits) : Except SearchError Genome := do
  let trialParams ← defaultTrialParams genome
  let s ← genome.nodes.foldlM (recenterNode random frame trialParams) ⟨genome, false⟩
  if s.changed then validateOrRaise F s.child limits else pure s.child

def periodParamKeys : List String :=
  ["period", "lookback_bars", "lookback_1", "lookback_2", "lookback_3", "fast_period",
    "slow_period", "vol_window"]

/-- What a period is shortened from. -/
def currentPeriod : ParamValue → Option Value
  | .ref param _ => some (((genomeParamBounds.lookup param).map ParamSpec.default).getD (.int 10))
  | .lit (.int n) => some (.int n)
  | .lit (.bool b) => some (.bool b)
  | .lit _ => none

def shortenKey (node : GenomeNode) (key : String) : Except SearchError GenomeNode :=
  match (node.params.lookup key).bind currentPeriod with
  | none => pure node
  | some current => do
    let shortened ← sixTenths current
    pure (node.assign key (.lit (.int (max 2 shortened))))

def shortenNode (node : GenomeNode) : Except SearchError GenomeNode :=
  if node.kind.family = .ind then periodParamKeys.foldlM shortenKey node else pure node

/-- Some period of the node is shortened. -/
def GenomeNode.Shortens (node : GenomeNode) : Bool :=
  decide (node.kind.family = .ind) &&
    periodParamKeys.any fun key => ((node.params.lookup key).bind currentPeriod).isSome

variable (F) in
def repairShortenLookbacks (genome : Genome) (limits : Limits) : Except SearchError Genome := do
  let nodes ← genome.nodes.mapM shortenNode
  let child := { genome with nodes := nodes }
  if genome.nodes.any GenomeNode.Shortens then validateOrRaise F child limits else pure child

/-- The entry of a side with whether it was changed. -/
def relaxEntry (choice : Side → ℕ) (s : Recentering) (side : Side) :
    Except SearchError Recentering :=
  match s.child.node? (parseInputRef (s.child.entryRef side)).1 with
  | none => pure s
  | some node =>
    if node.kind = .logicAnd then
      match node.parents[choice side % node.parents.length]? with
      | none => .error (.raised .indexError)
      | some replacement => pure ⟨s.child.setEntry replacement side, true⟩
    else pure s

variable (F) in
def repairRelaxLogicAnd (choice : Side → ℕ) (genome : Genome) (limits : Limits) :
    Except SearchError Genome := do
  let s ← [Side.long, Side.short].foldlM (relaxEntry choice) ⟨genome, false⟩
  if s.changed then validateOrRaise F s.child limits else pure s.child

/-- `_REPAIR_OPERATIONS[attempt % 3]` -/
def repairOperation (draws : RepairDraws F) (attempt : ℕ) (genome : Genome) (frame : Frame F)
    (limits : Limits) : Except SearchError Genome :=
  match attempt % 3 with
  | 0 => repairRecenterThresholds (draws.random attempt) genome frame limits
  | 1 => repairShortenLookbacks F genome limits
  | _ => repairRelaxLogicAnd F (draws.choice attempt) genome limits

/-- One attempt: the genome that is returned, or the one to go on with. -/
def repairAttempt (draws : RepairDraws F) (frame : Frame F) (minSignals : ℤ) (limits : Limits)
    (current : Genome) (attempt : ℕ) : Except SearchError (Genome ⊕ Genome) :=
  let result : Except SearchError (Genome ⊕ Genome) := do
    let candidate ← repairOperation draws attempt current frame limits
    let stats ← genomeSignalActivity candidate frame minSignals []
    pure (if stats.isTradeable then .inl candidate else .inr candidate)
  match result with
  | .ok outcome => .ok outcome
  | .error e => if e.caught then .ok (.inr current) else .error e

def repairAttempts (draws : RepairDraws F) (frame : Frame F) (minSignals : ℤ) (limits : Limits) :
    List ℕ → Genome → Except SearchError Genome
  | [], current => .ok current
  | attempt :: rest, current => do
    match ← repairAttempt draws frame minSignals limits current attempt with
    | .inl candidate => pure candidate
    | .inr next => repairAttempts draws frame minSignals limits rest next

def repairGenome (draws : RepairDraws F) (genome : Genome) (frame : Frame F) (minSignals : ℤ)
    (limits : Limits) (maxAttempts : ℕ) : Except SearchError Genome := do
  let stats ← genomeSignalActivity genome frame minSignals []
  if stats.isTradeable then pure genome
  else repairAttempts draws frame minSignals limits (List.range maxAttempts) genome

end Repairs

end QBackend.GenomeDsl
