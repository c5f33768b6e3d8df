import QBackend.GenomeSchema
import QBackend.TopologicalOrder
import QBackend.FallibleSteps
import Mathlib.Data.List.Sort

/-!
# Validation of genomes

`validate.py`, with one constructor of `ValidationError` for each statement that raises, and
`resolve_node_params`. Below the checks, what an accepted genome has.
-/

namespace QBackend.GenomeDsl

open FallibleSteps TopologicalOrder

inductive ValidationError where
  | tooManyNodes (count maximum : ℕ)
  | duplicateNodes
  | unknownParams (id : String) (keys : List String)
  | unknownParamRef (id param : String)
  | shiftBarsNotOne (id : String)
  | changeBarsNotPositive (id : String)
  | clipBoundsReversed (id : String)
  | notHhmm (id key : String)
  | windowReversed (id : String)
  | inputCount (id : String) (count : ℕ)
  | unknownInput (id raw : String)
  | invalidPort (id raw : String)
  | inputType (id raw : String)
  | cycle
  | tooDeep (id : String) (depth maximum : ℕ)
  | unknownSignalNode (label ref : String)
  | invalidSignalPort (label ref : String)
  | signalType (label ref : String)
  | presetIdMissing
  | unknownPreset (id : String)
  | exitParamsMissing
  | unknownExitParamRef (param : String)
  | exitParamOutsidePreset (name preset : String)
  /-- A `TypeError` of a comparison, which is not caught. -/
  | typeError
  deriving DecidableEq, Repr

def defaultMaxDepth : ℕ := 12

def defaultMaxNodeCount : ℕ := 24

/-! ## Parameters -/

/-- Raises when the literal is a number for which `bad literal bound` holds. -/
def compareLiterals (bad : ℚ → ℚ → Bool) (value : Value) (bound : ParamValue)
    (e : ValidationError) : Except ValidationError Unit :=
  match value.number?, bound with
  | some v, .lit b =>
    match b.number? with
    | some b => ensure (bad v b = false) e
    | none => .error .typeError
  | _, _ => .ok ()

def validateClip (node : GenomeNode) (key : String) (value : Value) :
    Except ValidationError Unit := do
  if key = "clip_low" then
    match node.params.lookup "clip_high" with
    | some high => compareLiterals (fun v b => decide (b < v)) value high (.clipBoundsReversed node.id)
    | none => .ok ()
  else if key = "clip_high" then
    match node.params.lookup "clip_low" with
    | some low => compareLiterals (fun v b => decide (v < b)) value low (.clipBoundsReversed node.id)
    | none => .ok ()
  else .ok ()

def hhmmKeys : List String := ["session_open", "session_close", "window_from", "window_to"]

section Validate

variable (F : Type) [PriceFloat F]

/-- Both ends of a window, when both are literals. -/
def validateWindow (node : GenomeNode) (start stop : Value) : Except ValidationError Unit :=
  match hhmmToMinutes (start.toStr F), hhmmToMinutes (stop.toStr F) with
  | .ok a, .ok b => ensure (a < b) (.windowReversed node.id)
  | _, _ => .error (.notHhmm node.id "window_to")

def validateLiteral (node : GenomeNode) (key : String) (value : Value) :
    Except ValidationError Unit :=
  if key = "bars" ∧ node.kind = .transformShift then
    ensure (value.number? = some 1) (.shiftBarsNotOne node.id)
  else if key = "change_bars" ∧ node.kind = .transformPctChange then
    ensure (value.isInt = true ∧ value.number?.any (fun q => decide (1 ≤ q)) = true)
      (.changeBarsNotPositive node.id)
  else if node.kind = .transformClip then validateClip node key value
  else
    match node.kind, key, node.params.lookup "window_from" with
    | .featureSessionWindow, "window_to", some (.lit start) => validateWindow F node start value
    | _, _, _ =>
      if key ∈ hhmmKeys then
        ensure (parseHhmm (value.toStr F)).toBool (.notHhmm node.id key)
      else .ok ()

def validateParam (node : GenomeNode) (param : String × ParamValue) :
    Except ValidationError Unit :=
  match param.2 with
  | .ref name _ =>
    ensure ((genomeParamBounds.lookup name).isSome = true) (.unknownParamRef node.id name)
  | .lit value => validateLiteral F node param.1 value

/-! ## Inputs -/

/-- What the family of the kind asks of the type of an input. -/
def familyAccepts (kind : NodeKind) (type : OutputType) : Bool :=
  match kind, kind.family with
  | .exitMiddleBand, _ => decide (type = .priceSeries)
  | _, .logic => decide (type = .boolSeries)
  | _, .cmp => decide (type ≠ .boolSeries)
  | _, _ => true

/-- Where the inputs are typed, price series and oscillators stand for each other. -/
def seriesAccepts (kind : NodeKind) (index : ℕ) (type : OutputType) : Bool :=
  match (nodeSpec kind).inputSeriesTypes with
  | none => true
  | some types => decide (type = .priceSeries ∨ type = .oscillator ∨ types[index]? = some type)

def validateInput (genome : Genome) (node : GenomeNode) (raw : String) :
    Except ValidationError Unit :=
  match genome.node? (parseInputRef raw).1 with
  | none => .error (.unknownInput node.id raw)
  | some parent =>
    match portOutputType parent.kind (parseInputRef raw).2 with
    | none => .error (.invalidPort node.id raw)
    | some type =>
      ensure (familyAccepts node.kind type = true ∧
        seriesAccepts node.kind (node.inputs.idxOf raw) type = true) (.inputType node.id raw)

def validateNode (genome : Genome) (node : GenomeNode) : Except ValidationError Unit := do
  let spec := nodeSpec node.kind
  let unknown := (node.params.map Prod.fst).filter fun key => key ∉ spec.allowedParamKeys
  ensure (unknown = []) (.unknownParams node.id unknown)
  node.params.forM (validateParam F node)
  ensure (spec.minInputs ≤ node.inputs.length ∧ node.inputs.length ≤ spec.maxInputs)
    (.inputCount node.id node.inputs.length)
  node.inputs.forM (validateInput genome node)

/-! ## The graph -/

def assertAcyclic (genome : Genome) : Except ValidationError Unit :=
  ensure ((kahn genome.ids genome.parents).length = genome.ids.length) .cycle

/-- The longest chain of inputs from the node down. A chain of an acyclic genome has no more
nodes than the genome, so that many levels of recursion are enough. -/
def nodeDepth (genome : Genome) : ℕ → String → ℕ
  | 0, _ => 0
  | fuel + 1, id => 1 + ((genome.parents id).map (nodeDepth genome fuel)).foldr max 0

def validateDepth (genome : Genome) (maxDepth : ℕ) (node : GenomeNode) :
    Except ValidationError Unit :=
  let depth := nodeDepth genome genome.nodes.length node.id
  ensure (depth ≤ maxDepth) (.tooDeep node.id depth maxDepth)

/-! ## Signals -/

def requireBoolRef (genome : Genome) (label ref : String) : Except ValidationError Unit :=
  match genome.node? (parseInputRef ref).1 with
  | none => .error (.unknownSignalNode label ref)
  | some node =>
    match portOutputType node.kind (parseInputRef ref).2 with
    | none => .error (.invalidSignalPort label ref)
    | some type => ensure (type = .boolSeries) (.signalType label ref)

/-- An exit may also be a policy, whatever the port. -/
def requireExitRef (genome : Genome) (label ref : String) : Except ValidationError Unit :=
  match genome.node? (parseInputRef ref).1 with
  | none => .error (.unknownSignalNode label ref)
  | some node => if node.kind.family = .exit then .ok () else requireBoolRef genome label ref

def validateSignalRefs (genome : Genome) : Except ValidationError Unit := do
  requireBoolRef genome "entry_long" genome.entryLong
  requireBoolRef genome "entry_short" genome.entryShort
  requireExitRef genome "exit_long" genome.exitLong
  requireExitRef genome "exit_short" genome.exitShort

/-! ## Exit rule policies -/

structure ExitRuleInfo where
  enableParam : String
  paramNames : List String
  requiredParamNames : List String

/-- `list_exit_rules`, in the order of `EXIT_RULES`. -/
def exitRules : List ExitRuleInfo :=
  [⟨"stop_loss_pct", ["stop_loss_pct"], []⟩,
    ⟨"stop_loss_atr", ["stop_loss_atr"], ["atr_period"]⟩,
    ⟨"take_profit_pct", ["take_profit_pct"], []⟩,
    ⟨"take_profit_atr", ["take_profit_atr"], ["atr_period"]⟩,
    ⟨"trailing_stop_pct", ["trailing_stop_pct"], []⟩,
    ⟨"chandelier_atr_mult", ["chandelier_atr_mult"], ["atr_period"]⟩,
    ⟨"breakeven_trigger_pct", ["breakeven_trigger_pct", "breakeven_offset_pct"], []⟩,
    ⟨"psar_af_start", ["psar_af_start", "psar_af_step", "psar_af_max"], []⟩,
    ⟨"target_ratchet_atr", ["target_ratchet_atr"], ["atr_period"]⟩,
    ⟨"max_bars_in_trade", ["max_bars_in_trade"], []⟩,
    ⟨"donchian_exit_period", ["donchian_exit_period"], []⟩]

/-- `EXIT_PRESETS`, by id and parameter names. -/
def exitPresets : List (String × List String) :=
  [("atr_stop_chandelier", ["stop_loss_atr", "atr_period", "chandelier_atr_mult"]),
    ("breakeven_time_stop",
      ["breakeven_trigger_pct", "breakeven_offset_pct", "max_bars_in_trade"]),
    ("fixed_pct_bracket", ["stop_loss_pct", "take_profit_pct"]),
    ("parabolic_sar_trail", ["psar_af_start", "psar_af_step", "psar_af_max"]),
    ("donchian_channel_trail", ["donchian_exit_period"]),
    ("ratchet_target_atr_stop", ["target_ratchet_atr", "stop_loss_atr", "atr_period"])]

def singleStopPresets : List String := ["fixed_stop_only", "atr_stop_only"]

def presetExitParamNames (names : List String) : List String :=
  names ++ (exitRules.filter fun rule =>
      names.contains rule.enableParam || rule.paramNames.any names.contains).flatMap fun rule =>
    rule.enableParam :: (rule.paramNames ++ rule.requiredParamNames)

def validateExitBinding (preset : String) (binding : String × ParamValue) :
    Except ValidationError Unit :=
  match binding.2 with
  | .lit _ => .ok ()
  | .ref param _ => do
    ensure ((genomeParamBounds.lookup param).isSome = true) (.unknownExitParamRef param)
    match exitPresets.lookup preset with
    | none => .ok ()
    | some names =>
      ensure (binding.1 ∈ presetExitParamNames names) (.exitParamOutsidePreset binding.1 preset)

def validateExitRulePolicy (genome : Genome) : Except ValidationError Unit :=
  match genome.exitRulePolicy with
  | none => .ok ()
  | some policy =>
    match policy.presetId with
    | none => .error .presetIdMissing
    | some preset => do
      ensure (preset ≠ "") .presetIdMissing
      ensure (preset ∈ exitPresets.map Prod.fst ++ singleStopPresets) (.unknownPreset preset)
      match policy.params with
      | none => .error .exitParamsMissing
      | some params => do
        ensure (params ≠ []) .exitParamsMissing
        params.forM (validateExitBinding preset)

/-! ## The whole document -/

def validateGenome (genome : Genome) (maxDepth maxNodeCount : ℕ) :
    Except ValidationError Unit := do
  ensure (genome.nodes.length ≤ maxNodeCount) (.tooManyNodes genome.nodes.length maxNodeCount)
  ensure genome.ids.Nodup .duplicateNodes
  genome.nodes.forM (validateNode F genome)
  assertAcyclic genome
  genome.nodes.forM (validateDepth genome maxDepth)
  validateSignalRefs genome
  validateExitRulePolicy genome

/-- The genome is accepted, with the limits that the code uses. -/
def Accepted (genome : Genome) : Prop :=
  validateGenome F genome defaultMaxDepth defaultMaxNodeCount = .ok ()

instance (genome : Genome) : Decidable (Accepted F genome) :=
  decidable_of_iff _ toBool_eq_true

end Validate

/-- A reference takes the value of the trial, or the default. -/
def resolveParam (trial : TrialParams) : ParamValue → Value
  | .lit value => value
  | .ref param negate =>
    let value := (trial param).getD
      (((genomeParamBounds.lookup param).map ParamSpec.default).getD .null)
    if negate then value.negate else value

/-- `resolve_node_params`; the dict is listed in the order of its keys. -/
def resolveNodeParams (trial : TrialParams) (node : GenomeNode) : List (String × Value) :=
  let resolved := node.params.map fun param => (param.1, resolveParam trial param.2)
  let items :=
    if node.kind = .transformShift ∧ "bars" ∉ node.params.map Prod.fst then
      ("bars", .int 1) :: resolved
    else resolved
  items.insertionSort fun a b => a.1 ≤ b.1

/-! ## What an accepted genome has -/

section Accepted

variable {F : Type} [PriceFloat F] {genome : Genome}

/-- The part of the checks of a node that the graph needs. -/
structure WellConnected (genome : Genome) (node : GenomeNode) : Prop where
  arity : (nodeSpec node.kind).minInputs ≤ node.inputs.length ∧
    node.inputs.length ≤ (nodeSpec node.kind).maxInputs
  inputs : ∀ raw ∈ node.inputs, ∃ parent type, genome.node? (parseInputRef raw).1 = some parent ∧
    portOutputType parent.kind (parseInputRef raw).2 = some type ∧
    familyAccepts node.kind type = true ∧
    seriesAccepts node.kind (node.inputs.idxOf raw) type = true

theorem validateInput_ok {node : GenomeNode} {raw : String}
    (h : validateInput genome node raw = .ok ()) :
    ∃ parent type, genome.node? (parseInputRef raw).1 = some parent ∧
      portOutputType parent.kind (parseInputRef raw).2 = some type ∧
      familyAccepts node.kind type = true ∧
      seriesAccepts node.kind (node.inputs.idxOf raw) type = true := by
  unfold validateInput at h
  split at h
  · cases h
  next parent hparent =>
    split at h
    · cases h
    next type htype => exact ⟨parent, type, hparent, htype, ensure_eq_ok.mp h⟩

theorem validateNode_ok {node : GenomeNode} (h : validateNode F genome node = .ok ()) :
    (∀ key ∈ node.params.map Prod.fst, key ∈ (nodeSpec node.kind).allowedParamKeys) ∧
      (∀ param ∈ node.params, validateParam F node param = .ok ()) ∧
      WellConnected genome node := by
  simp only [validateNode, seq_eq_ok, ensure_eq_ok, forM_eq_ok] at h
  obtain ⟨hkeys, hparams, harity, hinputs⟩ := h
  refine ⟨fun key hkey => ?_, hparams, harity, fun raw hraw => validateInput_ok (hinputs raw hraw)⟩
  by_contra hnot
  have hmem : key ∈ (node.params.map Prod.fst).filter
      (fun key => key ∉ (nodeSpec node.kind).allowedParamKeys) :=
    List.mem_filter.mpr ⟨hkey, by simpa using hnot⟩
  rw [hkeys] at hmem
  cases hmem

theorem validateGenome_eq_ok {maxDepth maxNodeCount : ℕ} :
    validateGenome F genome maxDepth maxNodeCount = .ok () ↔
      genome.nodes.length ≤ maxNodeCount ∧ genome.ids.Nodup ∧
      (∀ node ∈ genome.nodes, validateNode F genome node = .ok ()) ∧
      (kahn genome.ids genome.parents).length = genome.ids.length ∧
      (∀ node ∈ genome.nodes, validateDepth genome maxDepth node = .ok ()) ∧
      validateSignalRefs genome = .ok () ∧ validateExitRulePolicy genome = .ok () := by
  simp only [validateGenome, assertAcyclic, seq_eq_ok, ensure_eq_ok, forM_eq_ok]

theorem Accepted.nodup (h : Accepted F genome) : genome.ids.Nodup :=
  (validateGenome_eq_ok.mp h).2.1

theorem Accepted.node (h : Accepted F genome) {node : GenomeNode} (hn : node ∈ genome.nodes) :
    validateNode F genome node = .ok () :=
  (validateGenome_eq_ok.mp h).2.2.1 node hn

theorem Accepted.length_kahn (h : Accepted F genome) :
    (kahn genome.ids genome.parents).length = genome.ids.length :=
  (validateGenome_eq_ok.mp h).2.2.2.1

theorem Accepted.signals (h : Accepted F genome) : validateSignalRefs genome = .ok () :=
  (validateGenome_eq_ok.mp h).2.2.2.2.2.1

theorem node?_of_mem (hnd : genome.ids.Nodup) {node : GenomeNode} (h : node ∈ genome.nodes) :
    genome.node? node.id = some node :=
  KeyedTables.lookup_of_mem hnd h

theorem parents_of_mem (hnd : genome.ids.Nodup) {node : GenomeNode} (h : node ∈ genome.nodes) :
    genome.parents node.id = node.parents := by
  simp [Genome.parents, node?_of_mem hnd h]

end Accepted

end QBackend.GenomeDsl
