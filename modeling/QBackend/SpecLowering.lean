import QBackend.SpecCompiler
import QBackend.AssembledGenomes
import QBackend.DistinctKeys
import QBackend.GeneticPopulations
import QBackend.InputRefs
import Mathlib.Data.List.TakeWhile

/-!
# Lowering conditions to nodes

What each method of the genome builder adds to a genome: the price columns that it reads, the
number of its other nodes and the level of the node that it returns, all read off the spec. The
nodes stay an assembled genome, in which every reference that the builder hands out has its type
and its level.
-/

namespace QBackend.StrategyBuilder

open GenomeDsl FallibleSteps
open DistinctKeys (mem_of_lookup)

/-! ## References -/

theorem parseInputRef_fst (raw : String) :
    parseInputRef (parseInputRef raw).1 = ((parseInputRef raw).1, "out") := by
  refine parseInputRef_of_plain fun c hc => ?_
  unfold parseInputRef at hc
  rw [List.span_eq_takeWhile_dropWhile] at hc
  cases hdrop : raw.toList.dropWhile (· ≠ ':') with
  | nil =>
    rw [hdrop] at hc
    simpa using List.dropWhile_eq_nil_iff.mp hdrop c hc
  | cons d rest =>
    rw [hdrop, String.toList_ofList] at hc
    simpa using List.mem_takeWhile_imp hc

theorem parseInputRef_fst_of_out {raw : String} (h : (parseInputRef raw).2 = "out") :
    parseInputRef (parseInputRef raw).1 = parseInputRef raw := by
  rw [parseInputRef_fst, ← h]

@[simp] theorem parseInputRef_inputRef (raw : String) :
    parseInputRef (inputRef raw) = parseInputRef raw := by
  unfold inputRef
  by_cases hout : (parseInputRef raw).2 = "out"
  · rw [if_pos hout, parseInputRef_fst_of_out hout]
  · rw [if_neg hout]

theorem nodeName_injective : Function.Injective nodeName :=
  GeneticSearch.append_toString_injective "n"

theorem ne_colon_of_mem_nodeName {n : ℕ} {c : Char} (h : c ∈ (nodeName n).toList) : c ≠ ':' := by
  rintro rfl
  rw [nodeName, String.toList_append] at h
  obtain h | h := List.mem_append.mp h
  · exact absurd h (by decide)
  · exact absurd (GeneticSearch.isDigit_of_mem_toString h) (by decide)

@[simp] theorem parseInputRef_nodeName (n : ℕ) :
    parseInputRef (nodeName n) = (nodeName n, "out") :=
  parseInputRef_of_plain fun _ => ne_colon_of_mem_nodeName

theorem parseInputRef_port (n : ℕ) (port : String) :
    parseInputRef (nodeName n ++ ":" ++ port) = (nodeName n, port) :=
  parseInputRef_of_port port fun _ => ne_colon_of_mem_nodeName

/-! ## The size of a spec -/

/-- The kind of the node of an indicator. -/
def indicatorKind (type : String) : Option NodeKind :=
  if type = "sma" ∨ type = "ema" then some .indMa
  else if type = "rsi" then some .indRsi
  else if type = "donchian" then some .indDonchian
  else if type = "bollinger_bands" then some .indBollinger
  else none

/-- The price columns that an indicator reads; a channel reads the bars themselves. -/
def IndicatorSpec.columns (indicator : IndicatorSpec) : List String :=
  if indicator.type = "donchian" then [] else [indicator.source.name]

def IndicatorSpec.level (indicator : IndicatorSpec) : ℕ :=
  if indicator.type = "donchian" then 1 else 2

section Plan

variable (spec : StrategySpec)

def referenceColumns (ref : String) : List String := if isSource ref then [ref] else []

def referenceLevel (ref : String) : ℕ :=
  if isSource ref then 1
  else ((spec.indicator? (splitReference ref).1).map IndicatorSpec.level).getD 0

/-- The compiler finds a node for the reference. -/
def Resolves (ref : String) : Prop :=
  isSource ref = true ∨ ∃ indicator ports,
    spec.indicator? (splitReference ref).1 = some indicator ∧
    nodeOutputPorts.lookup indicator.type = some ports ∧
    ((ports.lookup (splitReference ref).2).isSome = true ∨ (ports.lookup "").isSome = true)

/-- A crossing of two moving averages is one of their difference. -/
def comparesAverages (condition : ComparisonCondition) : Bool :=
  isCrossing condition.op && isMaPair spec condition.left condition.right

def operandColumns : Operand → List String
  | .text ref => referenceColumns ref
  | .int _ | .float _ => []

def operandLevel : Operand → ℕ
  | .text ref => referenceLevel spec ref
  | .int _ | .float _ => 0

def comparisonColumns (condition : ComparisonCondition) : List String :=
  referenceColumns condition.left ++ operandColumns condition.right

def comparisonNodes (condition : ComparisonCondition) : ℕ :=
  if comparesAverages spec condition then 2 else 1

def comparisonLevel (condition : ComparisonCondition) : ℕ :=
  max (referenceLevel spec condition.left) (operandLevel spec condition.right) +
    comparisonNodes spec condition

/-- The right side is a reference with a node, or the threshold of a crossing. -/
def OperandCompiles (op : String) : Operand → Prop
  | .text ref => Resolves spec ref
  | .int n => isCrossing op = true ∧ n.natAbs < floatLimit
  | .float _ => isCrossing op = true

structure ComparisonCompiles (condition : ComparisonCondition) : Prop where
  operator : (operatorToCmpKind.lookup condition.op).isSome = true
  left : Resolves spec condition.left
  right : OperandCompiles spec condition.op condition.right

/-- The level after joining the conditions one by one. -/
def joinedLevel (level : ℕ) (conditions : List ComparisonCondition) : ℕ :=
  conditions.foldl (fun level condition => max level (comparisonLevel spec condition) + 1) level

end Plan

/-- The columns with a node, after those that are read. -/
def addColumns (known columns : List String) : List String :=
  columns.foldl (fun known column => if column ∈ known then known else known ++ [column]) known

theorem addColumns_append (known xs ys : List String) :
    addColumns known (xs ++ ys) = addColumns (addColumns known xs) ys :=
  List.foldl_append

/-! ## The invariant of the builder -/

/-- The reference is to an output of one of the types, at the level. -/
def Refers (nodes : List GenomeNode) (types : List OutputType) (raw : String) (level : ℕ) : Prop :=
  ∃ parent ∈ nodes, ∃ type ∈ types, (parseInputRef raw).1 = parent.id ∧
    portOutputType parent.kind (parseInputRef raw).2 = some type ∧
    levels nodes parent.id = level

def seriesTypes : List OutputType := [.priceSeries, .oscillator]

def signalTypes : List OutputType := [.boolSeries]

/-- The node of the kind and the level has the id, which is one that the builder gives. -/
structure NodeAt (nodes : List GenomeNode) (kind : NodeKind) (id : String) (level : ℕ) :
    Prop where
  exists_node : ∃ node ∈ nodes, node.id = id ∧ node.kind = kind
  name : ∃ n, id = nodeName n
  level : levels nodes id = level

/-- The entry of `_indicator_nodes` for an indicator. -/
def IndicatorAt (nodes : List GenomeNode) (indicator : IndicatorSpec) (entry : String × String) :
    Prop :=
  entry.1 = indicator.id ∧ ∃ kind, indicatorKind indicator.type = some kind ∧
    NodeAt nodes kind entry.2 indicator.level

def Builder.columns (b : Builder) : List String := b.sourceNodes.map Prod.fst

section Invariant

variable (F : Type) [PriceFloat F] (built : List IndicatorSpec)

/-- The builder after the indicators `built`. -/
structure Sound (b : Builder) : Prop where
  assembled : Assembled F b.nodes
  counter : b.nodeCounter = b.nodes.length
  names : ∀ node ∈ b.nodes, ∃ n, n ≤ b.nodes.length ∧ node.id = nodeName n
  sources : ∀ entry ∈ b.sourceNodes, isSource entry.1 = true ∧
    ∃ kind, sourceKindByColumn.lookup entry.1 = some kind ∧ NodeAt b.nodes kind entry.2 1
  indicators : List.Forall₂ (IndicatorAt b.nodes) built b.indicatorNodes

/-- What a method adds: nodes for the columns that are new, `added` other nodes, and no node above
the level. -/
structure Extends (b b' : Builder) (columns : List String) (added level : ℕ) : Prop where
  sound : Sound F built b'
  nodes : b.nodes <+: b'.nodes
  indicators : b'.indicatorNodes = b.indicatorNodes
  columns : b'.columns = addColumns b.columns columns
  size : b'.nodes.length + b.columns.length = b.nodes.length + b'.columns.length + added
  levels : ∀ node ∈ b'.nodes, node ∈ b.nodes ∨ levels b'.nodes node.id ≤ level

end Invariant

section Monotone

variable {F : Type} [PriceFloat F] {nodes nodes' : List GenomeNode}

theorem levels_of_grown (h : Assembled F nodes') (hp : nodes <+: nodes') {id : String}
    (hid : id ∈ nodes.map GenomeNode.id) : levels nodes' id = levels nodes id := by
  induction h with
  | nil =>
    rw [List.prefix_nil.mp hp] at hid
    cases hid
  | @snoc before last _ hfits ih =>
    obtain heq | hp := List.prefix_concat_iff.mp hp
    · rw [heq]
    · have hmem : id ∈ before.map GenomeNode.id := (hp.map GenomeNode.id).subset hid
      rw [levels_snoc_of_mem hfits hmem, ih hp]

theorem Refers.mono {types : List OutputType} {raw : String} {level : ℕ}
    (hr : Refers nodes types raw level) (h : Assembled F nodes') (hp : nodes <+: nodes') :
    Refers nodes' types raw level := by
  obtain ⟨parent, hparent, type, htype, hname, hport, hlevel⟩ := hr
  refine ⟨parent, hp.subset hparent, type, htype, hname, hport, ?_⟩
  rw [levels_of_grown h hp (List.mem_map_of_mem hparent), hlevel]

theorem NodeAt.mono {kind : NodeKind} {id : String} {level : ℕ} (hn : NodeAt nodes kind id level)
    (h : Assembled F nodes') (hp : nodes <+: nodes') : NodeAt nodes' kind id level := by
  obtain ⟨node, hmem, hid, hkind⟩ := hn.exists_node
  refine ⟨⟨node, hp.subset hmem, hid, hkind⟩, hn.name, ?_⟩
  rw [levels_of_grown h hp (List.mem_map.mpr ⟨node, hmem, hid⟩), hn.level]

theorem NodeAt.refers {kind : NodeKind} {id raw port : String} {level : ℕ}
    {types : List OutputType} {type : OutputType} (hn : NodeAt nodes kind id level)
    (hraw : parseInputRef raw = (id, port)) (hport : portOutputType kind port = some type)
    (htype : type ∈ types) : Refers nodes types raw level := by
  obtain ⟨node, hmem, hid, hkind⟩ := hn.exists_node
  refine ⟨node, hmem, type, htype, ?_, ?_, ?_⟩
  · rw [hraw, hid]
  · rw [hraw, hkind, hport]
  · rw [hid, hn.level]

theorem NodeAt.parse {kind : NodeKind} {id : String} {level : ℕ} (hn : NodeAt nodes kind id level) :
    parseInputRef id = (id, "out") := by
  obtain ⟨n, rfl⟩ := hn.name
  exact parseInputRef_nodeName n

theorem IndicatorAt.mono {indicator : IndicatorSpec} {entry : String × String}
    (hi : IndicatorAt nodes indicator entry) (h : Assembled F nodes') (hp : nodes <+: nodes') :
    IndicatorAt nodes' indicator entry := by
  obtain ⟨hid, kind, hkind, hat⟩ := hi
  exact ⟨hid, kind, hkind, hat.mono h hp⟩

end Monotone

section Extends

variable {F : Type} [PriceFloat F] {built : List IndicatorSpec} {b b' b'' : Builder}

theorem Extends.refl (h : Sound F built b) (level : ℕ) : Extends F built b b [] 0 level where
  sound := h
  nodes := List.prefix_rfl
  indicators := rfl
  columns := rfl
  size := rfl
  levels _ hn := .inl hn

theorem Extends.mono {columns : List String} {added level level' : ℕ}
    (h : Extends F built b b' columns added level) (hle : level ≤ level') :
    Extends F built b b' columns added level' :=
  { h with levels := fun node hn => (h.levels node hn).imp_right fun hl => hl.trans hle }

theorem Extends.trans {columns columns' : List String} {added added' level : ℕ}
    (h : Extends F built b b' columns added level)
    (h' : Extends F built b' b'' columns' added' level) :
    Extends F built b b'' (columns ++ columns') (added + added') level where
  sound := h'.sound
  nodes := h.nodes.trans h'.nodes
  indicators := h'.indicators.trans h.indicators
  columns := by rw [h'.columns, h.columns, addColumns_append]
  size := by
    have hs := h.size
    have hs' := h'.size
    omega
  levels node hn := by
    obtain hmid | hl := h'.levels node hn
    · refine (h.levels node hmid).imp_right fun hl => ?_
      rwa [levels_of_grown h'.sound.assembled h'.nodes (List.mem_map_of_mem hmid)]
    · exact .inr hl

end Extends

/-! ## Adding a node -/

/-- Literals under keys of the kind that are checked for their names only. -/
structure PlainParams (kind : NodeKind) (params : List (String × ParamValue)) : Prop where
  ordinary : kind ≠ .transformShift ∧ kind ≠ .transformPctChange ∧ kind ≠ .transformClip ∧
    kind ≠ .featureSessionWindow
  params : ∀ param ∈ params, param.1 ∈ (nodeSpec kind).allowedParamKeys ∧ param.1 ∉ hhmmKeys ∧
    ∃ value, param.2 = .lit value

/-- The kind takes inputs of the types, in any place. -/
def Accepts (kind : NodeKind) (types : List OutputType) : Prop :=
  ∀ type ∈ types, familyAccepts kind type = true ∧ ∀ index, seriesAccepts kind index type = true

section AddNode

variable {F : Type} [PriceFloat F] {built : List IndicatorSpec} {b : Builder}

theorem validateParam_of_plain {node : GenomeNode} (h : PlainParams node.kind node.params)
    {param : String × ParamValue} (hp : param ∈ node.params) :
    validateParam F node param = .ok () := by
  obtain ⟨hshift, hchange, hclip, hwindow⟩ := h.ordinary
  obtain ⟨-, hkey, value, hvalue⟩ := h.params param hp
  simp only [validateParam, hvalue, validateLiteral]
  rw [if_neg fun hk => hshift hk.2, if_neg fun hk => hchange hk.2, if_neg hclip]
  split
  next hkind _ _ => exact absurd hkind hwindow
  next => rw [if_neg hkey]

theorem accepts_series {kind : NodeKind}
    (h : ∀ type ∈ seriesTypes, familyAccepts kind type = true) : Accepts kind seriesTypes := by
  intro type htype
  refine ⟨h type htype, fun index => ?_⟩
  unfold seriesAccepts
  cases (nodeSpec kind).inputSeriesTypes with
  | none => rfl
  | some types =>
    simp only [seriesTypes, List.mem_cons, List.not_mem_nil, or_false] at htype
    exact decide_eq_true (htype.elim .inl fun h => .inr (.inl h))

theorem accepts_signals {kind : NodeKind} (hf : familyAccepts kind .boolSeries = true)
    (hs : (nodeSpec kind).inputSeriesTypes = none) : Accepts kind signalTypes := by
  intro type htype
  obtain rfl := List.mem_singleton.mp htype
  exact ⟨hf, fun index => by simp [seriesAccepts, hs]⟩

theorem levels_of_refers {nodes : List GenomeNode} {types : List OutputType}
    {inputs : List String} {heights : List ℕ}
    (h : List.Forall₂ (Refers nodes types) inputs heights) :
    (inputs.map fun raw => levels nodes (parseInputRef raw).1) = heights := by
  induction h with
  | nil => rfl
  | cons hr _ ih =>
    obtain ⟨parent, -, -, -, hname, -, hlevel⟩ := hr
    rw [List.map_cons, ih, hname, hlevel]

theorem refers_of_mem {nodes : List GenomeNode} {types : List OutputType} {inputs : List String}
    {heights : List ℕ} (h : List.Forall₂ (Refers nodes types) inputs heights) {raw : String}
    (hraw : raw ∈ inputs) : ∃ level, Refers nodes types raw level := by
  induction h with
  | nil => cases hraw
  | cons hr _ ih =>
    obtain rfl | hraw := List.mem_cons.mp hraw
    · exact ⟨_, hr⟩
    · exact ih hraw

theorem Sound.fits (h : Sound F built b) {node : GenomeNode} {types : List OutputType}
    {heights : List ℕ} (hid : node.id = nodeName (b.nodeCounter + 1))
    (hplain : PlainParams node.kind node.params) (haccepts : Accepts node.kind types)
    (harity : (nodeSpec node.kind).minInputs ≤ node.inputs.length ∧
      node.inputs.length ≤ (nodeSpec node.kind).maxInputs)
    (hinputs : List.Forall₂ (Refers b.nodes types) node.inputs heights) :
    Fits F b.nodes node where
  fresh hmem := by
    obtain ⟨other, hother, heq⟩ := List.mem_map.mp hmem
    obtain ⟨n, hn, hname⟩ := h.names other hother
    have hn' : n = b.nodeCounter + 1 := nodeName_injective (by rw [← hname, heq, hid])
    have hcounter := h.counter
    omega
  keys key hkey := by
    obtain ⟨param, hp, rfl⟩ := List.mem_map.mp hkey
    exact (hplain.params param hp).1
  params param hp := validateParam_of_plain hplain hp
  arity := harity
  inputs raw hraw := by
    obtain ⟨level, parent, hparent, type, htype, hname, hport, -⟩ :=
      refers_of_mem hinputs hraw
    exact ⟨parent, hparent, type, hname, hport, haccepts type htype⟩

/-- A node of a kind that takes the inputs is one more node, a level above them. -/
theorem addNode_extends (h : Sound F built b) {kind : NodeKind}
    {params : List (String × ParamValue)} (keys : (params.map Prod.fst).Nodup)
    {inputs : List String} {types : List OutputType} {heights : List ℕ}
    (hplain : PlainParams kind params) (haccepts : Accepts kind types)
    (harity : (nodeSpec kind).minInputs ≤ inputs.length ∧
      inputs.length ≤ (nodeSpec kind).maxInputs)
    (hinputs : List.Forall₂ (Refers b.nodes types) inputs heights) :
    Extends F built b (b.addNode kind params inputs keys).2 [] 1 (1 + heights.foldr max 0) ∧
      NodeAt (b.addNode kind params inputs keys).2.nodes kind (b.addNode kind params inputs keys).1
        (1 + heights.foldr max 0) := by
  let node : GenomeNode := ⟨nodeName (b.nodeCounter + 1), kind, params, inputs, keys⟩
  have hfits : Fits F b.nodes node := h.fits rfl hplain haccepts harity hinputs
  have hall : Assembled F (b.nodes ++ [node]) := h.assembled.snoc hfits
  have hgrows : b.nodes <+: b.nodes ++ [node] := List.prefix_append _ _
  have hlevel : levels (b.nodes ++ [node]) node.id = 1 + heights.foldr max 0 := by
    rw [levels_snoc_self, ← levels_of_refers hinputs]
    simp [GenomeNode.parents, node, Function.comp_def]
  have hlength : (b.nodes ++ [node]).length = b.nodes.length + 1 := by simp
  have hsound : Sound F built (b.addNode kind params inputs keys).2 := by
    refine ⟨hall, ?_, ?_, ?_, h.indicators.imp fun _ _ hi => hi.mono hall hgrows⟩
    · show b.nodeCounter + 1 = (b.nodes ++ [node]).length
      rw [hlength, h.counter]
    · intro other hother
      show ∃ n, n ≤ (b.nodes ++ [node]).length ∧ _
      rw [hlength]
      obtain hother | hother := List.mem_append.mp hother
      · obtain ⟨n, hn, hname⟩ := h.names other hother
        exact ⟨n, by omega, hname⟩
      · refine ⟨b.nodeCounter + 1, by rw [h.counter], ?_⟩
        rw [List.mem_singleton.mp hother]
    · intro entry hentry
      obtain ⟨hsource, kind', hkind', hat⟩ := h.sources entry hentry
      exact ⟨hsource, kind', hkind', hat.mono hall hgrows⟩
  refine ⟨⟨hsound, hgrows, rfl, rfl, ?_, ?_⟩, ⟨node, by simp [Builder.addNode, node], rfl, rfl⟩,
    ⟨_, rfl⟩, hlevel⟩
  · show (b.nodes ++ [node]).length + _ = _
    rw [hlength]
    simp only [Builder.columns, Builder.addNode]
    omega
  · intro other hother
    obtain hother | hother := List.mem_append.mp hother
    · exact .inl hother
    · rw [List.mem_singleton.mp hother]
      exact .inr hlevel.le

end AddNode

/-! ## Sources and indicators -/

theorem portOutputType_of_source {column : String} {kind : NodeKind}
    (h : sourceKindByColumn.lookup column = some kind) :
    portOutputType kind "out" = some .priceSeries := by
  have hall : ∀ entry ∈ sourceKindByColumn, portOutputType entry.2 "out" = some .priceSeries := by
    decide
  exact hall _ (mem_of_lookup h)

theorem plain_of_source {column : String} {kind : NodeKind}
    (h : sourceKindByColumn.lookup column = some kind) : PlainParams kind [] := by
  have hall : ∀ entry ∈ sourceKindByColumn, entry.2 ≠ .transformShift ∧
      entry.2 ≠ .transformPctChange ∧ entry.2 ≠ .transformClip ∧
      entry.2 ≠ .featureSessionWindow := by decide
  exact ⟨hall _ (mem_of_lookup h), by simp⟩

theorem arity_of_source {column : String} {kind : NodeKind}
    (h : sourceKindByColumn.lookup column = some kind) : (nodeSpec kind).minInputs = 0 := by
  have hall : ∀ entry ∈ sourceKindByColumn, (nodeSpec entry.2).minInputs = 0 := by decide
  exact hall _ (mem_of_lookup h)

theorem isSource_name (column : PriceColumn) : isSource column.name = true := by
  cases column <;> decide

section Sources

variable {F : Type} [PriceFloat F] {built : List IndicatorSpec} {b b' : Builder}
  {column id : String}

theorem sourceNode_succeeds (h : isSource column = true) : Succeeds (b.sourceNode column) := by
  obtain ⟨kind, hkind⟩ := Option.isSome_iff_exists.mp h
  unfold Builder.sourceNode
  cases b.sourceNodes.lookup column with
  | some id => exact succeeds_ok
  | none =>
    rw [hkind]
    exact succeeds_ok

theorem sourceNode_extends (h : Sound F built b) (hs : b.sourceNode column = .ok (id, b')) :
    isSource column = true ∧ Extends F built b b' [column] 0 1 ∧
      ∃ kind, sourceKindByColumn.lookup column = some kind ∧ NodeAt b'.nodes kind id 1 := by
  unfold Builder.sourceNode at hs
  cases hknown : b.sourceNodes.lookup column with
  | some known =>
    rw [hknown] at hs
    obtain ⟨rfl, rfl⟩ := Prod.mk.inj (Except.ok.inj hs)
    obtain ⟨hsource, kind, hkind, hat⟩ := h.sources _ (mem_of_lookup hknown)
    have hmem : column ∈ b.columns := List.mem_map_of_mem (f := Prod.fst) (mem_of_lookup hknown)
    refine ⟨hsource, { Extends.refl h 1 with columns := ?_ }, kind, hkind, hat⟩
    simp [addColumns, hmem]
  | none =>
    rw [hknown] at hs
    cases hkind : sourceKindByColumn.lookup column with
    | none =>
      rw [hkind] at hs
      cases hs
    | some kind =>
      rw [hkind] at hs
      obtain ⟨rfl, rfl⟩ := Prod.mk.inj (Except.ok.inj hs)
      have hmin := arity_of_source hkind
      have hnone : Accepts kind [] := fun _ h => absurd h List.not_mem_nil
      obtain ⟨hext, hat⟩ := addNode_extends h (by simp) (plain_of_source hkind) hnone
        ⟨by simp [hmin], Nat.zero_le _⟩ List.Forall₂.nil
      have hnew : column ∉ b.columns := by
        intro hmem
        obtain ⟨entry, hentry, rfl⟩ := List.mem_map.mp hmem
        simpa using List.lookup_eq_none_iff.mp hknown entry hentry
      have hsource : isSource column = true := by simp [isSource, hkind]
      have hsound := hext.sound
      refine ⟨hsource, ⟨⟨hsound.assembled, hsound.counter, hsound.names, ?_, hsound.indicators⟩,
        hext.nodes, hext.indicators, ?_, ?_, hext.levels⟩, kind, rfl, hat⟩
      · intro entry hentry
        obtain hentry | hentry := List.mem_append.mp hentry
        · exact hsound.sources entry hentry
        · rw [List.mem_singleton.mp hentry]
          exact ⟨hsource, kind, hkind, hat⟩
      · show (b.sourceNodes ++ [(column, _)]).map Prod.fst = addColumns b.columns [column]
        simp only [addColumns, List.foldl_cons, List.foldl_nil, if_neg hnew]
        simp [Builder.columns]
      · have hsize := hext.size
        simp only [Builder.columns, List.length_map, List.length_append, List.length_singleton]
          at hsize ⊢
        omega

end Sources

section Indicators

variable {F : Type} [PriceFloat F] {built : List IndicatorSpec} {b b' : Builder}
  {indicator : IndicatorSpec} {id : String}

theorem indicatorNode_extends (h : Sound F built b) {column source : String}
    (hs : b.sourceNode column = .ok (source, b')) {kind : NodeKind}
    {params : List (String × ParamValue)} (keys : (params.map Prod.fst).Nodup)
    (hplain : PlainParams kind params) (haccepts : Accepts kind seriesTypes)
    (hmin : (nodeSpec kind).minInputs = 1) (hmax : (nodeSpec kind).maxInputs = 1) :
    Extends F built b (b'.addNode kind params [source] keys).2 [column] 1 2 ∧
      NodeAt (b'.addNode kind params [source] keys).2.nodes kind
        (b'.addNode kind params [source] keys).1 2 := by
  obtain ⟨-, hext, sourceKind, hkind, hat⟩ := sourceNode_extends h hs
  have hrefers : Refers b'.nodes seriesTypes source 1 :=
    hat.refers hat.parse (portOutputType_of_source hkind) (by simp [seriesTypes])
  obtain ⟨hadd, hnode⟩ := addNode_extends hext.sound keys hplain haccepts
    ⟨by simp [hmin], by simp [hmax]⟩ (List.Forall₂.cons hrefers .nil)
  exact ⟨(hext.mono (by decide)).trans hadd, hnode⟩

theorem accepts_indMa : Accepts .indMa seriesTypes := accepts_series (by decide)

theorem accepts_indRsi : Accepts .indRsi seriesTypes := accepts_series (by decide)

theorem accepts_indBollinger : Accepts .indBollinger seriesTypes := accepts_series (by decide)

theorem buildIndicatorNode_succeeds (h : (indicatorKind indicator.type).isSome = true) :
    Succeeds (b.buildIndicatorNode indicator) := by
  have hsource : Succeeds (b.sourceNode indicator.source.name) :=
    sourceNode_succeeds (isSource_name indicator.source)
  unfold indicatorKind at h
  unfold Builder.buildIndicatorNode
  split_ifs at h ⊢
  · exact (succeeds_bind_iff fun _ => succeeds_pure).mpr hsource
  · exact (succeeds_bind_iff fun _ => succeeds_pure).mpr hsource
  · exact succeeds_ok
  · exact (succeeds_bind_iff fun _ => succeeds_pure).mpr hsource
  · cases h

theorem buildIndicatorNode_extends (h : Sound F built b)
    (hs : b.buildIndicatorNode indicator = .ok (id, b')) :
    ∃ kind, indicatorKind indicator.type = some kind ∧
      Extends F built b b' indicator.columns 1 indicator.level ∧
      NodeAt b'.nodes kind id indicator.level := by
  unfold Builder.buildIndicatorNode at hs
  unfold indicatorKind IndicatorSpec.columns IndicatorSpec.level
  by_cases hma : indicator.type = "sma" ∨ indicator.type = "ema"
  · rw [if_pos hma] at hs ⊢
    have hdonchian : indicator.type ≠ "donchian" := by
      rintro heq
      simp [heq] at hma
    rw [bind_eq_ok] at hs
    obtain ⟨⟨source, b₁⟩, hsource, hadd⟩ := hs
    obtain ⟨rfl, rfl⟩ := Prod.mk.inj (pure_eq_ok.mp hadd)
    rw [if_neg hdonchian, if_neg hdonchian]
    refine ⟨_, rfl, indicatorNode_extends h hsource (by simp) ⟨by simp, ?_⟩ accepts_indMa rfl rfl⟩
    simp [nodeSpec, hhmmKeys]
  rw [if_neg hma] at hs ⊢
  by_cases hrsi : indicator.type = "rsi"
  · rw [if_pos hrsi] at hs ⊢
    rw [bind_eq_ok] at hs
    obtain ⟨⟨source, b₁⟩, hsource, hadd⟩ := hs
    obtain ⟨rfl, rfl⟩ := Prod.mk.inj (pure_eq_ok.mp hadd)
    rw [if_neg (by simp [hrsi]), if_neg (by simp [hrsi])]
    refine ⟨_, rfl, indicatorNode_extends h hsource (by simp) ⟨by simp, ?_⟩ accepts_indRsi rfl rfl⟩
    simp [nodeSpec, hhmmKeys]
  rw [if_neg hrsi] at hs ⊢
  by_cases hdonchian : indicator.type = "donchian"
  · rw [if_pos hdonchian] at hs ⊢
    obtain ⟨rfl, rfl⟩ := Prod.mk.inj (Except.ok.inj hs)
    rw [if_pos hdonchian, if_pos hdonchian]
    have hnone : Accepts .indDonchian [] := fun _ h => absurd h List.not_mem_nil
    refine ⟨_, rfl, addNode_extends h (by simp) ⟨by simp, ?_⟩ hnone (by decide) List.Forall₂.nil⟩
    simp [nodeSpec, hhmmKeys]
  rw [if_neg hdonchian] at hs ⊢
  by_cases hbands : indicator.type = "bollinger_bands"
  · rw [if_pos hbands] at hs ⊢
    rw [bind_eq_ok] at hs
    obtain ⟨⟨source, b₁⟩, hsource, hadd⟩ := hs
    obtain ⟨rfl, rfl⟩ := Prod.mk.inj (pure_eq_ok.mp hadd)
    rw [if_neg hdonchian, if_neg hdonchian]
    refine ⟨_, rfl,
      indicatorNode_extends h hsource (by simp) ⟨by simp, ?_⟩ accepts_indBollinger rfl rfl⟩
    simp [nodeSpec, hhmmKeys]
  · rw [if_neg hbands] at hs
    cases hs

/-- The builder when only the nodes of the indicators are there. -/
structure Indicated (F : Type) [PriceFloat F] (built : List IndicatorSpec) (b : Builder) :
    Prop where
  sound : Sound F built b
  columns : b.columns = addColumns [] (built.flatMap IndicatorSpec.columns)
  size : b.nodes.length = b.columns.length + built.length
  levels : ∀ node ∈ b.nodes, levels b.nodes node.id ≤ 2

theorem indicated_nil : Indicated F [] {} where
  sound := ⟨.nil, rfl, by simp, by simp, .nil⟩
  columns := rfl
  size := rfl
  levels := by simp

theorem level_le_two (indicator : IndicatorSpec) : indicator.level ≤ 2 := by
  unfold IndicatorSpec.level
  split
  · decide
  · exact le_rfl

theorem Indicated.step (h : Indicated F built b) (hs : b.addIndicator indicator = .ok b') :
    (indicatorKind indicator.type).isSome = true ∧ Indicated F (built ++ [indicator]) b' := by
  unfold Builder.addIndicator at hs
  rw [bind_eq_ok] at hs
  obtain ⟨⟨id, b₁⟩, hnode, hb⟩ := hs
  obtain rfl := pure_eq_ok.mp hb
  obtain ⟨kind, hkind, hext, hat⟩ := buildIndicatorNode_extends h.sound hnode
  have hsound := hext.sound
  refine ⟨by simp [hkind], ⟨hsound.assembled, hsound.counter, hsound.names, hsound.sources, ?_⟩,
    ?_, ?_, ?_⟩
  · exact List.rel_append hsound.indicators (.cons ⟨rfl, kind, hkind, hat⟩ .nil)
  · show b₁.columns = _
    rw [hext.columns, h.columns, List.flatMap_append, addColumns_append]
    simp
  · show b₁.nodes.length = b₁.columns.length + _
    have hsize := hext.size
    have hbefore := h.size
    rw [List.length_append, List.length_singleton]
    omega
  · intro node hn
    obtain hold | hl := hext.levels node hn
    · show GenomeDsl.levels b₁.nodes node.id ≤ 2
      rw [levels_of_grown hsound.assembled hext.nodes (List.mem_map_of_mem hold)]
      exact h.levels node hold
    · exact hl.trans (level_le_two indicator)

theorem addIndicator_succeeds (h : (indicatorKind indicator.type).isSome = true) :
    Succeeds (b.addIndicator indicator) :=
  (succeeds_bind_iff fun _ => succeeds_pure).mpr (buildIndicatorNode_succeeds h)

/-- The indicators have their nodes, or one of them has no kind. -/
theorem buildIndicators_indicated {indicators : List IndicatorSpec} (h : Indicated F built b)
    (hs : b.buildIndicators indicators = .ok b') :
    (∀ indicator ∈ indicators, (indicatorKind indicator.type).isSome = true) ∧
      Indicated F (built ++ indicators) b' := by
  induction indicators generalizing built b with
  | nil =>
    obtain rfl : b = b' := pure_eq_ok.mp hs
    exact ⟨by simp, by simpa using h⟩
  | cons indicator rest ih =>
    unfold Builder.buildIndicators at hs
    rw [List.foldlM_cons, bind_eq_ok] at hs
    obtain ⟨b₁, hb, hs⟩ := hs
    obtain ⟨hkind, h₁⟩ := h.step hb
    obtain ⟨hrest, h'⟩ := ih h₁ hs
    rw [List.append_assoc] at h'
    exact ⟨List.forall_mem_cons.mpr ⟨hkind, hrest⟩, h'⟩

theorem buildIndicators_succeeds {indicators : List IndicatorSpec}
    (h : ∀ indicator ∈ indicators, (indicatorKind indicator.type).isSome = true) :
    Succeeds (b.buildIndicators indicators) := by
  induction indicators generalizing b with
  | nil => exact succeeds_pure
  | cons indicator rest ih =>
    obtain ⟨hkind, hrest⟩ := List.forall_mem_cons.mp h
    obtain ⟨b₁, hb⟩ := addIndicator_succeeds hkind
    unfold Builder.buildIndicators
    rw [List.foldlM_cons, hb]
    exact ih hrest

end Indicators

/-! ## Conditions -/

section References

variable {F : Type} [PriceFloat F] {spec : StrategySpec} {b b' : Builder} {ref id : String}

theorem indicator?_eq_some (hnd : (spec.indicators.map IndicatorSpec.id).Nodup) {base : String}
    {indicator : IndicatorSpec} :
    spec.indicator? base = some indicator ↔ indicator ∈ spec.indicators ∧ indicator.id = base := by
  constructor
  · intro h
    exact ⟨List.mem_reverse.mp (KeyedTables.mem_of_lookup h), KeyedTables.key_of_lookup h⟩
  · rintro ⟨hmem, rfl⟩
    refine KeyedTables.lookup_of_mem ?_ (List.mem_reverse.mpr hmem)
    rwa [List.map_reverse, List.nodup_reverse]

theorem exists_indicator {nodes : List GenomeNode} {built : List IndicatorSpec}
    {entries : List (String × String)} (h : List.Forall₂ (IndicatorAt nodes) built entries)
    {base node : String} (hl : entries.lookup base = some node) :
    ∃ indicator ∈ built, IndicatorAt nodes indicator (base, node) := by
  have hmem := mem_of_lookup hl
  clear hl
  induction h with
  | nil => cases hmem
  | @cons indicator entry _ _ hat _ ih =>
    obtain rfl | hmem := List.mem_cons.mp hmem
    · exact ⟨indicator, List.mem_cons_self, hat⟩
    · obtain ⟨indicator, hi, hat⟩ := ih hmem
      exact ⟨indicator, List.mem_cons_of_mem _ hi, hat⟩

theorem lookup_isSome_of_indicator {nodes : List GenomeNode} {built : List IndicatorSpec}
    {entries : List (String × String)} (h : List.Forall₂ (IndicatorAt nodes) built entries)
    {indicator : IndicatorSpec} (hi : indicator ∈ built) :
    (entries.lookup indicator.id).isSome = true := by
  rw [List.lookup_isSome_iff]
  induction h with
  | nil => cases hi
  | @cons first entry _ _ hat _ ih =>
    obtain rfl | hi := List.mem_cons.mp hi
    · exact ⟨entry, List.mem_cons_self, by simp [hat.1]⟩
    · obtain ⟨found, hfound, hid⟩ := ih hi
      exact ⟨found, List.mem_cons_of_mem _ hfound, hid⟩

theorem port_series {type port nodePort : String} {ports : List (String × String)}
    {kind : NodeKind} (hkind : indicatorKind type = some kind)
    (hports : nodeOutputPorts.lookup type = some ports) (hport : ports.lookup port = some nodePort) :
    ∃ output ∈ seriesTypes, portOutputType kind nodePort = some output := by
  have hall : ∀ row ∈ nodeOutputPorts, ∀ kind ∈ indicatorKind row.1, ∀ entry ∈ row.2,
      ∃ output ∈ seriesTypes, portOutputType kind entry.2 = some output := by decide
  exact hall _ (mem_of_lookup hports) kind (by simp [hkind]) _ (mem_of_lookup hport)

theorem resolvePort_refers {nodes : List GenomeNode} {indicator : IndicatorSpec}
    {base port node raw : String} {ports : List (String × String)}
    (hat : IndicatorAt nodes indicator (base, node))
    (hports : nodeOutputPorts.lookup indicator.type = some ports)
    (h : resolvePort base port node ports = .ok raw) :
    ((ports.lookup port).isSome = true ∨ (ports.lookup "").isSome = true) ∧
      Refers nodes seriesTypes raw indicator.level := by
  obtain ⟨-, kind, hkind, hnode⟩ := hat
  have hrefers : ∀ key nodePort, ports.lookup key = some nodePort →
      Refers nodes seriesTypes (if nodePort = "out" then node else node ++ ":" ++ nodePort)
        indicator.level := by
    intro key nodePort hkey
    obtain ⟨output, houtput, htype⟩ := port_series hkind hports hkey
    by_cases hout : nodePort = "out"
    · rw [if_pos hout]
      exact hnode.refers hnode.parse (hout ▸ htype) houtput
    · rw [if_neg hout]
      obtain ⟨n, hn⟩ := hnode.name
      refine hnode.refers ?_ htype houtput
      rw [show node = nodeName n from hn, parseInputRef_port]
  unfold resolvePort at h
  cases hport : ports.lookup port with
  | some nodePort =>
    rw [hport] at h
    obtain rfl := Except.ok.inj h
    exact ⟨.inl rfl, hrefers port nodePort hport⟩
  | none =>
    cases hempty : ports.lookup "" with
    | some nodePort =>
      rw [hport, hempty] at h
      obtain rfl := Except.ok.inj h
      exact ⟨.inr rfl, hrefers "" nodePort hempty⟩
    | none =>
      rw [hport, hempty] at h
      cases h

theorem resolvePort_succeeds {base port node : String} {ports : List (String × String)}
    (h : (ports.lookup port).isSome = true ∨ (ports.lookup "").isSome = true) :
    Succeeds (resolvePort base port node ports) := by
  unfold resolvePort
  cases hport : ports.lookup port with
  | some nodePort => exact succeeds_ok
  | none =>
    rw [hport] at h
    obtain ⟨nodePort, hempty⟩ := Option.isSome_iff_exists.mp (h.resolve_left (by simp))
    rw [hempty]
    exact succeeds_ok

theorem resolveReference_extends (hnd : (spec.indicators.map IndicatorSpec.id).Nodup)
    (h : Sound F spec.indicators b) (hs : b.resolveReference spec ref = .ok (id, b')) :
    Resolves spec ref ∧
      Extends F spec.indicators b b' (referenceColumns ref) 0 (referenceLevel spec ref) ∧
      Refers b'.nodes seriesTypes id (referenceLevel spec ref) := by
  unfold Builder.resolveReference at hs
  unfold Resolves referenceColumns referenceLevel
  cases hsource : isSource ref with
  | true =>
    rw [if_pos hsource] at hs
    obtain ⟨-, hext, kind, hkind, hat⟩ := sourceNode_extends h hs
    exact ⟨.inl rfl, hext,
      hat.refers hat.parse (portOutputType_of_source hkind) (by simp [seriesTypes])⟩
  | false =>
    rw [if_neg (by simp [hsource])] at hs
    cases hnode : b.indicatorNodes.lookup (splitReference ref).1 with
    | none =>
      simp only [hnode] at hs
      cases hs
    | some node =>
      obtain ⟨indicator, hi, hat⟩ := exists_indicator h.indicators hnode
      have hfound : spec.indicator? (splitReference ref).1 = some indicator :=
        (indicator?_eq_some hnd).mpr ⟨hi, hat.1.symm⟩
      cases hports : nodeOutputPorts.lookup indicator.type with
      | none =>
        simp only [hnode, hfound, hports] at hs
        cases hs
      | some ports =>
        simp only [hnode, hfound, hports, bind_eq_ok] at hs
        obtain ⟨raw, hraw, hret⟩ := hs
        obtain ⟨rfl, rfl⟩ := Prod.mk.inj (pure_eq_ok.mp hret)
        obtain ⟨hport, hrefers⟩ := resolvePort_refers hat hports hraw
        rw [hfound]
        exact ⟨.inr ⟨indicator, ports, rfl, hports, hport⟩, Extends.refl h _, hrefers⟩

theorem resolveReference_succeeds (hnd : (spec.indicators.map IndicatorSpec.id).Nodup)
    (h : Sound F spec.indicators b) (hr : Resolves spec ref) :
    Succeeds (b.resolveReference spec ref) := by
  unfold Builder.resolveReference
  by_cases hsource : isSource ref = true
  · rw [if_pos hsource]
    exact sourceNode_succeeds hsource
  · rw [if_neg hsource]
    obtain ⟨indicator, ports, hfound, hports, hport⟩ := hr.resolve_left hsource
    obtain ⟨hi, hid⟩ := (indicator?_eq_some hnd).mp hfound
    obtain ⟨node, hnode⟩ := Option.isSome_iff_exists.mp
      (lookup_isSome_of_indicator h.indicators hi)
    rw [hid] at hnode
    simp only [hnode, hfound, hports]
    exact (succeeds_bind_iff fun _ => succeeds_pure).mpr (resolvePort_succeeds hport)

end References

section Comparisons

variable {F : Type} [PriceFloat F] {spec : StrategySpec} {b b' : Builder} {kind : NodeKind}
  {condition : ComparisonCondition} {op id : String}

theorem Refers.inputRef {nodes : List GenomeNode} {types : List OutputType} {raw : String}
    {level : ℕ} (h : Refers nodes types raw level) : Refers nodes types (inputRef raw) level := by
  unfold Refers at h ⊢
  rwa [parseInputRef_inputRef]

theorem Refers.node {nodes : List GenomeNode} {types : List OutputType} {raw : String}
    {level : ℕ} (h : Refers nodes types raw level) (hout : (parseInputRef raw).2 = "out") :
    Refers nodes types (parseInputRef raw).1 level := by
  unfold Refers at h ⊢
  rwa [parseInputRef_fst_of_out hout]

/-- What the compiler relies on of the comparisons of the table. -/
structure Comparing (op : String) (kind : NodeKind) : Prop where
  ordinary : kind ≠ .transformShift ∧ kind ≠ .transformPctChange ∧ kind ≠ .transformClip ∧
    kind ≠ .featureSessionWindow
  series : ∀ type ∈ seriesTypes, familyAccepts kind type = true
  signal : portOutputType kind "out" = some .boolSeries
  pair : (nodeSpec kind).minInputs ≤ 2 ∧ 2 ≤ (nodeSpec kind).maxInputs
  crossing : isCrossing op = true → (nodeSpec kind).minInputs ≤ 1 ∧
    1 ≤ (nodeSpec kind).maxInputs ∧ "threshold" ∈ (nodeSpec kind).allowedParamKeys

theorem comparing_of_lookup (h : operatorToCmpKind.lookup op = some kind) : Comparing op kind := by
  have hordinary : ∀ row ∈ operatorToCmpKind, row.2 ≠ .transformShift ∧
      row.2 ≠ .transformPctChange ∧ row.2 ≠ .transformClip ∧ row.2 ≠ .featureSessionWindow := by
    decide
  have hseries : ∀ row ∈ operatorToCmpKind, ∀ type ∈ seriesTypes,
      familyAccepts row.2 type = true := by decide
  have hsignal : ∀ row ∈ operatorToCmpKind, portOutputType row.2 "out" = some .boolSeries := by
    decide
  have hpair : ∀ row ∈ operatorToCmpKind,
      (nodeSpec row.2).minInputs ≤ 2 ∧ 2 ≤ (nodeSpec row.2).maxInputs := by decide
  have hcrossing : ∀ row ∈ operatorToCmpKind, isCrossing row.1 = true →
      (nodeSpec row.2).minInputs ≤ 1 ∧ 1 ≤ (nodeSpec row.2).maxInputs ∧
        "threshold" ∈ (nodeSpec row.2).allowedParamKeys := by decide
  have hmem := mem_of_lookup h
  exact ⟨hordinary _ hmem, hseries _ hmem, hsignal _ hmem, hpair _ hmem, hcrossing _ hmem⟩

theorem Comparing.plain_nil (h : Comparing op kind) : PlainParams kind [] :=
  ⟨h.ordinary, by simp⟩

theorem Comparing.plain_threshold (h : Comparing op kind) (hc : isCrossing op = true) (q : ℚ) :
    PlainParams kind [("threshold", .lit (.float q))] := by
  refine ⟨h.ordinary, fun param hp => ?_⟩
  obtain rfl := List.mem_singleton.mp hp
  exact ⟨(h.crossing hc).2.2, by simp [hhmmKeys], _, rfl⟩

theorem Comparing.extends (hk : Comparing op kind) {built : List IndicatorSpec}
    (h : Sound F built b) {params : List (String × ParamValue)}
    (keys : (params.map Prod.fst).Nodup) (hplain : PlainParams kind params) {inputs : List String}
    {heights : List ℕ} (harity : (nodeSpec kind).minInputs ≤ inputs.length ∧
      inputs.length ≤ (nodeSpec kind).maxInputs)
    (hinputs : List.Forall₂ (Refers b.nodes seriesTypes) inputs heights) :
    Extends F built b (b.addNode kind params inputs keys).2 [] 1 (1 + heights.foldr max 0) ∧
      Refers (b.addNode kind params inputs keys).2.nodes signalTypes
        (b.addNode kind params inputs keys).1 (1 + heights.foldr max 0) := by
  obtain ⟨hext, hat⟩ := addNode_extends h keys hplain (accepts_series hk.series) harity hinputs
  exact ⟨hext, hat.refers hat.parse hk.signal (by simp [signalTypes])⟩

theorem plain_indDiff : PlainParams .indDiff [] := ⟨by decide, by simp⟩

theorem accepts_indDiff : Accepts .indDiff seriesTypes := accepts_series (by decide)

theorem portOutputType_indDiff : portOutputType .indDiff "out" = some .priceSeries := by decide

theorem resolveReference_out (hnd : (spec.indicators.map IndicatorSpec.id).Nodup) {ref : String}
    (h : Sound F spec.indicators b) (hma : isMovingAverage spec (splitReference ref).1 = true)
    (hs : b.resolveReference spec ref = .ok (id, b')) : (parseInputRef id).2 = "out" := by
  unfold Builder.resolveReference at hs
  by_cases hsource : isSource ref = true
  · rw [if_pos hsource] at hs
    obtain ⟨-, -, kind, -, hat⟩ := sourceNode_extends h hs
    rw [hat.parse]
  · rw [if_neg hsource] at hs
    cases hnode : b.indicatorNodes.lookup (splitReference ref).1 with
    | none =>
      simp only [hnode] at hs
      cases hs
    | some node =>
      obtain ⟨indicator, hi, hid, kind, hkind, hat⟩ := exists_indicator h.indicators hnode
      have hfound : spec.indicator? (splitReference ref).1 = some indicator :=
        (indicator?_eq_some hnd).mpr ⟨hi, hid.symm⟩
      have htype : indicator.type = "sma" ∨ indicator.type = "ema" := by
        simpa [isMovingAverage, hfound] using hma
      have hports : nodeOutputPorts.lookup indicator.type = some [("", "out")] := by
        obtain heq | heq := htype
        · rw [heq]
          decide
        · rw [heq]
          decide
      simp only [hnode, hfound, hports, bind_eq_ok] at hs
      obtain ⟨raw, hraw, hret⟩ := hs
      obtain ⟨rfl, -⟩ := Prod.mk.inj (pure_eq_ok.mp hret)
      have hraw' : node = raw := by
        unfold resolvePort at hraw
        by_cases hport : (splitReference ref).2 = ""
        · simpa [hport] using hraw
        · have hmissing : [("", "out")].lookup (splitReference ref).2 = none := by simp [hport]
          simpa [hmissing] using hraw
      rw [← hraw', hat.parse]

theorem resolveOperand_extends (hnd : (spec.indicators.map IndicatorSpec.id).Nodup)
    (h : Sound F spec.indicators b) {operand : Operand}
    (hs : b.resolveOperand spec operand = .ok (id, b')) :
    ∃ ref, operand = .text ref ∧ b.resolveReference spec ref = .ok (id, b') ∧ Resolves spec ref ∧
      Extends F spec.indicators b b' (operandColumns operand) 0 (operandLevel spec operand) ∧
      Refers b'.nodes seriesTypes id (operandLevel spec operand) := by
  cases operand with
  | text ref => exact ⟨ref, rfl, hs, resolveReference_extends hnd h hs⟩
  | int n => cases hs
  | float q => cases hs

theorem isNumber_compiles {operand : Operand} (hc : isCrossing op = true)
    (hn : operand.isNumber = true) :
    Succeeds operand.toFloat ↔ OperandCompiles spec op operand := by
  cases operand with
  | text ref => cases hn
  | int n =>
    unfold Operand.toFloat OperandCompiles
    by_cases hlt : n.natAbs < floatLimit
    · simp [hlt, hc]
    · simp [hlt]
  | float q => simp [Operand.toFloat, OperandCompiles, hc]

theorem isNumber_plan (spec : StrategySpec) {operand : Operand} (hn : operand.isNumber = true)
    (left : String) :
    operandColumns operand = [] ∧ operandLevel spec operand = 0 ∧
      isMaPair spec left operand = false := by
  cases operand with
  | text ref => cases hn
  | int n => exact ⟨rfl, rfl, rfl⟩
  | float q => exact ⟨rfl, rfl, rfl⟩

theorem foldr_max_singleton (n : ℕ) : 1 + [n].foldr max 0 = n + 1 := by
  simp only [List.foldr_cons, List.foldr_nil]
  omega

theorem foldr_max_pair (m n : ℕ) : 1 + [m, n].foldr max 0 = max m n + 1 := by
  simp only [List.foldr_cons, List.foldr_nil]
  omega

theorem Comparing.threshold_extends (hk : Comparing op kind) {built : List IndicatorSpec}
    (h : Sound F built b) (hc : isCrossing op = true) (q : ℚ)
    (keys : ([("threshold", ParamValue.lit (.float q))].map Prod.fst).Nodup) {raw : String}
    {level : ℕ} (hr : Refers b.nodes seriesTypes raw level) :
    Extends F built b (b.addNode kind [("threshold", .lit (.float q))] [raw] keys).2 [] 1
        (level + 1) ∧
      Refers (b.addNode kind [("threshold", .lit (.float q))] [raw] keys).2.nodes signalTypes
        (b.addNode kind [("threshold", .lit (.float q))] [raw] keys).1 (level + 1) := by
  rw [← foldr_max_singleton level]
  exact hk.extends h keys (hk.plain_threshold hc q)
    ⟨(hk.crossing hc).1, (hk.crossing hc).2.1⟩ (List.Forall₂.cons hr .nil)

theorem Comparing.difference_extends (hk : Comparing op kind) {built : List IndicatorSpec}
    (h : Sound F built b) (hc : isCrossing op = true) {left right diff : String} {m n : ℕ}
    (hl : Refers b.nodes seriesTypes left m) (hr : Refers b.nodes seriesTypes right n)
    (hd : b.addNode .indDiff [] [left, right] = (diff, b'))
    (keys : ([("threshold", ParamValue.lit (.float 0))].map Prod.fst).Nodup) :
    Extends F built b (b'.addNode kind [("threshold", .lit (.float 0))] [diff] keys).2 [] 2
        (max m n + 2) ∧
      Refers (b'.addNode kind [("threshold", .lit (.float 0))] [diff] keys).2.nodes signalTypes
        (b'.addNode kind [("threshold", .lit (.float 0))] [diff] keys).1 (max m n + 2) := by
  obtain ⟨hdiff, hat⟩ := addNode_extends h (by simp) plain_indDiff accepts_indDiff
    (by simp [nodeSpec]) (List.Forall₂.cons hl (.cons hr .nil))
  rw [hd, foldr_max_pair] at hdiff hat
  have hseries : Refers b'.nodes seriesTypes diff (max m n + 1) :=
    hat.refers hat.parse portOutputType_indDiff (by simp [seriesTypes])
  obtain ⟨hcmp, hsignal⟩ := hk.threshold_extends hdiff.sound hc 0 keys hseries
  exact ⟨(hdiff.mono (by omega)).trans hcmp, hsignal⟩

theorem compileComparison_extends (hnd : (spec.indicators.map IndicatorSpec.id).Nodup)
    (h : Sound F spec.indicators b) (hs : b.compileComparison spec condition = .ok (id, b')) :
    ComparisonCompiles spec condition ∧
      Extends F spec.indicators b b' (comparisonColumns condition) (comparisonNodes spec condition)
        (comparisonLevel spec condition) ∧
      Refers b'.nodes signalTypes id (comparisonLevel spec condition) := by
  unfold Builder.compileComparison at hs
  cases hkind : operatorToCmpKind.lookup condition.op with
  | none =>
    rw [hkind] at hs
    cases hs
  | some kind =>
    simp only [hkind, bind_eq_ok] at hs
    have hk := comparing_of_lookup hkind
    obtain ⟨⟨left, b₁⟩, hleft, hs⟩ := hs
    obtain ⟨hresolves, hext₁, hrefers₁⟩ := resolveReference_extends hnd h hleft
    unfold comparisonColumns comparisonLevel comparisonNodes comparesAverages
    by_cases hliteral : isCrossing condition.op = true ∧ condition.right.isNumber = true
    · simp only [if_pos hliteral, bind_eq_ok] at hs
      obtain ⟨hcross, hnumber⟩ := hliteral
      obtain ⟨threshold, hfloat, hs⟩ := hs
      obtain ⟨rfl, rfl⟩ := Prod.mk.inj (pure_eq_ok.mp hs)
      obtain ⟨hcolumns, hlevel, hpair⟩ := isNumber_plan spec hnumber condition.left
      obtain ⟨hext₂, hrefers₂⟩ :=
        hk.threshold_extends hext₁.sound hcross threshold (by simp) hrefers₁.inputRef
      rw [hcolumns, hlevel, hpair, Bool.and_false, if_neg (by simp), Nat.max_zero]
      exact ⟨⟨by simp [hkind], hresolves, (isNumber_compiles hcross hnumber).mp ⟨_, hfloat⟩⟩,
        (hext₁.mono (Nat.le_succ _)).trans hext₂, hrefers₂⟩
    · simp only [if_neg hliteral, bind_eq_ok] at hs
      obtain ⟨⟨right, b₂⟩, hright, hs⟩ := hs
      obtain ⟨ref, href, hreference, hresolves', hext₂, hrefers₂⟩ :=
        resolveOperand_extends hnd hext₁.sound hright
      have hleft₂ : Refers b₂.nodes seriesTypes left (referenceLevel spec condition.left) :=
        hrefers₁.mono hext₂.sound.assembled hext₂.nodes
      have hcompiles : ComparisonCompiles spec condition :=
        ⟨by simp [hkind], hresolves, href ▸ hresolves'⟩
      have hboth : Extends F spec.indicators b b₂
          (referenceColumns condition.left ++ operandColumns condition.right) 0
          (max (referenceLevel spec condition.left) (operandLevel spec condition.right)) :=
        (hext₁.mono (le_max_left _ _)).trans (hext₂.mono (le_max_right _ _))
      by_cases haverages :
          (isCrossing condition.op && isMaPair spec condition.left condition.right) = true
      · obtain ⟨hcross, hpair⟩ := Bool.and_eq_true_iff.mp haverages
        have hpair' := hpair
        rw [href, isMaPair, Bool.and_eq_true] at hpair'
        have hout := resolveReference_out hnd h hpair'.1 hleft
        have hout' := resolveReference_out hnd hext₁.sound hpair'.2 hreference
        rw [if_pos ⟨hcross, hout, hout', hpair⟩] at hs
        obtain ⟨rfl, rfl⟩ := Prod.mk.inj (pure_eq_ok.mp hs)
        obtain ⟨hcmp, hsignal⟩ := hk.difference_extends hext₂.sound hcross (hleft₂.node hout)
          (hrefers₂.node hout') rfl (by simp)
        rw [if_pos haverages]
        refine ⟨hcompiles, ?_, hsignal⟩
        have hall := (hboth.mono (Nat.le_add_right _ 2)).trans hcmp
        rwa [List.append_nil, Nat.zero_add] at hall
      · have hbranch : ¬ (isCrossing condition.op = true ∧ (parseInputRef left).2 = "out" ∧
            (parseInputRef right).2 = "out" ∧
            isMaPair spec condition.left condition.right = true) := fun hc =>
          haverages (Bool.and_eq_true_iff.mpr ⟨hc.1, hc.2.2.2⟩)
        rw [if_neg hbranch] at hs
        obtain ⟨rfl, rfl⟩ := Prod.mk.inj (pure_eq_ok.mp hs)
        obtain ⟨hcmp, hsignal⟩ := hk.extends hext₂.sound (by simp) hk.plain_nil
          (by simpa using hk.pair)
          (List.Forall₂.cons hleft₂.inputRef (.cons hrefers₂.inputRef .nil))
        rw [foldr_max_pair] at hcmp hsignal
        rw [if_neg haverages]
        refine ⟨hcompiles, ?_, hsignal⟩
        have hall := (hboth.mono (Nat.le_succ _)).trans hcmp
        rwa [List.append_nil, Nat.zero_add] at hall

theorem compileComparison_succeeds (hnd : (spec.indicators.map IndicatorSpec.id).Nodup)
    (h : Sound F spec.indicators b) (hc : ComparisonCompiles spec condition) :
    Succeeds (b.compileComparison spec condition) := by
  obtain ⟨kind, hkind⟩ := Option.isSome_iff_exists.mp hc.operator
  obtain ⟨⟨left, b₁⟩, hleft⟩ := resolveReference_succeeds hnd h hc.left
  obtain ⟨-, hext₁, -⟩ := resolveReference_extends hnd h hleft
  unfold Builder.compileComparison
  simp only [hkind, hleft, succeeds_bind, Except.ok.injEq, exists_eq_left']
  by_cases hliteral : isCrossing condition.op = true ∧ condition.right.isNumber = true
  · rw [if_pos hliteral]
    exact (succeeds_bind_iff fun _ => succeeds_pure).mpr
      ((isNumber_compiles hliteral.1 hliteral.2).mpr hc.right)
  · rw [if_neg hliteral]
    have hright : Succeeds (b₁.resolveOperand spec condition.right) := by
      have hcompiles := hc.right
      cases hoperand : condition.right with
      | text ref =>
        rw [hoperand] at hcompiles
        exact resolveReference_succeeds hnd hext₁.sound hcompiles
      | int n =>
        rw [hoperand] at hcompiles hliteral
        exact absurd ⟨hcompiles.1, rfl⟩ hliteral
      | float q =>
        rw [hoperand] at hcompiles hliteral
        exact absurd ⟨hcompiles, rfl⟩ hliteral
    refine (succeeds_bind_iff fun resolved => ?_).mpr hright
    split_ifs
    · exact succeeds_pure
    · exact succeeds_pure

end Comparisons

/-! ## Groups of conditions -/

section Groups

variable (spec : StrategySpec) (group : ConditionGroup)

/-- A group without comparisons compares the close with the high. -/
def groupColumns : List String :=
  match comparisonConditions group with
  | [] => ["close", "high"]
  | conditions => conditions.flatMap comparisonColumns

def groupNodes : ℕ :=
  match comparisonConditions group with
  | [] => 1
  | first :: rest => ((first :: rest).map (comparisonNodes spec)).sum + rest.length

def groupLevel : ℕ :=
  match comparisonConditions group with
  | [] => 2
  | first :: rest => joinedLevel spec (comparisonLevel spec first) rest

/-- Every comparison of the group compiles, and only an exit may have none. -/
structure GroupCompiles (label : String) : Prop where
  comparisons : ∀ condition ∈ comparisonConditions group, ComparisonCompiles spec condition
  rules : comparisonConditions group = [] → label = "exit" ∧ exitRuleConditions group ≠ []

end Groups

section Joins

variable {F : Type} [PriceFloat F] {spec : StrategySpec} {b b' : Builder} {group : ConditionGroup}
  {conditions : List ComparisonCondition} {refs : List String} {id label : String}

theorem le_joinedLevel (spec : StrategySpec) (conditions : List ComparisonCondition) (level : ℕ) :
    level ≤ joinedLevel spec level conditions := by
  induction conditions generalizing level with
  | nil => exact le_rfl
  | cons condition rest ih =>
    have hle := ih (max level (comparisonLevel spec condition) + 1)
    have hmax := le_max_left level (comparisonLevel spec condition)
    exact (hmax.trans (Nat.le_succ _)).trans hle

theorem comparisonLevel_le_joinedLevel (spec : StrategySpec)
    {conditions : List ComparisonCondition} {condition : ComparisonCondition}
    (h : condition ∈ conditions) (level : ℕ) :
    comparisonLevel spec condition ≤ joinedLevel spec level conditions := by
  induction conditions generalizing level with
  | nil => cases h
  | cons first rest ih =>
    obtain rfl | h := List.mem_cons.mp h
    · have hle := le_joinedLevel spec rest (max level (comparisonLevel spec condition) + 1)
      have hmax := le_max_right level (comparisonLevel spec condition)
      exact (hmax.trans (Nat.le_succ _)).trans hle
    · exact ih h _

theorem compileComparisons_extends (hnd : (spec.indicators.map IndicatorSpec.id).Nodup)
    (h : Sound F spec.indicators b) (hs : b.compileComparisons spec conditions = .ok (refs, b'))
    {bound : ℕ} (hbound : ∀ condition ∈ conditions, comparisonLevel spec condition ≤ bound) :
    (∀ condition ∈ conditions, ComparisonCompiles spec condition) ∧
      Extends F spec.indicators b b' (conditions.flatMap comparisonColumns)
        (conditions.map (comparisonNodes spec)).sum bound ∧
      List.Forall₂ (fun condition ref =>
        Refers b'.nodes signalTypes ref (comparisonLevel spec condition)) conditions refs := by
  induction conditions generalizing b refs with
  | nil =>
    obtain ⟨rfl, rfl⟩ := Prod.mk.inj (Except.ok.inj hs)
    exact ⟨by simp, Extends.refl h bound, .nil⟩
  | cons condition rest ih =>
    unfold Builder.compileComparisons at hs
    simp only [bind_eq_ok] at hs
    obtain ⟨⟨ref, b₁⟩, hfirst, ⟨refs', b₂⟩, hrest, hs⟩ := hs
    obtain ⟨rfl, rfl⟩ := Prod.mk.inj (pure_eq_ok.mp hs)
    have hrestBound : ∀ c ∈ rest, comparisonLevel spec c ≤ bound := fun c hc =>
      hbound c (List.mem_cons_of_mem condition hc)
    obtain ⟨hcompiles, hext₁, hrefers⟩ := compileComparison_extends hnd h hfirst
    obtain ⟨hall, hext₂, hrefs⟩ := ih hext₁.sound hrest hrestBound
    refine ⟨List.forall_mem_cons.mpr ⟨hcompiles, hall⟩, ?_,
      .cons (hrefers.mono hext₂.sound.assembled hext₂.nodes) hrefs⟩
    exact (hext₁.mono (hbound condition List.mem_cons_self)).trans hext₂

theorem compileComparisons_succeeds (hnd : (spec.indicators.map IndicatorSpec.id).Nodup)
    (h : Sound F spec.indicators b)
    (hc : ∀ condition ∈ conditions, ComparisonCompiles spec condition) :
    Succeeds (b.compileComparisons spec conditions) := by
  induction conditions generalizing b with
  | nil => exact succeeds_ok
  | cons condition rest ih =>
    obtain ⟨hfirst, hrest⟩ := List.forall_mem_cons.mp hc
    obtain ⟨⟨ref, b₁⟩, href⟩ := compileComparison_succeeds hnd h hfirst
    obtain ⟨-, hext, -⟩ := compileComparison_extends hnd h href
    obtain ⟨⟨refs, b₂⟩, hrefs⟩ := ih hext.sound hrest
    exact succeeds_bind.mpr ⟨_, href, succeeds_bind.mpr ⟨_, hrefs, succeeds_pure⟩⟩

/-- A kind that joins signals. -/
def IsJoin (kind : NodeKind) : Prop := kind = .logicAnd ∨ kind = .logicOr

theorem isJoin_join (group : ConditionGroup) : IsJoin group.join := by
  cases group
  · exact .inl rfl
  · exact .inr rfl

theorem addJoin_extends {built : List IndicatorSpec} (h : Sound F built b) {kind : NodeKind}
    (hk : IsJoin kind) {left right : String} {m n : ℕ}
    (hl : Refers b.nodes signalTypes left m) (hr : Refers b.nodes signalTypes right n) :
    Extends F built b (b.addNode kind [] [left, right]).2 [] 1 (max m n + 1) ∧
      Refers (b.addNode kind [] [left, right]).2.nodes signalTypes
        (b.addNode kind [] [left, right]).1 (max m n + 1) := by
  have hplain : PlainParams kind [] := by
    obtain rfl | rfl := hk
    · exact ⟨by decide, by simp⟩
    · exact ⟨by decide, by simp⟩
  have haccepts : Accepts kind signalTypes := by
    obtain rfl | rfl := hk
    · exact accepts_signals (by decide) rfl
    · exact accepts_signals (by decide) rfl
  have harity : (nodeSpec kind).minInputs ≤ [left, right].length ∧
      [left, right].length ≤ (nodeSpec kind).maxInputs := by
    obtain rfl | rfl := hk
    · simp [nodeSpec]
    · simp [nodeSpec]
  have hsignal : portOutputType kind "out" = some .boolSeries := by
    obtain rfl | rfl := hk
    · decide
    · decide
  obtain ⟨hext, hat⟩ := addNode_extends h (by simp) hplain haccepts harity
    (List.Forall₂.cons hl (.cons hr .nil))
  rw [foldr_max_pair] at hext hat
  exact ⟨hext, hat.refers hat.parse hsignal (by simp [signalTypes])⟩

theorem combineBoolNodes_extends {built : List IndicatorSpec} {kind : NodeKind} (hk : IsJoin kind)
    {current : String} {level : ℕ} (h : Sound F built b)
    (hcurrent : Refers b.nodes signalTypes current level)
    (hrefs : List.Forall₂ (fun condition ref =>
      Refers b.nodes signalTypes ref (comparisonLevel spec condition)) conditions refs) :
    Extends F built b (b.combineBoolNodes kind current refs).2 [] conditions.length
        (joinedLevel spec level conditions) ∧
      Refers (b.combineBoolNodes kind current refs).2.nodes signalTypes
        (b.combineBoolNodes kind current refs).1 (joinedLevel spec level conditions) := by
  induction conditions generalizing b current level refs with
  | nil =>
    cases hrefs
    exact ⟨Extends.refl h _, hcurrent⟩
  | cons condition rest ih =>
    obtain _ | ⟨href, hrest⟩ := hrefs
    obtain ⟨hext₁, hjoined⟩ := addJoin_extends h hk hcurrent href
    have hrest₁ := hrest.imp fun _ _ hr => hr.mono hext₁.sound.assembled hext₁.nodes
    obtain ⟨hext₂, hall⟩ := ih hext₁.sound hjoined hrest₁
    refine ⟨?_, hall⟩
    rw [List.length_cons, Nat.add_comm]
    exact (hext₁.mono (le_joinedLevel spec rest _)).trans hext₂

theorem alwaysFalseOhlc_extends {built : List IndicatorSpec} (h : Sound F built b)
    (hs : b.alwaysFalseOhlc = .ok (id, b')) :
    Extends F built b b' ["close", "high"] 1 2 ∧ Refers b'.nodes signalTypes id 2 := by
  unfold Builder.alwaysFalseOhlc at hs
  simp only [bind_eq_ok] at hs
  obtain ⟨⟨close, b₁⟩, hclose, ⟨high, b₂⟩, hhigh, hs⟩ := hs
  obtain ⟨rfl, rfl⟩ := Prod.mk.inj (pure_eq_ok.mp hs)
  obtain ⟨-, hext₁, _, hkind₁, hat₁⟩ := sourceNode_extends h hclose
  obtain ⟨-, hext₂, _, hkind₂, hat₂⟩ := sourceNode_extends hext₁.sound hhigh
  have hrefers₁ : Refers b₂.nodes seriesTypes close 1 :=
    (hat₁.refers hat₁.parse (portOutputType_of_source hkind₁) (by simp [seriesTypes])).mono
      hext₂.sound.assembled hext₂.nodes
  have hrefers₂ : Refers b₂.nodes seriesTypes high 1 :=
    hat₂.refers hat₂.parse (portOutputType_of_source hkind₂) (by simp [seriesTypes])
  have hk : Comparing ">" .cmpGt := comparing_of_lookup (by decide)
  obtain ⟨hcmp, hsignal⟩ := hk.extends hext₂.sound (by simp) hk.plain_nil (by simp [nodeSpec])
    (List.Forall₂.cons hrefers₁ (.cons hrefers₂ .nil))
  rw [foldr_max_pair] at hcmp hsignal
  exact ⟨((hext₁.trans hext₂).mono (by decide)).trans hcmp, hsignal⟩

theorem alwaysFalseOhlc_succeeds : Succeeds b.alwaysFalseOhlc := by
  obtain ⟨⟨close, b₁⟩, hclose⟩ := sourceNode_succeeds (b := b) (isSource_name .close)
  obtain ⟨⟨high, b₂⟩, hhigh⟩ := sourceNode_succeeds (b := b₁) (isSource_name .high)
  exact succeeds_bind.mpr ⟨_, hclose, succeeds_bind.mpr ⟨_, hhigh, succeeds_pure⟩⟩

theorem compileConditionGroup_extends (hnd : (spec.indicators.map IndicatorSpec.id).Nodup)
    (h : Sound F spec.indicators b)
    (hs : b.compileConditionGroup spec group label = .ok (id, b')) :
    GroupCompiles spec group label ∧
      Extends F spec.indicators b b' (groupColumns group) (groupNodes spec group)
        (groupLevel spec group) ∧
      Refers b'.nodes signalTypes id (groupLevel spec group) := by
  unfold Builder.compileConditionGroup at hs
  unfold groupColumns groupNodes groupLevel
  cases hconditions : comparisonConditions group with
  | nil =>
    simp only [hconditions] at hs
    by_cases hexit : label = "exit" ∧ exitRuleConditions group ≠ []
    · rw [if_pos hexit] at hs
      exact ⟨⟨by simp [hconditions], fun _ => hexit⟩, alwaysFalseOhlc_extends h hs⟩
    · rw [if_neg hexit] at hs
      cases hs
  | cons first rest =>
    simp only [hconditions, bind_eq_ok] at hs
    obtain ⟨⟨refs, b₁⟩, hrefs, hs⟩ := hs
    have hbound : ∀ condition ∈ first :: rest, comparisonLevel spec condition ≤
        joinedLevel spec (comparisonLevel spec first) rest := by
      refine List.forall_mem_cons.mpr ⟨le_joinedLevel spec rest _, fun condition hc => ?_⟩
      exact comparisonLevel_le_joinedLevel spec hc _
    obtain ⟨hall, hext₁, hrefers⟩ := compileComparisons_extends hnd h hrefs hbound
    obtain _ | ⟨hfirst, hrest⟩ := hrefers
    obtain ⟨rfl, rfl⟩ := Prod.mk.inj (pure_eq_ok.mp hs)
    obtain ⟨hext₂, hsignal⟩ :=
      combineBoolNodes_extends (isJoin_join group) hext₁.sound hfirst hrest
    refine ⟨⟨hconditions ▸ hall, fun hnil => by simp [hconditions] at hnil⟩, ?_, hsignal⟩
    have hext := hext₁.trans hext₂
    rwa [List.append_nil] at hext

theorem compileConditionGroup_succeeds (hnd : (spec.indicators.map IndicatorSpec.id).Nodup)
    (h : Sound F spec.indicators b) (hg : GroupCompiles spec group label) :
    Succeeds (b.compileConditionGroup spec group label) := by
  unfold Builder.compileConditionGroup
  cases hconditions : comparisonConditions group with
  | nil =>
    simp only [if_pos (hg.rules hconditions)]
    exact alwaysFalseOhlc_succeeds
  | cons first rest =>
    obtain ⟨⟨refs, b₁⟩, hrefs⟩ := compileComparisons_succeeds hnd h hg.comparisons
    rw [hconditions] at hrefs
    have hbound : ∀ condition ∈ first :: rest, comparisonLevel spec condition ≤
        ((first :: rest).map (comparisonLevel spec)).foldr max 0 := fun condition hc =>
      List.le_max_of_le' 0 (List.mem_map_of_mem hc) le_rfl
    obtain ⟨-, -, hrefers⟩ := compileComparisons_extends hnd h hrefs hbound
    obtain _ | ⟨-, -⟩ := hrefers
    exact succeeds_bind.mpr ⟨_, hrefs, succeeds_pure⟩

theorem alwaysFalseNode_extends {built : List IndicatorSpec} (h : Sound F built b)
    {signal : String} {level : ℕ} (hr : Refers b.nodes signalTypes signal level) :
    Extends F built b (b.alwaysFalseNode signal).2 [] 2 (level + 2) ∧
      Refers (b.alwaysFalseNode signal).2.nodes signalTypes (b.alwaysFalseNode signal).1
        (level + 2) := by
  have hplain : PlainParams .logicNot [] := ⟨by decide, by simp⟩
  obtain ⟨hnot, hat⟩ := addNode_extends h (by simp) hplain (accepts_signals (by decide) rfl)
    (by simp [nodeSpec]) (List.Forall₂.cons hr .nil)
  rw [foldr_max_singleton] at hnot hat
  have hinverted : Refers _ signalTypes _ (level + 1) := hat.refers hat.parse
    (show portOutputType .logicNot "out" = some .boolSeries by decide) (by simp [signalTypes])
  obtain ⟨hand, hsignal⟩ := addJoin_extends hnot.sound (.inl rfl)
    (hr.mono hnot.sound.assembled hnot.nodes) hinverted
  rw [Nat.max_eq_right (Nat.le_succ level)] at hand hsignal
  exact ⟨(hnot.mono (Nat.le_succ _)).trans hand, hsignal⟩

end Joins

end QBackend.StrategyBuilder
