import QBackend.EvaluationOrder
import QBackend.RegistryParity
import QBackend.SpecMeaning

/-!
# Series of lowered specs

The nodes that the builder has made, evaluated in the order in which it makes them: every source
node has its price column and every indicator node the series of its indicator, so that a reference
of the builder reads the series that the spec names. Only indicators can fail.
-/

namespace QBackend.StrategyBuilder

open GenomeDsl CausalSeries PriceFloat FallibleSteps RegisteredStrategies MemoRuns
open DistinctKeys (mem_of_lookup)

variable {F : Type} [PriceFloat F]

/-! ## The builder's nodes -/

section Builder

variable (trial : TrialParams) (frame : Frame F) (latents : Option (Latents F))

/-- The reference reads the column. -/
def Reads (values : Values F) (raw : String) (column : Column F) : Prop :=
  readPort values (parseInputRef raw) = .ok column

/-- The node has the series of the indicator on the ports that the compiler resolves. -/
def SeriesAt (values : Values F) (entry : IndicatorSpec × List (String × List F))
    (node : String × String) : Prop :=
  node.1 = entry.1.id ∧ (∃ n, node.2 = nodeName n) ∧
    ∃ ports, nodeOutputPorts.lookup entry.1.type = some ports ∧
      List.Forall₂ (fun port series => port.1 = series.1 ∧
        values node.2 port.2 = some (.numbers series.2)) ports entry.2

/-- The nodes that are built have been evaluated, those of the indicators to their series. -/
structure Evaluated (b : Builder) (table : SeriesTable F) (values : Values F) : Prop where
  run : runNodes trial frame latents b.nodes = .ok values
  sources : ∀ entry ∈ b.sourceNodes, ∃ read, priceColumnReads.lookup entry.1 = some read ∧
    Reads values entry.2 (.numbers (frame.column read))
  indicators : List.Forall₂ (SeriesAt values) table b.indicatorNodes

end Builder

/-- What has a value keeps it. -/
def Keeps (values values' : Values F) : Prop :=
  ∀ id port column, values id port = some column → values' id port = some column

section Keeping

omit [PriceFloat F]

variable {values values' values'' : Values F} {raw : String} {column : Column F}

theorem Keeps.trans (h : Keeps values values') (h' : Keeps values' values'') :
    Keeps values values'' :=
  fun id port column hcolumn => h' id port column (h id port column hcolumn)

theorem reads_iff : Reads values raw column ↔
    values (parseInputRef raw).1 (parseInputRef raw).2 = some column := by
  unfold Reads readPort
  cases values (parseInputRef raw).1 (parseInputRef raw).2 with
  | none => simp
  | some found => simp

theorem Reads.keep (h : Reads values raw column) (hkeeps : Keeps values values') :
    Reads values' raw column :=
  reads_iff.mpr (hkeeps _ _ _ (reads_iff.mp h))

theorem Reads.inputRef (h : Reads values raw column) : Reads values (inputRef raw) column := by
  unfold Reads at h ⊢
  rwa [parseInputRef_inputRef]

/-- The node of a reference to its only output reads that output. -/
theorem Reads.node (h : Reads values raw column) (hout : (parseInputRef raw).2 = "out") :
    Reads values (parseInputRef raw).1 column := by
  unfold Reads at h ⊢
  rwa [parseInputRef_fst_of_out hout]

theorem reads_nodeName (n : ℕ) :
    Reads values (nodeName n) column ↔ values (nodeName n) "out" = some column := by
  rw [reads_iff, parseInputRef_nodeName]

theorem SeriesAt.keep {entry : IndicatorSpec × List (String × List F)} {node : String × String}
    (h : SeriesAt values entry node) (hkeeps : Keeps values values') :
    SeriesAt values' entry node := by
  obtain ⟨hid, hname, ports, hports, hseries⟩ := h
  exact ⟨hid, hname, ports, hports,
    hseries.imp fun port series hport => ⟨hport.1, hkeeps _ _ _ hport.2⟩⟩

end Keeping

section Steps

variable {trial : TrialParams} {frame : Frame F} {latents : Option (Latents F)}
  {built : List IndicatorSpec} {b b' : Builder} {table : SeriesTable F} {values : Values F}
  {nodes nodes' : List GenomeNode}

theorem Sound.fresh (h : Sound F built b) :
    nodeName (b.nodeCounter + 1) ∉ b.nodes.map GenomeNode.id := by
  intro hmem
  obtain ⟨node, hnode, hid⟩ := List.mem_map.mp hmem
  obtain ⟨n, hn, hname⟩ := h.names node hnode
  have hcounter := h.counter
  have hn' : n = b.nodeCounter + 1 := nodeName_injective (hname.symm.trans hid)
  omega

theorem runNodes_error (hgrown : nodes <+: nodes') {e : Failure}
    (h : runNodes trial frame latents nodes = .error e) :
    runNodes trial frame latents nodes' = .error e := by
  obtain ⟨rest, rfl⟩ := hgrown
  unfold runNodes at h ⊢
  rw [List.foldlM_append, h]
  rfl

theorem runNodes_addNode (hrun : runNodes trial frame latents b.nodes = .ok values)
    {kind : NodeKind} {params : List (String × ParamValue)} {inputs : List String}
    {keys : (params.map Prod.fst).Nodup} {columns : List (Column F)}
    (hinputs : List.Forall₂ (Reads values) inputs columns) :
    runNodes trial frame latents (b.addNode kind params inputs keys).2.nodes =
      evaluateKind frame latents kind
        (resolveNodeParams trial ⟨nodeName (b.nodeCounter + 1), kind, params, inputs, keys⟩)
        columns >>= fun outputs =>
          pure (Function.update values (nodeName (b.nodeCounter + 1))
            fun port => outputs.lookup port) := by
  have hread : inputs.mapM (fun raw => readPort values (parseInputRef raw)) = .ok columns :=
    mapM_eq_ok_of_forall₂ hinputs
  show runNodes trial frame latents (b.nodes ++ [_]) = _
  rw [runNodes_snoc, hrun, ok_bind]
  unfold nodeOutputs
  rw [hread]
  rfl

theorem addNode_evaluated (h : Sound F built b) (he : Evaluated trial frame latents b table values)
    {kind : NodeKind} {params : List (String × ParamValue)} {inputs : List String}
    {keys : (params.map Prod.fst).Nodup} {columns : List (Column F)} {outputs : Outputs F}
    (hinputs : List.Forall₂ (Reads values) inputs columns)
    (houtputs : evaluateKind frame latents kind
      (resolveNodeParams trial ⟨nodeName (b.nodeCounter + 1), kind, params, inputs, keys⟩)
      columns = .ok outputs) :
    ∃ values', Evaluated trial frame latents (b.addNode kind params inputs keys).2 table values' ∧
      Keeps values values' ∧
      values' (nodeName (b.nodeCounter + 1)) = fun port => outputs.lookup port := by
  have hsolves := solves_of_run (inputsFirst_of_assembled h.assembled) he.run
  have hkeeps : Keeps values (Function.update values (nodeName (b.nodeCounter + 1))
      fun port => outputs.lookup port) := by
    intro id port column hcolumn
    rw [Function.update_of_ne, hcolumn]
    rintro rfl
    rw [hsolves.outside _ h.fresh] at hcolumn
    cases hcolumn
  refine ⟨_, ⟨?_, ?_, he.indicators.imp fun _ _ hat => hat.keep hkeeps⟩, hkeeps,
    Function.update_self _ _ _⟩
  · rw [runNodes_addNode he.run hinputs, houtputs]
    rfl
  · intro entry hentry
    obtain ⟨read, hread, hreads⟩ := he.sources entry hentry
    exact ⟨read, hread, hreads.keep hkeeps⟩

/-! ## Sources -/

variable (frame latents) in
theorem source_column {column : String} {kind : NodeKind}
    (h : sourceKindByColumn.lookup column = some kind) :
    ∃ read : Row F → F, priceColumnReads.lookup column = some read ∧
      ∀ params inputs, evaluateKind frame latents kind params inputs =
        .ok (out (frame.column read)) := by
  have hentry := mem_of_lookup h
  simp only [sourceKindByColumn, List.mem_cons, Prod.mk.injEq, List.not_mem_nil, or_false]
    at hentry
  obtain ⟨rfl, rfl⟩ | ⟨rfl, rfl⟩ | ⟨rfl, rfl⟩ | ⟨rfl, rfl⟩ | ⟨rfl, rfl⟩ := hentry
  · exact ⟨Row.opn, rfl, fun _ _ => rfl⟩
  · exact ⟨Row.high, rfl, fun _ _ => rfl⟩
  · exact ⟨Row.low, rfl, fun _ _ => rfl⟩
  · exact ⟨Row.close, rfl, fun _ _ => rfl⟩
  · exact ⟨Row.volume, rfl, fun _ _ => rfl⟩

theorem sourceNode_evaluated (h : Sound F built b)
    (he : Evaluated trial frame latents b table values) {column id : String}
    (hs : b.sourceNode column = .ok (id, b')) :
    ∃ values' read, Evaluated trial frame latents b' table values' ∧ Keeps values values' ∧
      priceColumnReads.lookup column = some read ∧
      Reads values' id (.numbers (frame.column read)) := by
  unfold Builder.sourceNode at hs
  cases hknown : b.sourceNodes.lookup column with
  | some known =>
    rw [hknown] at hs
    obtain ⟨rfl, rfl⟩ := Prod.mk.inj (Except.ok.inj hs)
    obtain ⟨read, hread, hreads⟩ := he.sources _ (mem_of_lookup hknown)
    exact ⟨values, read, he, fun _ _ _ hcolumn => hcolumn, hread, hreads⟩
  | none =>
    rw [hknown] at hs
    cases hkind : sourceKindByColumn.lookup column with
    | none =>
      rw [hkind] at hs
      cases hs
    | some kind =>
      rw [hkind] at hs
      obtain ⟨rfl, rfl⟩ := Prod.mk.inj (Except.ok.inj hs)
      obtain ⟨read, hread, hcolumn⟩ := source_column frame latents hkind
      have houtputs : evaluateKind frame latents kind
          (resolveNodeParams trial ⟨nodeName (b.nodeCounter + 1), kind, [], [], by simp⟩) [] = _ :=
        hcolumn _ _
      obtain ⟨values', he', hkeeps, hvalues⟩ := addNode_evaluated h he .nil houtputs
      have hreads : Reads values' (nodeName (b.nodeCounter + 1))
          (.numbers (frame.column read)) := by
        rw [reads_nodeName, hvalues]
        rfl
      refine ⟨values', read, ⟨he'.run, fun entry hentry => ?_, he'.indicators⟩, hkeeps, hread,
        hreads⟩
      obtain hentry | hentry := List.mem_append.mp hentry
      · exact he'.sources entry hentry
      · rw [List.mem_singleton.mp hentry]
        exact ⟨read, hread, hreads⟩

/-! ## Indicators -/

omit [PriceFloat F] in
theorem lookup_name (column : PriceColumn) :
    (priceColumnReads : List (String × (Row F → F))).lookup column.name = some column.read := by
  cases column <;> rfl

variable (trial frame latents b table values) in
/-- The node has the outputs that are made of what may fail, or the run has failed with it. -/
def Mapped {α : Type} (x : Except Failure α) (f : α → Outputs F) (n : ℕ) : Prop :=
  (∃ a values', x.toOption = some a ∧ Evaluated trial frame latents b table values' ∧
    Keeps values values' ∧ values' (nodeName n) = fun port => (f a).lookup port) ∨
  (x.toOption = none ∧ ∃ e, runNodes trial frame latents b.nodes = .error e)

theorem addNode_mapped (h : Sound F built b) (he : Evaluated trial frame latents b table values)
    {kind : NodeKind} {params : List (String × ParamValue)} {inputs : List String}
    {keys : (params.map Prod.fst).Nodup} {columns : List (Column F)}
    (hinputs : List.Forall₂ (Reads values) inputs columns) {α : Type} {x : Except Failure α}
    {f : α → Outputs F}
    (houtputs : evaluateKind frame latents kind
      (resolveNodeParams trial ⟨nodeName (b.nodeCounter + 1), kind, params, inputs, keys⟩)
      columns = x.map f) :
    Mapped trial frame latents (b.addNode kind params inputs keys).2 table values x f
      (b.nodeCounter + 1) := by
  cases x with
  | error e =>
    refine .inr ⟨rfl, e, ?_⟩
    rw [runNodes_addNode he.run hinputs, houtputs]
    rfl
  | ok a =>
    obtain ⟨values', he', hkeeps, hvalues⟩ := addNode_evaluated h he hinputs houtputs
    exact .inl ⟨a, values', rfl, he', hkeeps, hvalues⟩

section Kinds

variable {id : String} {inputs : List String} {xs : List F} {period : ℤ}

theorem evaluate_indMa {name : String} {maType : MaType} (hname : normalizeMaType name = .ok maType)
    (keys : ([("period", ParamValue.lit (.int period)), ("ma_type", .lit (.str name))].map
      Prod.fst).Nodup) :
    evaluateKind frame latents .indMa
      (resolveNodeParams trial ⟨id, .indMa,
        [("period", .lit (.int period)), ("ma_type", .lit (.str name))], inputs, keys⟩)
      [.numbers xs] = (computeMa xs period maType).map out := by
  simp [evaluateKind, NodeKind.family, evaluateIndicator, series, input, Column.values, intParam,
    strParam, getKey_resolved, resolveParam, List.lookup_cons, Value.toInt, Value.toStr, hname, ok_bind]
  rfl

theorem evaluate_indRsi (keys : ([("period", ParamValue.lit (.int period))].map Prod.fst).Nodup) :
    evaluateKind frame latents .indRsi
      (resolveNodeParams trial ⟨id, .indRsi, [("period", .lit (.int period))], inputs, keys⟩)
      [.numbers xs] = (computeRsi xs period).map out := by
  simp [evaluateKind, NodeKind.family, evaluateIndicator, series, input, Column.values, intParam,
    getKey_resolved, resolveParam, Value.toInt, ok_bind]
  rfl

theorem evaluate_indDonchian
    (keys : ([("period", ParamValue.lit (.int period))].map Prod.fst).Nodup) :
    evaluateKind frame latents .indDonchian
      (resolveNodeParams trial ⟨id, .indDonchian, [("period", .lit (.int period))], inputs, keys⟩)
      [] = (computeDonchianChannels (frame.column Row.high) (frame.column Row.low) period).map
        fun channel => [("donchian_upper", .numbers channel.1),
          ("donchian_lower", .numbers channel.2)] := by
  simp [evaluateKind, NodeKind.family, evaluateIndicator, intParam, getKey_resolved, resolveParam,
    Value.toInt, ok_bind]
  rfl

theorem evaluate_indBollinger
    (keys : ([("period", ParamValue.lit (.int period)), ("num_std", .lit (.float 2))].map
      Prod.fst).Nodup) :
    evaluateKind frame latents .indBollinger
      (resolveNodeParams trial ⟨id, .indBollinger,
        [("period", .lit (.int period)), ("num_std", .lit (.float 2))], inputs, keys⟩)
      [.numbers xs] = (computeBollingerBands xs period (ofRat 2)).map fun bands =>
        [("bb_upper", .numbers bands.1), ("bb_middle", .numbers bands.2.1),
          ("bb_lower", .numbers bands.2.2)] := by
  simp [evaluateKind, NodeKind.family, evaluateIndicator, series, input, Column.values, intParam,
    floatParam, getKey_resolved, resolveParam, List.lookup_cons, Value.toInt, Value.toFloat, ok_bind]
  rfl

end Kinds

theorem columnIndicator_mapped (h : Sound F built b)
    (he : Evaluated trial frame latents b table values) {column : PriceColumn} {source : String}
    (hs : b.sourceNode column.name = .ok (source, b')) {kind : NodeKind}
    {params : List (String × ParamValue)} {keys : (params.map Prod.fst).Nodup} {α : Type}
    {x : Except Failure α} {f : α → Outputs F}
    (houtputs : evaluateKind frame latents kind
      (resolveNodeParams trial ⟨nodeName (b'.nodeCounter + 1), kind, params, [source], keys⟩)
      [.numbers (frame.column column.read)] = x.map f) :
    Mapped trial frame latents (b'.addNode kind params [source] keys).2 table values x f
      (b'.nodeCounter + 1) := by
  obtain ⟨-, hext, -⟩ := sourceNode_extends h hs
  obtain ⟨values₁, read, he₁, hkeeps₁, hread, hreads⟩ := sourceNode_evaluated h he hs
  obtain rfl : column.read = read := Option.some.inj ((lookup_name column).symm.trans hread)
  obtain ⟨a, values', ha, he', hkeeps, hvalues⟩ | hfailed :=
    addNode_mapped hext.sound he₁ (.cons hreads .nil) houtputs
  · exact .inl ⟨a, values', ha, he', hkeeps₁.trans hkeeps, hvalues⟩
  · exact .inr hfailed

variable (trial frame latents b table values) in
/-- The node has the series of the indicator, or the run has failed because it is not computed. -/
def IndicatorEvaluated (indicator : IndicatorSpec) (id : String) : Prop :=
  (∃ series values', indicator.series frame = some series ∧
    Evaluated trial frame latents b table values' ∧ Keeps values values' ∧
    SeriesAt values' (indicator, series) (indicator.id, id)) ∨
  (indicator.series frame = none ∧ ∃ e, runNodes trial frame latents b.nodes = .error e)

theorem indicatorEvaluated_of_mapped {indicator : IndicatorSpec} {n : ℕ} {α : Type}
    {x : Except Failure α} {f : α → Outputs F} {g : α → List (String × List F)}
    {ports : List (String × String)} (hseries : indicator.series frame = x.toOption.map g)
    (hports : nodeOutputPorts.lookup indicator.type = some ports)
    (hagree : ∀ a, List.Forall₂ (fun port series => port.1 = series.1 ∧
      (f a).lookup port.2 = some (.numbers series.2)) ports (g a))
    (hmapped : Mapped trial frame latents b table values x f n) :
    IndicatorEvaluated trial frame latents b table values indicator (nodeName n) := by
  obtain ⟨a, values', ha, he, hkeeps, hvalues⟩ | ⟨hnone, hrun⟩ := hmapped
  · refine .inl ⟨g a, values', by rw [hseries, ha]; rfl, he, hkeeps, rfl, ⟨n, rfl⟩, ports, hports, ?_⟩
    refine (hagree a).imp fun port series hport => ⟨hport.1, ?_⟩
    rw [hvalues]
    exact hport.2
  · exact .inr ⟨by rw [hseries, hnone]; rfl, hrun⟩

theorem movingAverage_evaluated (h : Sound F built b)
    (he : Evaluated trial frame latents b table values) {indicator : IndicatorSpec}
    {source name : String} {maType : MaType} (hs : b.sourceNode indicator.source.name = .ok (source, b'))
    (htype : indicator.type = name) (hname : normalizeMaType name = .ok maType)
    (hports : nodeOutputPorts.lookup name = some [("", "out")])
    (hseries : indicator.series frame = (computeMa (frame.column indicator.source.read)
      indicator.period maType).toOption.map fun ma => [("", ma)])
    (keys : ([("period", ParamValue.lit (.int indicator.period)),
      ("ma_type", .lit (.str indicator.type))].map Prod.fst).Nodup) :
    IndicatorEvaluated trial frame latents (b'.addNode .indMa
        [("period", .lit (.int indicator.period)), ("ma_type", .lit (.str indicator.type))]
        [source] keys).2 table values indicator (nodeName (b'.nodeCounter + 1)) := by
  refine indicatorEvaluated_of_mapped hseries (htype ▸ hports) ?_
    (columnIndicator_mapped h he hs (evaluate_indMa (htype ▸ hname) keys))
  exact fun ma => .cons ⟨rfl, rfl⟩ .nil

theorem buildIndicatorNode_evaluated (h : Sound F built b)
    (he : Evaluated trial frame latents b table values) {indicator : IndicatorSpec} {id : String}
    (hs : b.buildIndicatorNode indicator = .ok (id, b')) :
    IndicatorEvaluated trial frame latents b' table values indicator id := by
  unfold Builder.buildIndicatorNode at hs
  have hseries : indicator.series frame = indicator.series frame := rfl
  conv_rhs at hseries => unfold IndicatorSpec.series
  by_cases hma : indicator.type = "sma" ∨ indicator.type = "ema"
  · rw [if_pos hma, bind_eq_ok] at hs
    obtain ⟨⟨source, b₁⟩, hsource, hadd⟩ := hs
    obtain ⟨rfl, rfl⟩ := Prod.mk.inj (pure_eq_ok.mp hadd)
    obtain htype | htype := hma
    · rw [if_pos htype] at hseries
      exact movingAverage_evaluated h he hsource htype (normalizeMaType_name .sma) rfl hseries _
    · rw [if_neg (by simp [htype]), if_pos htype] at hseries
      exact movingAverage_evaluated h he hsource htype (normalizeMaType_name .ema) rfl hseries _
  rw [if_neg hma] at hs
  rw [if_neg fun htype => hma (.inl htype), if_neg fun htype => hma (.inr htype)] at hseries
  by_cases hrsi : indicator.type = "rsi"
  · rw [if_pos hrsi, bind_eq_ok] at hs
    obtain ⟨⟨source, b₁⟩, hsource, hadd⟩ := hs
    obtain ⟨rfl, rfl⟩ := Prod.mk.inj (pure_eq_ok.mp hadd)
    rw [if_pos hrsi] at hseries
    refine indicatorEvaluated_of_mapped hseries (by rw [hrsi]; rfl) ?_
      (columnIndicator_mapped h he hsource (evaluate_indRsi _))
    exact fun rsi => .cons ⟨rfl, rfl⟩ .nil
  rw [if_neg hrsi] at hs hseries
  by_cases hdonchian : indicator.type = "donchian"
  · rw [if_pos hdonchian] at hs hseries
    obtain ⟨rfl, rfl⟩ := Prod.mk.inj (Except.ok.inj hs)
    refine indicatorEvaluated_of_mapped hseries (by rw [hdonchian]; rfl) ?_
      (addNode_mapped h he .nil (evaluate_indDonchian _))
    exact fun channel => .cons ⟨rfl, rfl⟩ (.cons ⟨rfl, rfl⟩ .nil)
  rw [if_neg hdonchian] at hs hseries
  by_cases hbands : indicator.type = "bollinger_bands"
  · rw [if_pos hbands, bind_eq_ok] at hs
    obtain ⟨⟨source, b₁⟩, hsource, hadd⟩ := hs
    obtain ⟨rfl, rfl⟩ := Prod.mk.inj (pure_eq_ok.mp hadd)
    rw [if_pos hbands] at hseries
    refine indicatorEvaluated_of_mapped hseries (by rw [hbands]; rfl) ?_
      (columnIndicator_mapped h he hsource (evaluate_indBollinger _))
    exact fun bands => .cons ⟨rfl, rfl⟩ (.cons ⟨rfl, rfl⟩ (.cons ⟨rfl, rfl⟩ .nil))
  · rw [if_neg hbands] at hs
    cases hs

/-! ## All indicators -/

theorem buildIndicators_grows {indicators : List IndicatorSpec} (h : Indicated F built b)
    (hs : b.buildIndicators indicators = .ok b') : b.nodes <+: b'.nodes := by
  induction indicators generalizing b built with
  | nil =>
    obtain rfl := Except.ok.inj hs
    exact List.prefix_rfl
  | cons indicator indicators ih =>
    unfold Builder.buildIndicators at hs
    rw [List.foldlM_cons, bind_eq_ok] at hs
    obtain ⟨b₁, hadd, hs⟩ := hs
    refine List.IsPrefix.trans ?_ (ih (h.step hadd).2 hs)
    unfold Builder.addIndicator at hadd
    rw [bind_eq_ok] at hadd
    obtain ⟨⟨id, b₀⟩, hnode, hb⟩ := hadd
    obtain rfl := pure_eq_ok.mp hb
    obtain ⟨-, -, hext, -⟩ := buildIndicatorNode_extends h.sound hnode
    exact hext.nodes

/-- The nodes of the indicators have their series, or the run has failed because one of them is
not computed. -/
theorem buildIndicators_evaluated {indicators : List IndicatorSpec} (h : Indicated F built b)
    (he : Evaluated trial frame latents b table values)
    (hs : b.buildIndicators indicators = .ok b') :
    (∃ series values', seriesTable frame indicators = some series ∧
      Evaluated trial frame latents b' (table ++ series) values') ∨
    (seriesTable frame indicators = none ∧
      ∃ e, runNodes trial frame latents b'.nodes = .error e) := by
  induction indicators generalizing b built table values with
  | nil =>
    obtain rfl := Except.ok.inj hs
    exact .inl ⟨[], values, rfl, by rwa [List.append_nil]⟩
  | cons indicator indicators ih =>
    unfold Builder.buildIndicators at hs
    rw [List.foldlM_cons, bind_eq_ok] at hs
    obtain ⟨b₁, hadd, hs⟩ := hs
    have hindicated := (h.step hadd).2
    unfold Builder.addIndicator at hadd
    rw [bind_eq_ok] at hadd
    obtain ⟨⟨id, b₀⟩, hnode, hb⟩ := hadd
    obtain rfl := pure_eq_ok.mp hb
    obtain ⟨series, values', hseries, he', -, hat⟩ | ⟨hnone, e, hrun⟩ :=
      buildIndicatorNode_evaluated h.sound he hnode
    · have hstep : Evaluated trial frame latents
          { b₀ with indicatorNodes := b₀.indicatorNodes ++ [(indicator.id, id)] }
          (table ++ [(indicator, series)]) values' :=
        ⟨he'.run, he'.sources, List.rel_append he'.indicators (.cons hat .nil)⟩
      obtain ⟨rest, values'', hrest, he''⟩ | ⟨hnone, hfailed⟩ := ih hindicated hstep hs
      · refine .inl ⟨(indicator, series) :: rest, values'', ?_, ?_⟩
        · unfold seriesTable at hrest ⊢
          rw [List.mapM_cons, hseries, hrest]
          rfl
        · rwa [List.append_assoc] at he''
      · refine .inr ⟨?_, hfailed⟩
        unfold seriesTable at hnone ⊢
        rw [List.mapM_cons, hseries, hnone]
        rfl
    · refine .inr ⟨?_, e, runNodes_error (buildIndicators_grows hindicated hs) hrun⟩
      unfold seriesTable
      rw [List.mapM_cons, hnone]
      rfl

/-! ## References -/

theorem lookup_of_forall₂ {α β : Type} {R : String × α → String × β → Prop}
    {as : List (String × α)} {bs : List (String × β)} (h : List.Forall₂ R as bs)
    (hkey : ∀ a b, R a b → a.1 = b.1) (key : String) :
    (as.lookup key = none ∧ bs.lookup key = none) ∨
      ∃ a b, as.lookup key = some a ∧ bs.lookup key = some b ∧ R (key, a) (key, b) := by
  induction h with
  | nil => exact .inl ⟨rfl, rfl⟩
  | @cons a b as bs hab _ ih =>
    obtain ⟨ka, a⟩ := a
    obtain ⟨kb, b⟩ := b
    obtain rfl : ka = kb := hkey _ _ hab
    by_cases heq : key = ka
    · subst heq
      exact .inr ⟨a, b, List.lookup_cons_self, List.lookup_cons_self, hab⟩
    · rw [lookup_cons_of_ne _ _ heq, lookup_cons_of_ne _ _ heq]
      exact ih

omit [PriceFloat F] in
theorem find_of_seriesAt {entries : List (String × String)}
    (h : List.Forall₂ (SeriesAt values) table entries) {base node : String}
    (hnode : entries.lookup base = some node) :
    ∃ entry, table.find? (fun entry => entry.1.id = base) = some entry ∧
      SeriesAt values entry (base, node) := by
  induction h with
  | nil => cases hnode
  | @cons entry named table entries hat _ ih =>
    obtain ⟨name, id⟩ := named
    obtain rfl : name = entry.1.id := hat.1
    by_cases heq : base = entry.1.id
    · subst heq
      rw [List.lookup_cons_self] at hnode
      obtain rfl := Option.some.inj hnode
      exact ⟨entry, by simp, hat⟩
    · rw [lookup_cons_of_ne _ _ heq] at hnode
      obtain ⟨found, hfound, hseries⟩ := ih hnode
      refine ⟨found, ?_, hseries⟩
      rw [List.find?_cons_of_neg (by simpa using Ne.symm heq)]
      exact hfound

omit [PriceFloat F] in
theorem reads_port {node port : String} {column : Column F} (hname : ∃ n, node = nodeName n)
    (h : values node port = some column) :
    Reads values (if port = "out" then node else node ++ ":" ++ port) column := by
  obtain ⟨n, rfl⟩ := hname
  by_cases hout : port = "out"
  · subst hout
    rw [if_pos rfl]
    exact (reads_nodeName n).mpr h
  · rw [if_neg hout, reads_iff, parseInputRef_port]
    exact h

omit [PriceFloat F] in
theorem resolvePort_reads {entry : IndicatorSpec × List (String × List F)}
    {base port node raw : String} {ports : List (String × String)}
    (hat : SeriesAt values entry (base, node))
    (hports : nodeOutputPorts.lookup entry.1.type = some ports)
    (h : resolvePort base port node ports = .ok raw) :
    ∃ xs, (entry.2.lookup port).or (entry.2.lookup "") = some xs ∧
      Reads values raw (.numbers xs) := by
  obtain ⟨-, hname, ports', hports', hseries⟩ := hat
  obtain rfl : ports' = ports := Option.some.inj (hports'.symm.trans hports)
  have hkeys := lookup_of_forall₂ hseries fun _ _ h => h.1
  unfold resolvePort at h
  obtain ⟨hport, hnone⟩ | ⟨nodePort, xs, hport, hxs, -, hvalue⟩ := hkeys port
  · obtain ⟨hempty, -⟩ | ⟨nodePort, xs, hempty, hxs, -, hvalue⟩ := hkeys ""
    · rw [hport, hempty] at h
      cases h
    · rw [hport, hempty] at h
      obtain rfl := Except.ok.inj h
      exact ⟨xs, by rw [hnone, hxs]; rfl, reads_port hname hvalue⟩
  · rw [hport] at h
    obtain rfl := Except.ok.inj h
    exact ⟨xs, by rw [hxs]; rfl, reads_port hname hvalue⟩

omit [PriceFloat F] in
theorem lookup_of_not_source {ref : String} (h : isSource ref = false) :
    (priceColumnReads : List (String × (Row F → F))).lookup ref = none := by
  have hkeys : List.Forall₂ (fun (a : String × NodeKind) (b : String × (Row F → F)) => a.1 = b.1)
      sourceKindByColumn priceColumnReads :=
    .cons rfl (.cons rfl (.cons rfl (.cons rfl (.cons rfl .nil))))
  obtain ⟨-, hnone⟩ | ⟨kind, -, hkind, -⟩ := lookup_of_forall₂ hkeys (fun _ _ h => h) ref
  · exact hnone
  · rw [isSource, hkind] at h
    cases h

variable {spec : StrategySpec} {ref id : String}

theorem resolveReference_evaluated (hnd : (spec.indicators.map IndicatorSpec.id).Nodup)
    (htable : table.map Prod.fst = spec.indicators) (h : Sound F spec.indicators b)
    (he : Evaluated trial frame latents b table values)
    (hs : b.resolveReference spec ref = .ok (id, b')) :
    ∃ values' xs, Evaluated trial frame latents b' table values' ∧ Keeps values values' ∧
      namedSeries frame table ref = some xs ∧ Reads values' id (.numbers xs) := by
  unfold Builder.resolveReference at hs
  unfold namedSeries
  cases hsource : isSource ref with
  | true =>
    rw [if_pos hsource] at hs
    obtain ⟨values', read, he', hkeeps, hread, hreads⟩ := sourceNode_evaluated h he hs
    exact ⟨values', _, he', hkeeps, by rw [hread]; rfl, hreads⟩
  | false =>
    rw [if_neg (by simp [hsource])] at hs
    rw [lookup_of_not_source hsource]
    cases hnode : b.indicatorNodes.lookup (splitReference ref).1 with
    | none =>
      simp only [hnode] at hs
      cases hs
    | some node =>
      obtain ⟨entry, hentry, hat⟩ := find_of_seriesAt he.indicators hnode
      have hmem : entry.1 ∈ spec.indicators := by
        rw [← htable]
        exact List.mem_map_of_mem (List.mem_of_find?_eq_some hentry)
      have hfound : spec.indicator? (splitReference ref).1 = some entry.1 :=
        (indicator?_eq_some hnd).mpr ⟨hmem, hat.1.symm⟩
      obtain ⟨ports, hports, -⟩ := hat.2.2
      simp only [hnode, hfound, hports, bind_eq_ok] at hs
      obtain ⟨raw, hraw, hret⟩ := hs
      obtain ⟨rfl, rfl⟩ := Prod.mk.inj (pure_eq_ok.mp hret)
      obtain ⟨xs, hxs, hreads⟩ := resolvePort_reads hat hports hraw
      refine ⟨values, xs, he, fun _ _ _ hcolumn => hcolumn, ?_, hreads⟩
      rw [hentry]
      exact hxs

end Steps

end QBackend.StrategyBuilder
