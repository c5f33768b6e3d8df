import QBackend.SpecLowering

/-!
# Specs that compile

When a spec that the validator accepts becomes a strategy. Where no registered strategy matches,
its genome is assembled, so that what is left of the compiler's refusals can be read off the spec:
the literals and ports of its comparisons, the combination of its exit rules, and the number of
nodes and the depth that its conditions ask for.
-/

namespace QBackend.StrategyBuilder

open GenomeDsl FallibleSteps

/-! ## The genome of a spec -/

section Genome

variable (spec : StrategySpec)

/-- The price columns that the genome reads, as often as it reads them. -/
def genomeColumns : List String :=
  spec.indicators.flatMap IndicatorSpec.columns ++ groupColumns spec.entry ++
    groupColumns spec.exit

/-- One node for each column, those of the indicators and of the groups, and the two of the signal
that is never raised. -/
def genomeSize : ℕ :=
  (genomeColumns spec).dedup.length + spec.indicators.length + groupNodes spec spec.entry +
    groupNodes spec spec.exit + 2

/-- Stop losses and take profits combine when both are percentages; alone, a take profit is one. -/
def ExitRulesCompile (group : ConditionGroup) : Prop :=
  match lastStopLoss group, lastTakeProfit group with
  | some stop, some take => stop.mode = .percent ∧ take.mode = .percent
  | none, some take => take.mode = .percent
  | _, none => True

end Genome

theorem mem_addColumns {known columns : List String} {column : String} :
    column ∈ addColumns known columns ↔ column ∈ known ∨ column ∈ columns := by
  induction columns generalizing known with
  | nil => simp [addColumns]
  | cons first rest ih =>
    have hstep : addColumns known (first :: rest) =
        addColumns (if first ∈ known then known else known ++ [first]) rest := rfl
    rw [hstep, ih]
    by_cases hfirst : first ∈ known
    · rw [if_pos hfirst, List.mem_cons]
      refine ⟨fun h => h.imp_right .inr, ?_⟩
      rintro (h | rfl | h)
      · exact .inl h
      · exact .inl hfirst
      · exact .inr h
    · rw [if_neg hfirst, List.mem_cons, List.mem_append, List.mem_singleton]
      tauto

theorem nodup_addColumns {known columns : List String} (h : known.Nodup) :
    (addColumns known columns).Nodup := by
  induction columns generalizing known with
  | nil => exact h
  | cons first rest ih =>
    refine ih (show (if first ∈ known then known else known ++ [first]).Nodup from ?_)
    by_cases hfirst : first ∈ known
    · rwa [if_pos hfirst]
    · rw [if_neg hfirst]
      exact List.nodup_append.mpr ⟨h, List.nodup_singleton first, fun a ha b hb heq =>
        hfirst (List.mem_singleton.mp hb ▸ heq ▸ ha)⟩

/-- The columns with a node are those that are read, each once. -/
theorem length_addColumns (columns : List String) :
    (addColumns [] columns).length = columns.dedup.length := by
  have hperm : (addColumns [] columns).Perm columns.dedup := by
    rw [List.perm_ext_iff_of_nodup (nodup_addColumns List.nodup_nil) columns.nodup_dedup]
    intro column
    simp [mem_addColumns]
  exact hperm.length_eq

/-! ## Exit policies -/

section Policy

variable {spec : StrategySpec} {policy : Option ExitRulePolicy} {params : List (String × Value)}

theorem lt_digitLimit {n : ℕ} (h : n ≤ 100) : n < digitLimit := by
  have hpow : 10 ^ 3 ≤ digitLimit := Nat.pow_le_pow_right (by decide) (by decide)
  omega

theorem bracketPolicy_ok (stopLoss takeProfit : ℚ) :
    bracketPolicy stopLoss takeProfit = .ok (buildExitRulePolicy "fixed_pct_bracket"
      ["stop_loss_pct", "take_profit_pct"],
      [(genomeExitParamRef "stop_loss_pct", .float stopLoss),
        (genomeExitParamRef "take_profit_pct", .float takeProfit)]) := rfl

theorem buildExitPolicy_succeeds :
    Succeeds (buildExitPolicy spec) ↔ ExitRulesCompile spec.exit := by
  unfold buildExitPolicy ExitRulesCompile
  cases lastStopLoss spec.exit with
  | none =>
    cases lastTakeProfit spec.exit with
    | none => simp
    | some take => cases hmode : take.mode <;> simp [hmode, bracketPolicy_ok]
  | some stop =>
    cases lastTakeProfit spec.exit with
    | none => cases hmode : stop.mode <;> simp [hmode]
    | some take =>
      cases hmode : stop.mode <;> cases hmode' : take.mode <;>
        simp [hmode, hmode', bracketPolicy_ok]

/-- The policies that the compiler builds. -/
def compiledPolicies : List ExitRulePolicy :=
  [buildExitRulePolicy "fixed_pct_bracket" ["stop_loss_pct", "take_profit_pct"],
    buildSingleStopExitPolicy false, buildSingleStopExitPolicy true]

/-- The parameters of a policy are written, when the period of the stop is. -/
theorem buildExitPolicy_ok (h : buildExitPolicy spec = .ok (policy, params)) :
    (∀ p ∈ policy, p ∈ compiledPolicies) ∧
      ((∀ stop ∈ lastStopLoss spec.exit, ∀ n ∈ stop.atrPeriod, n < digitLimit) →
        params.all (fun param => dumpable param.2) = true) := by
  unfold buildExitPolicy at h
  cases hstop : lastStopLoss spec.exit with
  | none =>
    cases htake : lastTakeProfit spec.exit with
    | none =>
      rw [hstop, htake] at h
      obtain ⟨rfl, rfl⟩ := Prod.mk.inj (Except.ok.inj h)
      exact ⟨by simp, by simp⟩
    | some take =>
      rw [hstop, htake] at h
      cases hmode : take.mode with
      | atr => simp [hmode] at h
      | percent =>
        simp only [hmode, bracketPolicy_ok] at h
        obtain ⟨rfl, rfl⟩ := Prod.mk.inj (Except.ok.inj h)
        exact ⟨by simp [compiledPolicies], by simp [dumpable]⟩
  | some stop =>
    cases htake : lastTakeProfit spec.exit with
    | none =>
      rw [hstop, htake] at h
      cases hmode : stop.mode with
      | percent =>
        simp only [hmode] at h
        obtain ⟨rfl, rfl⟩ := Prod.mk.inj (Except.ok.inj h)
        exact ⟨by simp [compiledPolicies], by simp [dumpable]⟩
      | atr =>
        simp only [hmode] at h
        obtain ⟨rfl, rfl⟩ := Prod.mk.inj (Except.ok.inj h)
        refine ⟨by simp [compiledPolicies], fun hperiod => ?_⟩
        have hwritten : stop.atrPeriod.getD 14 < digitLimit := by
          cases hn : stop.atrPeriod with
          | some n => exact hperiod stop rfl n hn
          | none => exact lt_digitLimit (by simp)
        simp only [List.all_cons, List.all_nil, dumpable, Int.natAbs_natCast]
        simpa using hwritten
    | some take =>
      rw [hstop, htake] at h
      cases hmode : stop.mode with
      | atr => simp [hmode] at h
      | percent =>
        cases hmode' : take.mode with
        | atr => simp [hmode, hmode'] at h
        | percent =>
          simp only [hmode, hmode', bracketPolicy_ok] at h
          obtain ⟨rfl, rfl⟩ := Prod.mk.inj (Except.ok.inj h)
          exact ⟨by simp [compiledPolicies], by simp [dumpable]⟩

theorem validateExitRulePolicy_ok {genome : Genome}
    (h : ∀ p ∈ genome.exitRulePolicy, p ∈ compiledPolicies) :
    validateExitRulePolicy genome = .ok () := by
  unfold validateExitRulePolicy
  cases hpolicy : genome.exitRulePolicy with
  | none => rfl
  | some p =>
    have hmem := h p hpolicy
    simp only [compiledPolicies, List.mem_cons, List.not_mem_nil, or_false] at hmem
    obtain rfl | rfl | rfl := hmem
    · exact toBool_eq_true.mp (by decide)
    · exact toBool_eq_true.mp (by decide)
    · exact toBool_eq_true.mp (by decide)

end Policy

/-! ## The composite path -/

/-- What the builder asks of a spec, limits apart. -/
structure Buildable (spec : StrategySpec) : Prop where
  indicators : ∀ indicator ∈ spec.indicators, (indicatorKind indicator.type).isSome = true
  entry : GroupCompiles spec spec.entry "entry"
  exit : GroupCompiles spec spec.exit "exit"
  rules : ExitRulesCompile spec.exit

/-- The limits of a genome, read off the spec. -/
structure WithinLimits (spec : StrategySpec) : Prop where
  size : genomeSize spec ≤ defaultMaxNodeCount
  entryLevel : groupLevel spec spec.entry + 2 ≤ defaultMaxDepth
  exitLevel : groupLevel spec spec.exit ≤ defaultMaxDepth

section Composite

variable (F : Type) [PriceFloat F] {spec : StrategySpec} {genome : Genome}
  {params : List (String × Value)}

/-- A genome whose signals are outputs of its nodes. -/
theorem validateSignalRefs_ok (hnd : genome.ids.Nodup) {m n : ℕ}
    (hentry : Refers genome.nodes signalTypes genome.entryLong m)
    (hexit : Refers genome.nodes signalTypes genome.exitLong n) {k : ℕ}
    (hshort : Refers genome.nodes signalTypes genome.entryShort k)
    (hsame : genome.exitShort = genome.entryShort) : validateSignalRefs genome = .ok () := by
  have hbool : ∀ label ref level, Refers genome.nodes signalTypes ref level →
      requireBoolRef genome label ref = .ok () ∧ requireExitRef genome label ref = .ok () := by
    rintro label ref level ⟨parent, hparent, type, htype, hname, hport, -⟩
    obtain rfl := List.mem_singleton.mp htype
    have hlookup : genome.node? (parseInputRef ref).1 = some parent := by
      rw [hname]
      exact node?_of_mem hnd hparent
    have hrequire : requireBoolRef genome label ref = .ok () := by
      simp only [requireBoolRef, hlookup, hport, ensure_eq_ok]
    refine ⟨hrequire, ?_⟩
    simp only [requireExitRef, hlookup]
    split_ifs
    · rfl
    · exact hrequire
  simp only [validateSignalRefs, seq_eq_ok, hsame]
  exact ⟨(hbool _ _ _ hentry).1, (hbool _ _ _ hshort).1, (hbool _ _ _ hexit).2,
    (hbool _ _ _ hshort).2⟩

theorem buildGenome_ok (hnd : (spec.indicators.map IndicatorSpec.id).Nodup)
    (hs : buildGenome spec = .ok (genome, params)) :
    Buildable spec ∧ buildExitPolicy spec = .ok (genome.exitRulePolicy, params) ∧
      (Accepted F genome ↔ WithinLimits spec) := by
  unfold buildGenome at hs
  simp only [bind_eq_ok] at hs
  obtain ⟨b₀, hindicators, ⟨entry, b₁⟩, hentry, ⟨exit, b₂⟩, hexit, ⟨policy, params'⟩, hpolicy, hs⟩ :=
    hs
  obtain ⟨rfl, rfl⟩ := Prod.mk.inj (pure_eq_ok.mp hs)
  obtain ⟨hkinds, hindicated⟩ := buildIndicators_indicated (indicated_nil (F := F)) hindicators
  rw [List.nil_append] at hindicated
  obtain ⟨hgroup₁, hext₁, hsignal₁⟩ := compileConditionGroup_extends hnd hindicated.sound hentry
  obtain ⟨hgroup₂, hext₂, hsignal₂⟩ := compileConditionGroup_extends hnd hext₁.sound hexit
  have hentry₂ := hsignal₁.mono hext₂.sound.assembled hext₂.nodes
  obtain ⟨hext₃, hshort⟩ := alwaysFalseNode_extends hext₂.sound hentry₂
  have hall := hext₃.sound.assembled
  have hentry₃ := hentry₂.mono hall hext₃.nodes
  have hexit₃ := hsignal₂.mono hall hext₃.nodes
  refine ⟨⟨hkinds, hgroup₁, hgroup₂, buildExitPolicy_succeeds.mp ⟨_, hpolicy⟩⟩, hpolicy, ?_⟩
  have hlength : (b₂.alwaysFalseNode entry).2.nodes.length = genomeSize spec := by
    have hcolumns : (b₂.alwaysFalseNode entry).2.columns.length =
        (genomeColumns spec).dedup.length := by
      rw [← length_addColumns, hext₃.columns, hext₂.columns, hext₁.columns, hindicated.columns,
        genomeColumns, addColumns_append, addColumns_append]
      rfl
    have hsize := hindicated.size
    have hsize₁ := hext₁.size
    have hsize₂ := hext₂.size
    have hsize₃ := hext₃.size
    unfold genomeSize
    omega
  have hlevels : (∀ node ∈ (b₂.alwaysFalseNode entry).2.nodes,
      levels (b₂.alwaysFalseNode entry).2.nodes node.id ≤ defaultMaxDepth) ↔
      groupLevel spec spec.entry + 2 ≤ defaultMaxDepth ∧
        groupLevel spec spec.exit ≤ defaultMaxDepth := by
    constructor
    · intro hle
      obtain ⟨node, hn, -, -, -, -, hlevel⟩ := hshort
      obtain ⟨node', hn', -, -, -, -, hlevel'⟩ := hexit₃
      exact ⟨hlevel ▸ hle node hn, hlevel' ▸ hle node' hn'⟩
    · rintro ⟨hentryLe, hexitLe⟩ node hn
      have hgrown := ((hext₁.mono (by omega)).trans (hext₂.mono hexitLe)).trans
        (hext₃.mono hentryLe)
      obtain hold | hle := hgrown.levels node hn
      · rw [levels_of_grown hall hgrown.nodes (List.mem_map_of_mem hold)]
        exact (hindicated.levels node hold).trans (by decide)
      · exact hle
  refine (accepted_iff_of_assembled hall ?_ ?_).trans ?_
  · exact validateSignalRefs_ok hall.nodup hentry₃ hexit₃ hshort rfl
  · exact validateExitRulePolicy_ok (buildExitPolicy_ok hpolicy).1
  · rw [hlevels]
    show (b₂.alwaysFalseNode entry).2.nodes.length ≤ _ ∧ _ ↔ _
    rw [hlength]
    exact ⟨fun ⟨hsize, he, hx⟩ => ⟨hsize, he, hx⟩, fun h => ⟨h.size, h.entryLevel, h.exitLevel⟩⟩

include F in
theorem buildGenome_succeeds (hnd : (spec.indicators.map IndicatorSpec.id).Nodup)
    (h : Buildable spec) : Succeeds (buildGenome spec) := by
  obtain ⟨b₀, hindicators⟩ := buildIndicators_succeeds (b := {}) h.indicators
  obtain ⟨-, hindicated⟩ := buildIndicators_indicated (indicated_nil (F := F)) hindicators
  rw [List.nil_append] at hindicated
  obtain ⟨⟨entry, b₁⟩, hentry⟩ := compileConditionGroup_succeeds hnd hindicated.sound h.entry
  obtain ⟨-, hext₁, -⟩ := compileConditionGroup_extends hnd hindicated.sound hentry
  obtain ⟨⟨exit, b₂⟩, hexit⟩ := compileConditionGroup_succeeds hnd hext₁.sound h.exit
  obtain ⟨⟨policy, params⟩, hpolicy⟩ := buildExitPolicy_succeeds.mpr h.rules
  exact succeeds_bind.mpr ⟨_, hindicators, succeeds_bind.mpr ⟨_, hentry,
    succeeds_bind.mpr ⟨_, hexit, succeeds_bind.mpr ⟨_, hpolicy, succeeds_pure⟩⟩⟩⟩

theorem buildCompiled_succeeds {strategyName strategyLabel entrySummary exitSummary : String} :
    Succeeds (buildCompiled spec strategyName strategyLabel params genome entrySummary
      exitSummary) ↔ params.all (fun param => dumpable param.2) = true := by
  unfold buildCompiled
  rw [succeeds_bind_iff fun _ => succeeds_pure]
  exact ⟨fun ⟨_, hu⟩ => ensure_eq_ok.mp hu, fun h => ⟨(), ensure_eq_ok.mpr h⟩⟩

theorem compileCompositeStrategy_succeeds (hnd : (spec.indicators.map IndicatorSpec.id).Nodup)
    (hperiod : ∀ stop ∈ lastStopLoss spec.exit, ∀ n ∈ stop.atrPeriod, n < digitLimit) :
    Succeeds (compileCompositeStrategy F spec) ↔ Buildable spec ∧ WithinLimits spec := by
  unfold compileCompositeStrategy
  rw [succeeds_bind]
  constructor
  · rintro ⟨⟨genome, params⟩, hbuild, hvalid⟩
    obtain ⟨hbuildable, -, haccepted⟩ := buildGenome_ok F hnd hbuild
    refine ⟨hbuildable, haccepted.mp ?_⟩
    unfold Accepted
    cases hcheck : validateGenome F genome defaultMaxDepth defaultMaxNodeCount with
    | ok u => rfl
    | error e => simp [hcheck] at hvalid
  · rintro ⟨hbuildable, hlimits⟩
    obtain ⟨⟨genome, params⟩, hbuild⟩ := buildGenome_succeeds F hnd hbuildable
    obtain ⟨-, hpolicy, haccepted⟩ := buildGenome_ok F hnd hbuild
    have hcheck : validateGenome F genome defaultMaxDepth defaultMaxNodeCount = .ok () :=
      haccepted.mpr hlimits
    refine ⟨_, hbuild, ?_⟩
    simp only [hcheck]
    exact buildCompiled_succeeds.mpr ((buildExitPolicy_ok hpolicy).2 hperiod)

end Composite

/-! ## Valid specs -/

section Spec

variable (spec : StrategySpec)

def StrategySpec.comparisons : List ComparisonCondition :=
  comparisonConditions spec.entry ++ comparisonConditions spec.exit

/-- A registered strategy stands for the spec. -/
def Registered : Prop :=
  exitRuleConditions spec.exit = [] ∧
    ((matchMaCrossover spec).isSome = true ∨ (matchRsiMeanReversion spec).isSome = true)

/-- What the tables of the validator have and those of the compiler have not is not used. -/
structure TablesAgree : Prop where
  indicators : ∀ indicator ∈ spec.indicators, indicator.type ≠ "atr"
  columns : ∀ condition ∈ spec.comparisons, condition.left ≠ "tick_volume" ∧
    condition.right ≠ .text "tick_volume"

/-- The integers are floats where the compiler makes floats of them, and are written. -/
structure NumbersFit : Prop where
  thresholds : ∀ condition ∈ spec.comparisons, ∀ n, condition.right = .int n →
    n.natAbs < floatLimit
  periods : ∀ stop ∈ lastStopLoss spec.exit, ∀ n ∈ stop.atrPeriod, n < digitLimit

def isBanded (type : String) : Bool := type = "donchian" || type = "bollinger_bands"

/-- A reference to an indicator of several bands says which of them. -/
def NamesBand (ref : String) : Prop :=
  isSource ref = true ∨ ∀ indicator ∈ spec.indicator? (splitReference ref).1,
    isBanded indicator.type = true → (splitReference ref).2 ≠ ""

instance (ref : String) : Decidable (NamesBand spec ref) := by
  unfold NamesBand
  infer_instance

/-- What the compiler supports where no registered strategy matches. -/
structure Lowerable : Prop where
  bands : ∀ condition ∈ spec.comparisons, NamesBand spec condition.left ∧
    ∀ ref, condition.right = .text ref → NamesBand spec ref
  literals : ∀ condition ∈ spec.comparisons, condition.right.isNumber = true →
    isCrossing condition.op = true
  rules : ExitRulesCompile spec.exit
  limits : WithinLimits spec

end Spec

section ValidSpec

variable {F : Type} [PriceFloat F] {known : List String} {spec : StrategySpec}

/-- How the ports of the validator lie in those of the compiler. -/
theorem ports_of_type {type : String} (htype : type ∈ mvpIndicatorTypes) {valid : List String}
    (hvalid : indicatorOutputPorts.lookup type = some valid) :
    ∃ ports, nodeOutputPorts.lookup type = some ports ∧
      (isBanded type = false → (ports.lookup "").isSome = true) ∧
      (isBanded type = true → ports.lookup "" = none ∧
        ∀ port ∈ valid, (ports.lookup port).isSome = true) := by
  have hall : ∀ type ∈ mvpIndicatorTypes, ∀ valid ∈ indicatorOutputPorts.lookup type,
      ∃ ports ∈ nodeOutputPorts.lookup type,
        (isBanded type = false → (ports.lookup "").isSome = true) ∧
        (isBanded type = true → ports.lookup "" = none ∧
          ∀ port ∈ valid, (ports.lookup port).isSome = true) := by
    decide
  exact hall type htype valid hvalid

theorem isSource_of_price {ref : String} (h : ref ∈ priceColumns) (hne : ref ≠ "tick_volume") :
    isSource ref = true := by
  have hall : ∀ ref ∈ priceColumns, ref ≠ "tick_volume" → isSource ref = true := by decide
  exact hall ref h hne

theorem resolves_iff (hi : ValidIndicators spec.indicators) {ref : String}
    (hv : ValidReference spec.indicators ref) (hne : ref ≠ "tick_volume") :
    Resolves spec ref ↔ NamesBand spec ref := by
  unfold Resolves NamesBand
  by_cases hsource : isSource ref = true
  · simp [hsource]
  · obtain ⟨indicator, hmem, valid, hid, hvalid, hport⟩ :=
      hv.resolve_left fun hprice => hsource (isSource_of_price hprice hne)
    have hfound : spec.indicator? (splitReference ref).1 = some indicator :=
      (indicator?_eq_some hi.nodup).mpr ⟨hmem, hid⟩
    obtain ⟨ports, hports, hplain, hbanded⟩ := ports_of_type (hi.types indicator hmem) hvalid
    rw [or_iff_right hsource, or_iff_right hsource, hfound]
    simp only [Option.mem_def, Option.some.injEq, forall_eq']
    constructor
    · rintro ⟨_, ports', rfl, hports', hlookup⟩ hband hempty
      obtain rfl : ports = ports' := Option.some.inj (hports.symm.trans hports')
      rw [hempty, (hbanded hband).1] at hlookup
      simp at hlookup
    · intro hnames
      refine ⟨indicator, ports, rfl, hports, ?_⟩
      cases hband : isBanded indicator.type with
      | false => exact .inr (hplain hband)
      | true => exact .inl ((hbanded hband).2 _ (hport.resolve_left (hnames hband)))

theorem lookup_of_operator {op : String} (h : op ∈ mvpOperators) :
    (operatorToCmpKind.lookup op).isSome = true := by
  have hall : ∀ op ∈ mvpOperators, (operatorToCmpKind.lookup op).isSome = true := by decide
  exact hall op h

theorem indicatorKind_of_type {type : String} (h : type ∈ mvpIndicatorTypes) (hne : type ≠ "atr") :
    (indicatorKind type).isSome = true := by
  have hall : ∀ type ∈ mvpIndicatorTypes, type ≠ "atr" →
      (indicatorKind type).isSome = true := by decide
  exact hall type h hne

theorem mem_comparisonConditions {group : ConditionGroup} {condition : ComparisonCondition} :
    condition ∈ comparisonConditions group ↔ .comparison condition ∈ group.conditions := by
  rw [comparisonConditions, List.mem_filterMap]
  constructor
  · rintro ⟨leaf, hleaf, heq⟩
    cases leaf with
    | comparison other => exact Option.some.inj heq ▸ hleaf
    | stopLoss rule => cases heq
    | takeProfit rule => cases heq
  · exact fun h => ⟨_, h, rfl⟩

theorem comparisonCompiles_iff (hi : ValidIndicators spec.indicators)
    {condition : ComparisonCondition} (hv : ValidComparison spec.indicators condition)
    (hne : condition.left ≠ "tick_volume" ∧ condition.right ≠ .text "tick_volume")
    (hfits : ∀ n, condition.right = .int n → n.natAbs < floatLimit) :
    ComparisonCompiles spec condition ↔
      (NamesBand spec condition.left ∧ ∀ ref, condition.right = .text ref → NamesBand spec ref) ∧
        (condition.right.isNumber = true → isCrossing condition.op = true) := by
  have hleft := resolves_iff hi hv.left hne.1
  have hright : OperandCompiles spec condition.op condition.right ↔
      (∀ ref, condition.right = .text ref → NamesBand spec ref) ∧
        (condition.right.isNumber = true → isCrossing condition.op = true) := by
    cases hoperand : condition.right with
    | text ref =>
      have hresolves := resolves_iff hi (hv.right ref hoperand) fun heq =>
        hne.2 (by rw [hoperand, heq])
      simp [OperandCompiles, Operand.isNumber, hresolves]
    | int n => simp [OperandCompiles, Operand.isNumber, hfits n hoperand]
    | float q => simp [OperandCompiles, Operand.isNumber]
  constructor
  · intro h
    obtain ⟨hbands, hliteral⟩ := hright.mp h.right
    exact ⟨⟨hleft.mp h.left, hbands⟩, hliteral⟩
  · rintro ⟨⟨hband, hbands⟩, hliteral⟩
    exact ⟨lookup_of_operator hv.operator, hleft.mpr hband, hright.mpr ⟨hbands, hliteral⟩⟩

theorem Valid.comparison (h : Valid known spec) {condition : ComparisonCondition}
    (hc : condition ∈ spec.comparisons) : ValidComparison spec.indicators condition := by
  obtain ⟨-, hentry, hexit⟩ := h.parts
  obtain hc | hc := List.mem_append.mp hc
  · exact (validateConditionGroup_ok hentry).2.1 condition (mem_comparisonConditions.mp hc)
  · exact (validateConditionGroup_ok hexit).2.1 condition (mem_comparisonConditions.mp hc)

theorem Valid.entry_ne_nil (h : Valid known spec) : comparisonConditions spec.entry ≠ [] := by
  obtain ⟨-, hentry, -⟩ := h.parts
  obtain ⟨leaf, hleaf, hcomparison⟩ := (validateConditionGroup_ok hentry).2.2 rfl
  cases leaf with
  | comparison condition => exact List.ne_nil_of_mem (mem_comparisonConditions.mpr hleaf)
  | stopLoss rule => cases hcomparison
  | takeProfit rule => cases hcomparison

theorem Valid.exit_rules (h : Valid known spec) (hnil : comparisonConditions spec.exit = []) :
    exitRuleConditions spec.exit ≠ [] := by
  obtain ⟨-, -, hexit⟩ := h.parts
  obtain ⟨leaf, hleaf⟩ := List.exists_mem_of_ne_nil _ (validateConditionGroup_ok hexit).1
  refine List.ne_nil_of_mem (List.mem_filter.mpr ⟨hleaf, ?_⟩)
  cases leaf with
  | comparison condition =>
    have hmem := mem_comparisonConditions.mpr hleaf
    rw [hnil] at hmem
    cases hmem
  | stopLoss rule => rfl
  | takeProfit rule => rfl

theorem lowerable_iff (h : Valid known spec) (ht : TablesAgree spec) (hn : NumbersFit spec) :
    Lowerable spec ↔ Buildable spec ∧ WithinLimits spec := by
  have hcompiles : ∀ condition ∈ spec.comparisons, ComparisonCompiles spec condition ↔
      (NamesBand spec condition.left ∧ ∀ ref, condition.right = .text ref → NamesBand spec ref) ∧
        (condition.right.isNumber = true → isCrossing condition.op = true) := fun condition hc =>
    comparisonCompiles_iff h.validIndicators (h.comparison hc) (ht.columns condition hc)
      (hn.thresholds condition hc)
  constructor
  · intro hl
    have hall : ∀ condition ∈ spec.comparisons, ComparisonCompiles spec condition :=
      fun condition hc =>
        (hcompiles condition hc).mpr ⟨hl.bands condition hc, hl.literals condition hc⟩
    refine ⟨⟨fun indicator hi => ?_, ⟨fun c hc => ?_, fun hnil => ?_⟩,
      ⟨fun c hc => ?_, fun hnil => ?_⟩, hl.rules⟩, hl.limits⟩
    · exact indicatorKind_of_type (h.validIndicators.types indicator hi)
        (ht.indicators indicator hi)
    · exact hall c (List.mem_append_left _ hc)
    · exact absurd hnil h.entry_ne_nil
    · exact hall c (List.mem_append_right _ hc)
    · exact ⟨rfl, h.exit_rules hnil⟩
  · rintro ⟨hb, hlimits⟩
    have hall : ∀ condition ∈ spec.comparisons, ComparisonCompiles spec condition := by
      intro condition hc
      obtain hc | hc := List.mem_append.mp hc
      · exact hb.entry.comparisons condition hc
      · exact hb.exit.comparisons condition hc
    exact ⟨fun c hc => ((hcompiles c hc).mp (hall c hc)).1,
      fun c hc => ((hcompiles c hc).mp (hall c hc)).2, hb.rules, hlimits⟩

/-! ## Registered strategies -/

variable (F) in
theorem isSome_registry : (tryCompileRegistryStrategy F spec).isSome = true ↔ Registered spec := by
  unfold tryCompileRegistryStrategy Registered
  by_cases hrules : exitRuleConditions spec.exit = []
  · rw [if_neg (not_not.mpr hrules)]
    cases matchMaCrossover spec with
    | some pair => simp [hrules]
    | none =>
      cases matchRsiMeanReversion spec with
      | some rsi => simp [hrules]
      | none => simp
  · rw [if_pos hrules]
    simp [hrules]

theorem dumpable_period (h : Valid known spec) {indicator : IndicatorSpec}
    (hi : indicator ∈ spec.indicators) : dumpable (.int indicator.period) = true := by
  obtain ⟨hlow, hhigh⟩ := h.validIndicators.periods indicator hi
  have hle : indicator.period.natAbs ≤ 100 := by
    simp only [periodBounds] at hlow hhigh
    omega
  simp only [dumpable, decide_eq_true_eq]
  exact lt_digitLimit hle

theorem matchMaCrossover_mem {first second : IndicatorSpec}
    (h : matchMaCrossover spec = some (first, second)) :
    first ∈ spec.indicators ∧ second ∈ spec.indicators := by
  unfold matchMaCrossover at h
  split at h
  next first' second' _ _ hindicators _ _ =>
    split_ifs at h
    obtain ⟨rfl, rfl⟩ := Prod.mk.inj (Option.some.inj h)
    simp [hindicators]
  next => cases h

theorem matchRsiMeanReversion_mem {rsi : IndicatorSpec} {low high : Operand}
    (h : matchRsiMeanReversion spec = some (rsi, low, high)) :
    rsi ∈ spec.indicators ∧ ∀ operand ∈ [low, high], operand.isNumber = true ∧
      ∃ condition ∈ spec.comparisons, condition.right = operand := by
  unfold matchRsiMeanReversion at h
  split at h
  next rsi' entry exit hindicators hentry hexit =>
    split_ifs at h with hmatch
    obtain ⟨rfl, hpair⟩ := Prod.mk.inj (Option.some.inj h)
    obtain ⟨rfl, rfl⟩ := Prod.mk.inj hpair
    obtain ⟨-, -, -, -, -, hlow, hhigh⟩ := hmatch
    refine ⟨by simp [hindicators], fun operand ho => ?_⟩
    obtain rfl | ho := List.mem_cons.mp ho
    · exact ⟨hlow, entry, by simp [StrategySpec.comparisons, hentry], rfl⟩
    · obtain rfl := List.mem_singleton.mp ho
      exact ⟨hhigh, exit, by simp [StrategySpec.comparisons, hexit], rfl⟩
  next => cases h

theorem registry_succeeds (h : Valid known spec) (hn : NumbersFit spec)
    {compiled : Compile CompiledStrategy}
    (hr : tryCompileRegistryStrategy F spec = some compiled) : Succeeds compiled := by
  unfold tryCompileRegistryStrategy at hr
  split_ifs at hr
  cases hma : matchMaCrossover spec with
  | some pair =>
    obtain ⟨first, second⟩ := pair
    obtain ⟨hfirst, hsecond⟩ := matchMaCrossover_mem hma
    simp only [hma, Option.some.injEq] at hr
    subst hr
    unfold compileMaCrossover
    by_cases hle : second.period ≤ first.period
    · simp only [if_pos hle]
      exact buildCompiled_succeeds.mpr
        (by simp [dumpable_period h hfirst, dumpable_period h hsecond])
    · simp only [if_neg hle]
      exact buildCompiled_succeeds.mpr
        (by simp [dumpable_period h hfirst, dumpable_period h hsecond])
  | none =>
    cases hrsi : matchRsiMeanReversion spec with
    | none => simp [hma, hrsi] at hr
    | some found =>
      obtain ⟨rsi, low, high⟩ := found
      obtain ⟨hmem, hoperands⟩ := matchRsiMeanReversion_mem hrsi
      simp only [hma, hrsi, Option.some.injEq] at hr
      subst hr
      have hfloat : ∀ operand ∈ [low, high], Succeeds operand.toFloat := by
        intro operand ho
        obtain ⟨hnumber, condition, hc, hright⟩ := hoperands operand ho
        cases operand with
        | text ref => cases hnumber
        | float q => exact succeeds_ok
        | int n => simp [Operand.toFloat, hn.thresholds condition hc n hright]
      obtain ⟨lowFloat, hlow⟩ := hfloat low (by simp)
      obtain ⟨highFloat, hhigh⟩ := hfloat high (by simp)
      refine succeeds_bind.mpr ⟨_, hlow, succeeds_bind.mpr ⟨_, hhigh, ?_⟩⟩
      exact buildCompiled_succeeds.mpr (by simp [dumpable_period h hmem])

theorem requireValid_ok (h : Valid known spec) : requireValid known spec = .ok () := by
  unfold Valid at h
  simp only [requireValid, h]

theorem compileStrategySpecPayload_of_valid (h : Valid known spec) :
    compileStrategySpecPayload F known spec =
      match tryCompileRegistryStrategy F spec with
      | some compiled => compiled
      | none => compileCompositeStrategy F spec := by
  unfold compileStrategySpecPayload compileStrategySpec
  rw [requireValid_ok h]
  rfl

/-- A valid spec compiles when a registered strategy matches it or the compiler supports its
conditions, its exit rules and its size. -/
theorem compileStrategySpecPayload_succeeds (h : Valid known spec) (ht : TablesAgree spec)
    (hn : NumbersFit spec) :
    Succeeds (compileStrategySpecPayload F known spec) ↔ Registered spec ∨ Lowerable spec := by
  rw [compileStrategySpecPayload_of_valid h]
  cases hr : tryCompileRegistryStrategy F spec with
  | some compiled =>
    have hregistered : Registered spec := (isSome_registry F).mp (by simp [hr])
    exact ⟨fun _ => .inl hregistered, fun _ => registry_succeeds h hn hr⟩
  | none =>
    have hnone : ¬ Registered spec := fun hreg => by simpa [hr] using (isSome_registry F).mpr hreg
    simp only [or_iff_right hnone]
    rw [lowerable_iff h ht hn]
    exact compileCompositeStrategy_succeeds F h.validIndicators.nodup hn.periods

end ValidSpec

/-- The fast average crosses the slow one, with a stop below the entry. -/
def emaCrossSpec : StrategySpec where
  name := "EMA Trend Cross"
  symbols := ["PETR4"]
  market := "B3"
  timeframe := "D1"
  indicators := [⟨"ema_fast", "ema", .close, 20, by decide, by decide, by decide⟩,
    ⟨"ema_slow", "ema", .close, 50, by decide, by decide, by decide⟩]
  entry := .all [.comparison ⟨"ema_fast", "crosses_above", .text "ema_slow", by decide, by decide⟩]
  exit := .any
    [.comparison ⟨"ema_fast", "crosses_below", .text "ema_slow", by decide, by decide⟩,
      .stopLoss { mode := .percent, value := 3 / 100, valuePos := by norm_num }]
  risk := { positionSizing := .fixedQuantity, quantity := some 1 }

/-- The close above a level, which no registered strategy does. -/
def levelSpec : StrategySpec where
  name := "Above a level"
  symbols := ["PETR4"]
  market := "B3"
  timeframe := "D1"
  entry := .all [.comparison ⟨"close", ">", .int 100, by decide, by decide⟩]
  exit := .any [.comparison ⟨"close", "<", .text "open", by decide, by decide⟩]
  risk := { positionSizing := .fixedQuantity, quantity := some 1 }

/-- The close crosses its average; a stop is the only exit. -/
def averageSpec : StrategySpec where
  name := "Above the average"
  symbols := ["PETR4"]
  market := "B3"
  timeframe := "D1"
  indicators := [⟨"avg", "sma", .close, 10, by decide, by decide, by decide⟩]
  entry := .all [.comparison ⟨"close", "crosses_above", .text "avg", by decide, by decide⟩]
  exit := .any [.stopLoss { mode := .percent, value := 3 / 100, valuePos := by norm_num }]
  risk := { positionSizing := .fixedQuantity, quantity := some 1 }

theorem valid_emaCrossSpec : Valid ["PETR4"] emaCrossSpec :=
  eq_ok_of_toOption (by decide +kernel)

theorem emaCrossSpec_compiles :
    Valid ["PETR4"] emaCrossSpec ∧
      Succeeds (compileStrategySpecPayload (Option ℚ) ["PETR4"] emaCrossSpec) := by
  have htables : TablesAgree emaCrossSpec := by
    refine ⟨by decide, ?_⟩
    simp [StrategySpec.comparisons, comparisonConditions, emaCrossSpec,
      ConditionGroup.conditions, ConditionLeaf.comparison?]
  have hnumbers : NumbersFit emaCrossSpec := by
    refine ⟨?_, ?_⟩
    · simp [StrategySpec.comparisons, comparisonConditions, emaCrossSpec,
        ConditionGroup.conditions, ConditionLeaf.comparison?]
    · intro stop hstop n hn
      obtain rfl := Option.some.inj hstop
      cases hn
  have hlowerable : Lowerable emaCrossSpec := by
    refine ⟨?_, by decide, trivial, by decide, by decide, by decide⟩
    refine List.forall_mem_cons.mpr ⟨⟨by decide, ?_⟩, List.forall_mem_singleton.mpr ⟨by decide, ?_⟩⟩
    · rintro ref ⟨⟩
      decide
    · rintro ref ⟨⟩
      decide
  exact ⟨valid_emaCrossSpec,
    (compileStrategySpecPayload_succeeds valid_emaCrossSpec htables hnumbers).mpr
      (.inr hlowerable)⟩

theorem levelSpec_refused :
    Valid ["PETR4"] levelSpec ∧
      compileStrategySpecPayload (Option ℚ) ["PETR4"] levelSpec = .error literalFailure := by
  have hvalid : Valid ["PETR4"] levelSpec := eq_ok_of_toOption (by decide +kernel)
  refine ⟨hvalid, ?_⟩
  rw [compileStrategySpecPayload_of_valid hvalid]
  rfl

end QBackend.StrategyBuilder
