import QBackend.LoweredSignals

/-!
# Lowered specs keep their meaning

A spec that the compiler turns into a genome answers, run as a composite strategy through the
compiler of genomes, the series cache and the columns, as the spec says; and it fails where an
indicator of the spec is not computed, and nowhere else.
-/

namespace QBackend.StrategyBuilder

open GenomeDsl CausalSeries PriceFloat FallibleSteps RegisteredStrategies
open Execution (Time)

variable {F : Type} [PriceFloat F]

/-! ## Columns -/

theorem ne_underscore_of_mem_nodeName {n : ℕ} {c : Char} (h : c ∈ (nodeName n).toList) :
    c ≠ '_' := by
  rintro rfl
  rw [nodeName, String.toList_append] at h
  obtain h | h := List.mem_append.mp h
  · exact absurd h (by decide)
  · exact absurd (GeneticSearch.isDigit_of_mem_toString h) (by decide)

/-- What follows the id of a node in the name of its column. -/
def portSuffix (port : String) : String := if port = "out" then "" else "__" ++ port

theorem columnName_eq (id port : String) : columnName id port = "g_" ++ (id ++ portSuffix port) := by
  unfold columnName portSuffix
  split
  · rw [String.append_empty]
  · rw [String.append_assoc, String.append_assoc]

theorem append_cancel {start a b : String} (h : start ++ a = start ++ b) : a = b := by
  have hlist := congrArg String.toList h
  simp only [String.toList_append] at hlist
  exact String.toList_inj.mp (List.append_cancel_left hlist)

theorem portSuffix_injective : Function.Injective portSuffix := by
  intro p q h
  have hne : ∀ r : String, "__" ++ r ≠ "" := by
    intro r hr
    have := congrArg String.toList hr
    simp at this
  unfold portSuffix at h
  split_ifs at h with hp hq hq
  · rw [hp, hq]
  · exact absurd h.symm (hne q)
  · exact absurd h (hne p)
  · exact append_cancel h

/-- The id of a builder's node is what stands before the first underscore. -/
theorem takeWhile_name (n : ℕ) (port : String) :
    (nodeName n ++ portSuffix port).toList.takeWhile (· ≠ '_') = (nodeName n).toList := by
  rw [String.toList_append, List.takeWhile_append_of_pos fun c hc => by
    simpa using ne_underscore_of_mem_nodeName hc]
  have hsuffix : (portSuffix port).toList.takeWhile (· ≠ '_') = [] := by
    unfold portSuffix
    split
    · rfl
    · rw [String.toList_append]
      rfl
  rw [hsuffix, List.append_nil]

theorem columnsSeparated_of_names {genome : Genome}
    (h : ∀ node ∈ genome.nodes, ∃ n, node.id = nodeName n) : ColumnsSeparated genome := by
  intro a ha b hb p _ q _ heq
  obtain ⟨m, hm⟩ := h a ha
  obtain ⟨n, hn⟩ := h b hb
  rw [columnName_eq, columnName_eq, hm, hn] at heq
  have hrest := append_cancel heq
  have hnames : nodeName m = nodeName n := by
    rw [← String.toList_inj, ← takeWhile_name m p, hrest, takeWhile_name]
  refine ⟨by rw [hm, hn, hnames], portSuffix_injective ?_⟩
  rw [hnames] at hrest
  exact append_cancel hrest

/-! ## Signals of the genome -/

/-- The kinds that the compiler of genomes treats as exits of their own. -/
def IsExitKind (kind : NodeKind) : Prop :=
  kind = .exitMiddleBand ∨ kind = .exitFixedHolding ∨ kind = .exitRebalance ∨
    kind = .exitOppositeSignal

theorem not_exit_of_signal {kind : NodeKind}
    (h : portOutputType kind "out" = some .boolSeries) : ¬IsExitKind kind := by
  rintro (rfl | rfl | rfl | rfl)
  · exact absurd h (by decide)
  · exact absurd h (by decide)
  · exact absurd h (by decide)
  · exact absurd h (by decide)

theorem signal_node {genome : Genome} (hnd : genome.ids.Nodup) {raw : String} {level n : ℕ}
    (h : Refers genome.nodes signalTypes raw level) (hname : raw = nodeName n) :
    ∃ node, genome.node? (parseInputRef raw).1 = some node ∧ ¬IsExitKind node.kind := by
  obtain ⟨node, hnode, type, htype, hid, hport, -⟩ := h
  refine ⟨node, by rw [hid]; exact node?_of_mem hnd hnode, not_exit_of_signal ?_⟩
  obtain rfl := List.mem_singleton.mp htype
  rwa [hname, parseInputRef_nodeName] at hport

variable {genome : Genome} {trial : TrialParams}

/-- Neither exit is of a kind of its own. -/
def PlainExits (genome : Genome) : Prop :=
  ∀ side, ∃ node, genome.exitNode? side = some node ∧ ¬IsExitKind node.kind

theorem PlainExits.exitSource (h : PlainExits genome) (side : Side) :
    exitSource genome side = some (parseInputRef (genome.exitRef side)) := by
  obtain ⟨long, hlong, hkind⟩ := h .long
  obtain ⟨node, hnode, hnodeKind⟩ := h side
  unfold RegisteredStrategies.exitSource
  rw [hlong, hnode, Option.map_some, Option.map_some,
    if_neg fun heq => hkind (.inl (Option.some.inj heq))]
  split
  next heq => exact absurd (.inr (.inl (Option.some.inj heq))) hnodeKind
  next heq => exact absurd (.inr (.inr (.inl (Option.some.inj heq)))) hnodeKind
  next heq => exact absurd (.inl (Option.some.inj heq)) hnodeKind
  next heq => exact absurd (.inr (.inr (.inr (Option.some.inj heq)))) hnodeKind
  next => rfl

theorem PlainExits.heldFor (h : PlainExits genome) : heldFor genome trial = none := by
  have hown : ∀ side, ownHolding genome trial side = none := by
    intro side
    obtain ⟨node, hnode, hkind⟩ := h side
    unfold ownHolding
    rw [hnode]
    exact if_neg fun heq => hkind (.inr (.inl heq))
  unfold GenomeDsl.heldFor
  rw [hown, hown]
  rfl

theorem PlainExits.holdingKnown (h : PlainExits genome) : HoldingKnown genome trial := by
  intro node hnode
  have hfixed : node.kind = .exitFixedHolding := by simpa using List.find?_some hnode
  obtain ⟨ref, href, hfound⟩ := List.mem_filterMap.mp (List.mem_of_find?_eq_some hnode)
  have hside : ∃ side, ref = genome.exitRef side := by
    obtain rfl | href := List.mem_cons.mp href
    · exact ⟨.long, rfl⟩
    · exact ⟨.short, List.mem_singleton.mp href⟩
  obtain ⟨side, rfl⟩ := hside
  obtain ⟨exit, hexit, hkind⟩ := h side
  obtain rfl : exit = node := Option.some.inj (hexit.symm.trans hfound)
  exact absurd (.inr (.inl hfixed)) hkind

/-! ## The genome -/

section Lowered

variable {frame : Frame F} {latents : Option (Latents F)} {spec : StrategySpec}
  {params : List (String × Value)}

/-- The nodes of a genome that is built, with the levels of its signals. -/
theorem buildGenome_sound (hnd : (spec.indicators.map IndicatorSpec.id).Nodup)
    (hs : buildGenome spec = .ok (genome, params)) :
    Assembled F genome.nodes ∧ (∀ node ∈ genome.nodes, ∃ n, node.id = nodeName n) ∧
      (∃ level, Refers genome.nodes signalTypes genome.exitLong level) ∧
      ∃ level, Refers genome.nodes signalTypes genome.exitShort level := by
  unfold buildGenome at hs
  simp only [bind_eq_ok] at hs
  obtain ⟨b₀, hindicators, ⟨entry, b₁⟩, hentry, ⟨exit, b₂⟩, hexit, ⟨policy, params'⟩, -, hs⟩ := hs
  obtain ⟨rfl, rfl⟩ := Prod.mk.inj (pure_eq_ok.mp hs)
  obtain ⟨-, hindicated⟩ := buildIndicators_indicated (indicated_nil (F := F)) hindicators
  rw [List.nil_append] at hindicated
  obtain ⟨-, hext₁, hsignal₁⟩ := compileConditionGroup_extends hnd hindicated.sound hentry
  obtain ⟨-, hext₂, hsignal₂⟩ := compileConditionGroup_extends hnd hext₁.sound hexit
  have hentry₂ := hsignal₁.mono hext₂.sound.assembled hext₂.nodes
  obtain ⟨hext₃, hshort⟩ := alwaysFalseNode_extends hext₂.sound hentry₂
  refine ⟨hext₃.sound.assembled, fun node hnode => ?_,
    ⟨_, hsignal₂.mono hext₃.sound.assembled hext₃.nodes⟩, _, hshort⟩
  obtain ⟨n, -, hn⟩ := hext₃.sound.names node hnode
  exact ⟨n, hn⟩

theorem evaluated_nil : Evaluated trial frame latents {} [] (fun _ _ => none) where
  run := rfl
  sources := by simp
  indicators := .nil

/-- The signals of the genome, in values of its nodes, that a spec's groups hold. -/
structure SignalsMean (spec : StrategySpec) (genome : Genome) (frame : Frame F)
    (values : Values F) : Prop where
  means : ∃ table entry exit long short close,
    seriesTable frame spec.indicators = some table ∧
    spec.entry.signals spec frame table = some entry ∧
    spec.exit.signals spec frame table = some exit ∧
    ReadsSignal values genome.entryLong long ∧
    (∀ bar, signalAt (some long) bar = spec.entry.holds entry bar) ∧
    ReadsSignal values genome.exitLong close ∧
    (∀ bar, signalAt (some close) bar = spec.exit.holds exit bar) ∧
    ReadsSignal values genome.entryShort short ∧ Silent short
  short : genome.exitShort = genome.entryShort

/-- The nodes of a genome that is built evaluate to the signals of the spec, or fail where an
indicator is not computed. -/
theorem buildGenome_evaluated (hnd : (spec.indicators.map IndicatorSpec.id).Nodup)
    (hbars : comparisonConditions spec.exit = [] →
      ∀ row ∈ frame.rows, lt row.high row.close = false)
    (hs : buildGenome spec = .ok (genome, params)) :
    (∃ values, runNodes trial frame latents genome.nodes = .ok values ∧
      SignalsMean spec genome frame values) ∨
    (seriesTable frame spec.indicators = none ∧
      ∃ e, runNodes trial frame latents genome.nodes = .error e) := by
  unfold buildGenome at hs
  simp only [bind_eq_ok] at hs
  obtain ⟨b₀, hindicators, ⟨entry, b₁⟩, hentry, ⟨exit, b₂⟩, hexit, ⟨policy, params'⟩, -, hs⟩ := hs
  obtain ⟨rfl, rfl⟩ := Prod.mk.inj (pure_eq_ok.mp hs)
  obtain ⟨-, hindicated⟩ := buildIndicators_indicated (indicated_nil (F := F)) hindicators
  rw [List.nil_append] at hindicated
  obtain ⟨-, hext₁, hsignal₁⟩ := compileConditionGroup_extends hnd hindicated.sound hentry
  obtain ⟨-, hext₂, -⟩ := compileConditionGroup_extends hnd hext₁.sound hexit
  have hentry₂ := hsignal₁.mono hext₂.sound.assembled hext₂.nodes
  obtain ⟨hext₃, -⟩ := alwaysFalseNode_extends hext₂.sound hentry₂
  have hstart : Evaluated trial frame latents {} [] fun _ _ => none := evaluated_nil
  obtain ⟨table, values₀, htable, he₀⟩ | ⟨hnone, e, hrun⟩ :=
    buildIndicators_evaluated indicated_nil hstart hindicators
  · rw [List.nil_append] at he₀
    have hnames := map_fst_seriesTable htable
    have hlengths : ∀ entry ∈ table, ∀ s ∈ entry.2, s.2.length = frame.rows.length :=
      fun entry hentry => IndicatorSpec.series_length (mem_seriesTable htable hentry)
    obtain ⟨values₁, long, entries, he₁, hkeeps₁, hentries, hlong, hholds⟩ :=
      compileConditionGroup_evaluated hnd hnames hlengths hindicated.sound he₀
        (fun hlabel => absurd hlabel (by decide)) hentry
    obtain ⟨values₂, close, exits, he₂, hkeeps₂, hexits, hclose, hholds'⟩ :=
      compileConditionGroup_evaluated hnd hnames hlengths hext₁.sound he₁ (fun _ => hbars) hexit
    obtain ⟨values₃, short, he₃, hkeeps₃, hshort, hsilent⟩ :=
      alwaysFalseNode_evaluated hext₂.sound he₂ hentry₂ (hlong.keep hkeeps₂)
    refine .inl ⟨values₃, he₃.run, ⟨table, entries, exits, long, short, close, htable, hentries,
      hexits, ?_, hholds, hclose.keep hkeeps₃, hholds', hshort, hsilent⟩, rfl⟩
    exact (hlong.keep hkeeps₂).keep hkeeps₃
  · exact .inr ⟨hnone, e, runNodes_error (hext₁.nodes.trans (hext₂.nodes.trans hext₃.nodes)) hrun⟩

/-! ## Answers -/

theorem answersOf_silent {times : List Time} {long short close : List Bool} {entry exit : ℕ → Bool}
    (hlong : ∀ bar, signalAt (some long) bar = entry bar)
    (hclose : ∀ bar, signalAt (some close) bar = exit bar) (hshort : Silent short) :
    answersOf (F := F) none times long short (some close) (some short) =
      { entries := fun symbol bar => enterOn symbol (entry bar) false one
        exits := fun symbol bar openTrades =>
          openTrades.filterMap (sideExit symbol (exit bar) false) } := by
  obtain rfl : (fun bar => signalAt (some long) bar) = entry := funext hlong
  obtain rfl : (fun bar => signalAt (some close) bar) = exit := funext hclose
  refine congrArg₂ Answers.mk ?_ ?_
  · funext symbol bar
    rw [hshort]
  · funext symbol bar openTrades
    show List.filterMap (sideExit symbol _ (signalAt (some short) bar)) openTrades = _
    rw [hshort]

theorem SignalsMean.answersFrom {values : Values F} (h : SignalsMean spec genome frame values)
    (hexits : PlainExits genome) :
    (answersFrom genome trial frame.times values).toOption = specAnswers spec frame := by
  obtain ⟨table, entry, exit, long, short, close, htable, hentry, hexit, hlong, hholds, hclose,
    hcloses, hshort, hsilent⟩ := h.means
  have hexitLong : readSource values (some (parseInputRef (genome.exitRef .long))) =
      .ok (some close) := readSource_flags hclose.reads
  have hexitShort : readSource values (some (parseInputRef (genome.exitRef .short))) =
      .ok (some short) := by
    show readSource values (some (parseInputRef genome.exitShort)) = _
    rw [h.short]
    exact readSource_flags hshort.reads
  have hspec : specAnswers spec frame = some
      { entries := fun symbol bar => enterOn symbol (spec.entry.holds entry bar) false one
        exits := fun symbol bar openTrades =>
          openTrades.filterMap (sideExit symbol (spec.exit.holds exit bar) false) } := by
    unfold specAnswers
    simp only [htable, hentry, hexit, Option.bind_eq_bind, Option.bind_some]
    rfl
  unfold RegisteredStrategies.answersFrom
  rw [hlong.reads, hshort.reads, hexits.exitSource, hexits.exitSource, hexitLong, hexitShort,
    hexits.heldFor, hspec, ← answersOf_silent hholds hcloses hsilent]
  simp only [ok_bind, signals_flags]
  rfl

theorem SignalsMean.plainExits {values : Values F} (h : SignalsMean spec genome frame values)
    (hnd : genome.ids.Nodup) {m n : ℕ} (hlong : Refers genome.nodes signalTypes genome.exitLong m)
    (hshort : Refers genome.nodes signalTypes genome.exitShort n) : PlainExits genome := by
  obtain ⟨_, _, _, _, _, _, -, -, -, -, -, hclose, -, hsilent, -⟩ := h.means
  intro side
  cases side with
  | long =>
    obtain ⟨k, hk⟩ := hclose.name
    exact signal_node hnd hlong hk
  | short =>
    obtain ⟨k, hk⟩ := hsilent.name
    exact signal_node hnd hshort (h.short.trans hk)

theorem specAnswers_none (h : seriesTable frame spec.indicators = none) :
    specAnswers spec frame = none := by
  unfold specAnswers
  rw [h]
  rfl

/-- A genome that is built and accepted says of a frame what the spec says; where that is
something, its exits are plain. -/
theorem genomeAnswers_of_built (hnd : (spec.indicators.map IndicatorSpec.id).Nodup)
    (hbars : comparisonConditions spec.exit = [] →
      ∀ row ∈ frame.rows, lt row.high row.close = false)
    (hs : buildGenome spec = .ok (genome, params)) (haccepted : Accepted F genome) :
    (genomeAnswers genome trial frame latents).toOption = specAnswers spec frame ∧
      (PlainExits genome ∨ specAnswers spec frame = none) := by
  obtain ⟨hassembled, -, ⟨_, hlong⟩, _, hshort⟩ := buildGenome_sound (F := F) hnd hs
  have horder : (evaluateGenome genome trial frame latents).toOption =
      (runNodes trial frame latents genome.nodes).toOption :=
    evaluateGenome_in_order haccepted (inputsFirst_of_assembled hassembled)
  obtain ⟨values, hvalues, hmean⟩ | ⟨hnone, e, he⟩ := buildGenome_evaluated hnd hbars hs
  · rw [hvalues] at horder
    have hexits := hmean.plainExits haccepted.nodup hlong hshort
    refine ⟨?_, .inl hexits⟩
    unfold genomeAnswers
    rw [toOption_eq_some.mp horder, ok_bind]
    exact hmean.answersFrom hexits
  · rw [he] at horder
    have hspec := specAnswers_none hnone
    refine ⟨?_, .inr hspec⟩
    rw [hspec]
    unfold genomeAnswers
    cases hrun : evaluateGenome genome trial frame latents with
    | error e => rfl
    | ok values =>
      rw [hrun] at horder
      cases horder

end Lowered

section Compiled

variable {known : List String} {spec : StrategySpec} {compiled : CompiledStrategy}

theorem buildCompiled_ok {strategyName strategyLabel entrySummary exitSummary : String}
    {params : List (String × Value)} {genome : Genome}
    (h : buildCompiled spec strategyName strategyLabel params genome entrySummary exitSummary =
      .ok compiled) : compiled.genome = genome ∧ compiled.strategyName = strategyName := by
  unfold buildCompiled at h
  obtain ⟨_, -, h⟩ := bind_eq_ok.mp h
  obtain rfl := pure_eq_ok.mp h
  exact ⟨rfl, rfl⟩

theorem registered_name (hr : tryCompileRegistryStrategy F spec = some (.ok compiled)) :
    compiled.strategyName ≠ "CompositeStrategy" := by
  unfold tryCompileRegistryStrategy at hr
  split_ifs at hr
  cases hma : matchMaCrossover spec with
  | some pair =>
    simp only [hma, Option.some.injEq] at hr
    unfold compileMaCrossover at hr
    rw [(buildCompiled_ok hr).2]
    decide
  | none =>
    cases hrsi : matchRsiMeanReversion spec with
    | none => simp [hma, hrsi] at hr
    | some found =>
      simp only [hma, hrsi, Option.some.injEq] at hr
      unfold compileRsiMeanReversion at hr
      obtain ⟨low, -, hr⟩ := bind_eq_ok.mp hr
      obtain ⟨high, -, hr⟩ := bind_eq_ok.mp hr
      rw [(buildCompiled_ok hr).2]
      decide

theorem valid_of_requireValid (h : requireValid known spec = .ok ()) : Valid known spec := by
  unfold requireValid at h
  split at h
  next => cases h
  next hsemantics => exact hsemantics
  next => cases h

theorem compileStrategySpec_composite (h : compileStrategySpec F known spec = .ok compiled)
    (hname : compiled.strategyName = "CompositeStrategy") :
    Valid known spec ∧ ∃ params, buildGenome spec = .ok (compiled.genome, params) ∧
      Accepted F compiled.genome := by
  unfold compileStrategySpec at h
  obtain ⟨_, hvalid, h⟩ := bind_eq_ok.mp h
  refine ⟨valid_of_requireValid hvalid, ?_⟩
  cases hregistry : tryCompileRegistryStrategy F spec with
  | some registered =>
    simp only [hregistry] at h
    subst h
    exact absurd hname (registered_name hregistry)
  | none =>
    simp only [hregistry] at h
    unfold compileCompositeStrategy at h
    obtain ⟨⟨genome, params⟩, hbuild, h⟩ := bind_eq_ok.mp h
    cases hcheck : validateGenome F genome defaultMaxDepth defaultMaxNodeCount with
    | error e => simp [hcheck] at h
    | ok _ =>
      simp only [hcheck] at h
      obtain ⟨rfl, -⟩ := buildCompiled_ok h
      exact ⟨params, hbuild, hcheck⟩

/-- A spec that is compiled to a composite strategy is answered as it says: what the genome, its
plan, the series cache and the columns give on a frame are the answers of the spec, and nothing is
answered just where an indicator of the spec is not computed. -/
theorem lowered_spec_meaning (h : compileStrategySpec F known spec = .ok compiled)
    (hname : compiled.strategyName = "CompositeStrategy")
    (hports : PortsSeparated compiled.genome (compiled.composite F).trial) (frame : Frame F)
    (hbars : comparisonConditions spec.exit = [] →
      ∀ row ∈ frame.rows, lt row.high row.close = false) :
    (compositeAnswers (compiled.composite F) frame).toOption = specAnswers spec frame := by
  obtain ⟨hvalid, params, hbuild, haccepted⟩ := compileStrategySpec_composite h hname
  have hnd := hvalid.validIndicators.nodup
  obtain ⟨-, hnames, -⟩ := buildGenome_sound (F := F) hnd hbuild
  have hseparated : Separated (compiled.composite F).genome (compiled.composite F).trial :=
    ⟨hports, columnsSeparated_of_names hnames⟩
  obtain ⟨hanswers, hexits⟩ : (genomeAnswers compiled.genome (compiled.composite F).trial frame
      (latentsOf (compiled.composite F) frame)).toOption = specAnswers spec frame ∧ _ :=
    genomeAnswers_of_built hnd hbars hbuild haccepted
  have hplanEq : (compiled.composite F).plan =
      compilePlan compiled.genome (compiled.composite F).trial :=
    haccepted.plan_eq
  cases hplan : (compiled.composite F).plan with
  | ok plan =>
    rw [compositeAnswers_of_plan hplan hseparated]
    exact hanswers
  | error e =>
    -- a genome with plain exits has a plan
    have hnone : specAnswers spec frame = none := by
      refine hexits.resolve_left fun hplain => ?_
      obtain ⟨plan, hcompiled⟩ : Succeeds
          (compilePlan compiled.genome (compiled.composite F).trial) :=
        haccepted.compilePlan_succeeds.mpr hplain.holdingKnown
      rw [hplan] at hplanEq
      cases hplanEq.trans hcompiled
    rw [hnone]
    unfold compositeAnswers
    rw [hplan]
    rfl

end Compiled

/-! ## Runs -/

section Runs

/-- A bar of the given day with a range of one around its close. -/
def dayRow (day : ℕ) (close : ℚ) : Row (Option ℚ) where
  time := 86400000000 * (day : ℤ)
  opn := some close
  high := some (close + 1)
  low := some (close - 1)
  close := some close
  volume := some 10
  exog _ := none

/-- Ten bars at ten, a step down and a last bar. -/
def steppedFrame (last : ℚ) : Frame (Option ℚ) where
  rows := (List.range 12).map fun day =>
    dayRow day (if day < 10 then 10 else if day = 10 then 9 else last)
  spaced := by
    refine List.pairwise_map.mpr (List.pairwise_lt_range.imp fun {a b} hlt => ?_)
    show 86400000000 * (a : ℤ) + minute ≤ 86400000000 * (b : ℤ)
    unfold minute
    omega
  opens := by
    intro r hr
    obtain ⟨day, -, rfl⟩ := List.mem_map.mp hr
    rfl

theorem averageSpec_meaning :
    ∃ compiled, compileStrategySpec (Option ℚ) ["PETR4"] averageSpec = .ok compiled ∧
      compiled.strategyName = "CompositeStrategy" ∧
      ((compositeAnswers (compiled.composite (Option ℚ)) (steppedFrame 12)).toOption =
        specAnswers averageSpec (steppedFrame 12)) ∧
      ((specAnswers averageSpec (steppedFrame 12)).map fun answers =>
        (List.range 12).map fun bar => (answers.entries "PETR4" bar).length) =
          some [0, 0, 0, 0, 0, 0, 0, 0, 0, 0, 0, 1] := by
  obtain ⟨compiled, hcompiled⟩ := exists_ok_of_isSome
    (x := compileStrategySpec (Option ℚ) ["PETR4"] averageSpec) (by decide +kernel)
  have hall : ∀ c ∈ (compileStrategySpec (Option ℚ) ["PETR4"] averageSpec).toOption,
      c.strategyName = "CompositeStrategy" ∧
        PortsSeparated c.genome (c.composite (Option ℚ)).trial := by
    decide +kernel
  obtain ⟨hname, hports⟩ := hall compiled (by rw [hcompiled]; rfl)
  have hbars : ∀ row ∈ (steppedFrame 12).rows, lt row.high row.close = false := by
    decide +kernel
  exact ⟨compiled, hcompiled, hname,
    lowered_spec_meaning hcompiled hname hports (steppedFrame 12) fun _ => hbars,
    by decide +kernel⟩

end Runs

end QBackend.StrategyBuilder
