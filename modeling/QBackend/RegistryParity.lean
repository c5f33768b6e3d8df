import QBackend.GenomeMeaning
import QBackend.SeededPopulation

/-!
# Registered strategies and their genomes

A class of the registry and the genome that `registry_fixtures.py` has for it give the same answers:
the class from its own whole columns, the genome node by node through the compiler, the columns and
the series cache.
-/

namespace QBackend.RegisteredStrategies

open GenomeDsl CausalSeries PriceFloat FallibleSteps MemoRuns
open Execution (Time Trade Signal ExecutionSide)
open StrategyBuilder (maCrossoverGenome rsiMeanReversionGenome)

variable {F : Type} [PriceFloat F]

def RegisteredStrategy.answers (s : RegisteredStrategy) (frame : Frame F) :
    Except Failure (Answers F) := do
  let columns ← s.computeIndicators frame
  pure ⟨s.checkEntryConditions columns, s.checkExitConditions columns frame.times⟩

/-! ## Parameters -/

def maTypeName : MaType → String
  | .sma => "sma"
  | .ema => "ema"
  | .wma => "wma"
  | .smma => "smma"
  | .hma => "hma"

/-- The parameters that the strategy is built from. -/
def RegisteredStrategy.params : RegisteredStrategy → List (String × Value)
  | .maCrossover s =>
    [("short_period", .int s.shortPeriod), ("long_period", .int s.longPeriod),
      ("short_ma_type", .str (maTypeName s.shortMaType)),
      ("long_ma_type", .str (maTypeName s.longMaType)), ("threshold", .float s.threshold)]
  | .rsiMeanReversion s =>
    [("period", .int s.period), ("oversold", .float s.oversold),
      ("overbought", .float s.overbought)]
  | .bollingerReversion s => [("period", .int s.period), ("num_std", .float s.numStd)]
  | .donchianBreakout s => [("period", .int s.period)]
  | .macd s =>
    [("fast_period", .int s.fastPeriod), ("slow_period", .int s.slowPeriod),
      ("signal_period", .int s.signalPeriod)]
  | .trb s =>
    [("period", .int s.period), ("band_pct", .float s.bandPct),
      ("holding_period", .int s.holdingPeriod)]
  | .fma s =>
    [("period", .int s.period), ("band_pct", .float s.bandPct),
      ("ma_type", .str (maTypeName s.maType)), ("holding_period", .int s.holdingPeriod)]
  | .vma s =>
    [("period", .int s.period), ("band_pct", .float s.bandPct),
      ("ma_type", .str (maTypeName s.maType))]
  | .tsmom s =>
    [("lookback_bars", .int s.lookbackBars), ("rebalance_bars", .int s.rebalanceBars),
      ("vol_window", .int s.volWindow), ("vol_estimator", .str s.volEstimator.value)] ++
    (match s.tradingRule with
    | .sign => [("trading_rule", .str "sign")]
    | .trend signalCap nwLags => [("trading_rule", .str "trend"),
        ("trend_signal_cap", .float signalCap), ("nw_lags", .int nwLags)]) ++
    [("rebalance_on_every_bar", .str (if s.rebalanceOnEveryBar then "true" else "false"))]
  | .hurstTrendBlend s =>
    [("lookback_1", .int s.lookback₁), ("lookback_2", .int s.lookback₂),
      ("lookback_3", .int s.lookback₃), ("rebalance_bars", .int s.rebalanceBars),
      ("vol_window", .int s.volWindow), ("vol_estimator", .str s.volEstimator.value),
      ("risk_free_rate_annual", .float s.riskFreeRateAnnual),
      ("signal_lag_bars", .int s.signalLagBars),
      ("rebalance_on_every_bar", .str (if s.rebalanceOnEveryBar then "true" else "false"))]
  | .gatevPairs s =>
    [("col_a", .str s.colA), ("col_b", .str s.colB), ("open_col_a", .str s.openColA),
      ("open_col_b", .str s.openColB), ("formation_bars", .int s.formationBars),
      ("trading_bars", .int s.tradingBars), ("open_threshold_sd", .float s.openThresholdSd),
      ("vol_window", .int s.volWindow), ("vol_estimator", .str "close_to_close")]

/-- The parameters as those of a trial. -/
def RegisteredStrategy.trial (s : RegisteredStrategy) : TrialParams := fun key =>
  s.params.lookup key

/-- The genome with the parameters of the strategy. -/
def fixtureStrategy (F : Type) [PriceFloat F] (genome : Genome) (s : RegisteredStrategy) :
    Strategy F where
  genome := genome
  trial := s.trial

/-! ## Reading values -/

theorem getKey_resolved {trial : TrialParams} {node : GenomeNode}
    (hkind : node.kind ≠ .transformShift) (key : String) :
    getKey (resolveNodeParams trial node) key =
      ((node.params.lookup key).map (resolveParam trial)).elim (.error (.keyError key)) .ok := by
  unfold getKey
  rw [lookup_resolveNodeParams hkind]
  cases node.params.lookup key with
  | none => rfl
  | some value => rfl

theorem normalizeMaType_name (maType : MaType) :
    normalizeMaType (maTypeName maType) = .ok maType := by
  cases maType <;> decide +kernel

theorem readSource_flags {values : Values F} {port : String × String} {bs : List Bool}
    (h : readPort values port = .ok (flags bs)) :
    readSource values (some port) = .ok (some bs) := by
  unfold readSource
  simp only [h, Except.map, signals_flags]

/-! ## Comparisons -/

omit [PriceFloat F] in
theorem both_comm (as bs : List Bool) : both as bs = both bs as := by
  unfold both
  rw [List.zipWith_comm]
  simp only [Bool.and_comm]

theorem crossing_eq (now before : F → F → Bool) (xs ys : List F) :
    crossing now before xs ys = crosses before now xs ys (previous xs) (previous ys) :=
  both_comm _ _

omit [PriceFloat F] in
theorem zipWith_against (now before : F → F → Bool) (level : F) (xs ys : List F) :
    List.zipWith (fun x y => now x level && before y level) xs ys =
      both (against now level xs) (against before level ys) := by
  unfold both against
  rw [List.zipWith_map]

/-! ## Answers from flags -/

section Flags

variable {genome : Genome} {trial : TrialParams} {times : List Time} {values : Values F}
  {columns : Outputs F} {long short : String} {buy sell exitLong exitShort : List Bool}

theorem compositeEntries_flags (hbuy : columns.lookup "buy_signal" = some (flags buy))
    (hsell : columns.lookup "sell_signal" = some (flags sell)) :
    (fun symbol bar => enterOn symbol (signalAt (some buy) bar) (signalAt (some sell) bar) one) =
      buySellEntries columns := by
  funext symbol bar
  unfold buySellEntries
  rw [flagAt_eq hbuy, flagAt_eq hsell]

/-- A genome whose signals are the flags of the columns. -/
theorem answersFrom_flags (hheld : heldFor genome trial = none)
    (hentryLong : readPort values (parseInputRef genome.entryLong) = .ok (flags buy))
    (hentryShort : readPort values (parseInputRef genome.entryShort) = .ok (flags sell))
    (hexitLong : readSource values (exitSource genome .long) = .ok (some exitLong))
    (hexitShort : readSource values (exitSource genome .short) = .ok (some exitShort))
    (hbuy : columns.lookup "buy_signal" = some (flags buy))
    (hsell : columns.lookup "sell_signal" = some (flags sell))
    (hlong : columns.lookup long = some (flags exitLong))
    (hshort : columns.lookup short = some (flags exitShort)) :
    answersFrom genome trial times values =
      .ok ⟨buySellEntries columns, flagExits columns long short⟩ := by
  unfold answersFrom
  rw [hentryLong, hentryShort, hexitLong, hexitShort, hheld]
  simp only [ok_bind, signals_flags]
  refine congrArg Except.ok (congrArg₂ Answers.mk (compositeEntries_flags hbuy hsell) ?_)
  funext symbol bar openTrades
  unfold flagExits
  rw [flagAt_eq hlong, flagAt_eq hshort]

theorem answersFrom_held {holdingPeriod : ℤ} (hheld : heldFor genome trial = some holdingPeriod)
    (hentryLong : readPort values (parseInputRef genome.entryLong) = .ok (flags buy))
    (hentryShort : readPort values (parseInputRef genome.entryShort) = .ok (flags sell))
    (hexitLong : exitSource genome .long = none) (hexitShort : exitSource genome .short = none)
    (hbuy : columns.lookup "buy_signal" = some (flags buy))
    (hsell : columns.lookup "sell_signal" = some (flags sell)) :
    answersFrom genome trial times values = .ok ⟨buySellEntries columns,
      fun symbol => fixedHoldingPeriodExits times symbol holdingPeriod⟩ := by
  unfold answersFrom
  rw [hentryLong, hentryShort, hexitLong, hexitShort, hheld]
  simp only [ok_bind, signals_flags, readSource]
  exact congrArg Except.ok (congrArg₂ Answers.mk (compositeEntries_flags hbuy hsell) rfl)

end Flags

/-! ## The genomes, one by one -/

/-- The genome answers as the class does, exceptions included. -/
def AnswersAs (genome : Genome) (s : RegisteredStrategy) (frame : Frame F) : Prop :=
  genomeAnswers genome s.trial frame none = s.answers frame

theorem fixtureRefs :
    parseInputRef "n1" = ("n1", "out") ∧
      parseInputRef "n2" = ("n2", "out") ∧
      parseInputRef "n2:bb_lower" = ("n2", "bb_lower") ∧
      parseInputRef "n2:bb_middle" = ("n2", "bb_middle") ∧
      parseInputRef "n2:bb_upper" = ("n2", "bb_upper") ∧
      parseInputRef "n2:channel_high" = ("n2", "channel_high") ∧
      parseInputRef "n2:channel_low" = ("n2", "channel_low") ∧
      parseInputRef "n2:donchian_lower" = ("n2", "donchian_lower") ∧
      parseInputRef "n2:donchian_upper" = ("n2", "donchian_upper") ∧
      parseInputRef "n2:macd" = ("n2", "macd") ∧
      parseInputRef "n2:macd_signal" = ("n2", "macd_signal") ∧
      parseInputRef "n2:trb_lower" = ("n2", "trb_lower") ∧
      parseInputRef "n2:trb_upper" = ("n2", "trb_upper") ∧
      parseInputRef "n3" = ("n3", "out") ∧
      parseInputRef "n3:ma_band_lower" = ("n3", "ma_band_lower") ∧
      parseInputRef "n3:ma_band_upper" = ("n3", "ma_band_upper") ∧
      parseInputRef "n4" = ("n4", "out") := by
  decide +kernel

-- one node after the other, from the parameters of the strategy
attribute [local simp] fixtureRefs evaluateInto readPort getKey_resolved resolveParam RegisteredStrategy.trial
  RegisteredStrategy.params List.lookup_cons ok_bind evaluateKind NodeKind.family evaluateIndicator
  evaluateBoolNode evaluateCross out series input Column.values intParam strParam floatParam
  Value.toInt Value.toStr Value.toFloat Value.negate normalizeMaType_name lookup_resolveNodeParams
  RegisteredStrategy.computeIndicators

theorem maCrossover_answers (s : MACrossover) (frame : Frame F) :
    AnswersAs maCrossoverGenome (.maCrossover s) frame := by
  unfold AnswersAs genomeAnswers evaluateGenome RegisteredStrategy.answers
  generalize hanswers : answersFrom (F := F) maCrossoverGenome _ frame.times = answers
  rw [show maCrossoverGenome.sortedNodes = maCrossoverGenome.nodes from rfl]
  simp [maCrossoverGenome, MACrossover.computeIndicators]
  cases computeMa (frame.column Row.close) s.shortPeriod s.shortMaType with
  | error e => rfl
  | ok maShort =>
    cases computeMa (frame.column Row.close) s.longPeriod s.longMaType with
    | error e => rfl
    | ok maLong =>
      simp only [ok_bind, ok_map, ← hanswers]
      refine answersFrom_flags rfl rfl rfl (readSource_flags rfl) (readSource_flags rfl) ?_ ?_ ?_ ?_
      all_goals simp only [zipWith_against]; rfl

theorem rsiMeanReversion_answers (s : RSIMeanReversion) (frame : Frame F) :
    AnswersAs rsiMeanReversionGenome (.rsiMeanReversion s) frame := by
  unfold AnswersAs genomeAnswers evaluateGenome RegisteredStrategy.answers
  generalize hanswers : answersFrom (F := F) rsiMeanReversionGenome _ frame.times = answers
  rw [show rsiMeanReversionGenome.sortedNodes = rsiMeanReversionGenome.nodes from rfl]
  simp [rsiMeanReversionGenome, RSIMeanReversion.computeIndicators]
  cases computeRsi (frame.column Row.close) s.period with
  | error e => rfl
  | ok rsi =>
    simp only [ok_bind, ok_map, ← hanswers]
    refine answersFrom_flags rfl rfl rfl (readSource_flags rfl) (readSource_flags rfl) ?_ ?_ ?_ ?_
    all_goals simp only [zipWith_against, both_comm (against gt _ rsi)]; rfl

theorem bollingerReversion_answers (s : BollingerReversion) (frame : Frame F) :
    AnswersAs bollingerReversionGenome (.bollingerReversion s) frame := by
  unfold AnswersAs genomeAnswers evaluateGenome RegisteredStrategy.answers
  generalize hanswers : answersFrom (F := F) bollingerReversionGenome _ frame.times = answers
  rw [show bollingerReversionGenome.sortedNodes = bollingerReversionGenome.nodes from rfl]
  simp [bollingerReversionGenome, evaluateTouch, evaluateMiddleBand,
    BollingerReversion.computeIndicators]
  cases computeBollingerBands (frame.column Row.close) s.period (ofRat s.numStd) with
  | error e => rfl
  | ok bands =>
    simp only [ok_bind, ok_map, ← hanswers]
    refine answersFrom_flags rfl rfl rfl (readSource_flags rfl) (readSource_flags rfl) ?_ ?_ ?_ ?_
    all_goals simp only [crossing_eq]; rfl

theorem donchianBreakout_answers (s : DonchianBreakout) (frame : Frame F) :
    AnswersAs donchianBreakoutGenome (.donchianBreakout s) frame := by
  unfold AnswersAs genomeAnswers evaluateGenome RegisteredStrategy.answers
  generalize hanswers : answersFrom (F := F) donchianBreakoutGenome _ frame.times = answers
  rw [show donchianBreakoutGenome.sortedNodes = donchianBreakoutGenome.nodes from rfl]
  simp [donchianBreakoutGenome, DonchianBreakout.computeIndicators]
  cases computeDonchianChannels (frame.column Row.high) (frame.column Row.low) s.period with
  | error e => rfl
  | ok channel =>
    simp only [ok_bind, ok_map, ← hanswers]
    refine answersFrom_flags rfl rfl rfl (readSource_flags rfl) (readSource_flags rfl) ?_ ?_ ?_ ?_
    all_goals simp only [crossing_eq]; rfl

theorem macd_answers (s : MACD) (frame : Frame F) :
    AnswersAs macdGenome (.macd s) frame := by
  unfold AnswersAs genomeAnswers evaluateGenome RegisteredStrategy.answers
  generalize hanswers : answersFrom (F := F) macdGenome _ frame.times = answers
  rw [show macdGenome.sortedNodes = macdGenome.nodes from rfl]
  simp [macdGenome, MACD.computeIndicators]
  cases computeMacd (frame.column Row.close) s.fastPeriod s.slowPeriod s.signalPeriod with
  | error e => rfl
  | ok lines =>
    simp only [ok_bind, ok_map, ← hanswers]
    refine answersFrom_flags rfl rfl rfl (readSource_flags rfl) (readSource_flags rfl) ?_ ?_ ?_ ?_
    all_goals simp only [crossing_eq]; rfl

theorem trb_answers (s : TRB) (frame : Frame F) :
    AnswersAs trbGenome (.trb s) frame := by
  unfold AnswersAs genomeAnswers evaluateGenome RegisteredStrategy.answers
  generalize hanswers : answersFrom (F := F) trbGenome _ frame.times = answers
  rw [show trbGenome.sortedNodes = [0, 4, 1, 2, 3].filterMap fun i => trbGenome.nodes[i]? from rfl]
  simp [trbGenome, evaluateBreakout, computeTrbChannelSignals, TRB.computeIndicators]
  cases computeTrbChannel (frame.column Row.close) s.period (ofRat s.bandPct) with
  | error e => rfl
  | ok channel =>
    simp only [ok_bind, ok_map, ← hanswers]
    exact answersFrom_held rfl rfl rfl rfl rfl rfl rfl

theorem fma_answers (s : FMA) (frame : Frame F) :
    AnswersAs fmaGenome (.fma s) frame := by
  unfold AnswersAs genomeAnswers evaluateGenome RegisteredStrategy.answers
  generalize hanswers : answersFrom (F := F) fmaGenome _ frame.times = answers
  rw [show fmaGenome.sortedNodes =
    [0, 5, 1, 2, 3, 4].filterMap fun i => fmaGenome.nodes[i]? from rfl]
  simp [fmaGenome, FMA.computeIndicators]
  cases computeMa (frame.column Row.close) s.period s.maType with
  | error e => rfl
  | ok ma =>
    simp only [ok_bind, ok_map, ← hanswers]
    refine answersFrom_held rfl rfl rfl rfl rfl ?_ ?_
    all_goals simp only [crossing_eq]; rfl

/-! ## Changes of sign -/

theorem tsmomStep_scan (rebalanceBars : ℤ) (bar : ℕ) (held : F) (momentum : List F) :
    scan (tsmomStep rebalanceBars) (bar, held) momentum =
      List.zip
        (signChange (fun m => lt (ofRat 0) m) (fun p => le p (ofRat 0))
          ((List.range' bar momentum.length).map (isRebalance rebalanceBars)) momentum
          (scan (holdStep (ofRat 0)) held
            (List.zip ((List.range' bar momentum.length).map (isRebalance rebalanceBars))
              ((momentum.map signOrNaN).map fillZero))))
        (signChange (fun m => lt m (ofRat 0)) (fun p => le (ofRat 0) p)
          ((List.range' bar momentum.length).map (isRebalance rebalanceBars)) momentum
          (scan (holdStep (ofRat 0)) held
            (List.zip ((List.range' bar momentum.length).map (isRebalance rebalanceBars))
              ((momentum.map signOrNaN).map fillZero)))) := by
  induction momentum generalizing bar held with
  | nil => rfl
  | cons m momentum ih =>
    simp only [List.length_cons, List.range'_succ, List.map_cons, List.zip_cons_cons, scan,
      signChange, List.zipWith_cons_cons] at ih ⊢
    rw [tsmomStep, ih]
    cases hrebalance : isRebalance rebalanceBars bar with
    | true => simp [holdStep, fillZero]
    | false => simp [holdStep]

theorem signChange_known {side opposite : F → Bool} {rebalance : List Bool}
    {momentum prevSign : List F} {bar : ℕ}
    (h : (signChange side opposite rebalance momentum prevSign)[bar]? = some true) :
    ∃ m, momentum[bar]? = some m ∧ isNaN m = false := by
  obtain ⟨rebalanced, row, -, hrow, hflag⟩ := List.getElem?_zipWith_eq_some.mp h
  obtain ⟨hmomentum, -⟩ := List.getElem?_zip_eq_some.mp hrow
  refine ⟨row.1, hmomentum, ?_⟩
  simp only [Bool.and_eq_true, Bool.not_eq_true'] at hflag
  exact hflag.2

theorem signalAt_signChange {side opposite : F → Bool} {rebalance : List Bool}
    {momentum prevSign : List F} {bar : ℕ} (hnan : isNaN (momentum[bar]?.getD nan) = true) :
    signalAt (some (signChange side opposite rebalance momentum prevSign)) bar = false := by
  by_contra hflag
  have hsome : (signChange side opposite rebalance momentum prevSign)[bar]? = some true := by
    unfold signalAt at hflag
    rw [Option.bind_some, Bool.not_eq_false] at hflag
    cases hat : (signChange side opposite rebalance momentum prevSign)[bar]? with
    | none => simp [hat] at hflag
    | some b => simpa [hat] using hflag
  obtain ⟨m, hm, hknown⟩ := signChange_known hsome
  rw [hm, Option.getD_some, hknown] at hnan
  cases hnan

theorem momentumEntries_signs {columns : Outputs F} {side opposite side' opposite' : F → Bool}
    {rebalance : List Bool} {momentum prevSign : List F} {n : ℕ}
    (hmomentum : columns.lookup "momentum" = some (.numbers momentum))
    (hstrength : columns.lookup "signal_strength" = some (.numbers (List.replicate n one)))
    (hbuy : columns.lookup "buy_signal" =
      some (flags (signChange side opposite rebalance momentum prevSign)))
    (hsell : columns.lookup "sell_signal" =
      some (flags (signChange side' opposite' rebalance momentum prevSign))) :
    momentumEntries false columns = buySellEntries columns := by
  funext symbol bar
  have hone : numberAt columns "signal_strength" one bar = one := by
    unfold numberAt
    rw [hstrength]
    simp only [Option.map_some, Option.bind_some, Column.values,
      List.getElem?_replicate]
    split <;> rfl
  unfold momentumEntries buySellEntries
  simp only [hone, Bool.false_eq_true, if_false]
  split
  next hnan =>
    have hrow : isNaN (momentum[bar]?.getD nan) = true := by
      simpa only [numberAt, hmomentum, Option.map_some, Option.bind_some, Column.values] using hnan
    rw [flagAt_eq hbuy, flagAt_eq hsell, signalAt_signChange hrow, signalAt_signChange hrow]
    rfl
  next => rfl

theorem momentumExits_opposite (columns : Outputs F) :
    momentumExits false columns = flagExits columns "sell_signal" "buy_signal" := by
  funext symbol bar openTrades
  unfold momentumExits flagExits sideExit
  simp

theorem tsmomEntries_eq (hnan : isNaN (nan : F) = true) (s : TSMOM) (frame : Frame F)
    {momentum : List F} (hlength : frame.rows.length = momentum.length) :
    scan (tsmomStep s.rebalanceBars) (0, ofRat 0) momentum =
      List.zip
        (signChange (fun m => lt (ofRat 0) m) (fun p => le p (ofRat 0))
          (rebalanceMask s.rebalanceBars frame) momentum
          (prevRebalanceSign (rebalanceMask s.rebalanceBars frame) momentum))
        (signChange (fun m => lt m (ofRat 0)) (fun p => le (ofRat 0) p)
          (rebalanceMask s.rebalanceBars frame) momentum
          (prevRebalanceSign (rebalanceMask s.rebalanceBars frame) momentum)) := by
  have hmask : (List.range' 0 momentum.length).map (isRebalance s.rebalanceBars) =
      rebalanceMask s.rebalanceBars frame := by
    rw [rebalanceMask, List.range_eq_range', hlength]
  have hzero : fillZero (nan : F) = ofRat 0 := by rw [fillZero, hnan, if_pos rfl]
  have hprev : prevRebalanceSign (rebalanceMask s.rebalanceBars frame) momentum =
      scan (holdStep (ofRat 0)) (ofRat 0)
        (List.zip (rebalanceMask s.rebalanceBars frame)
          ((momentum.map signOrNaN).map fillZero)) := by
    rw [prevRebalanceSign_eq (by simp [rebalanceMask, hlength]), hzero]
  rw [tsmomStep_scan, hmask, ← hprev]

omit [PriceFloat F] in
theorem flags_fst {buy sell : List Bool} (hlength : buy.length = sell.length) :
    Column.bools (F := F) ((List.zip buy sell).map fun e => some e.1) = flags buy := by
  rw [flags, show (fun e : Bool × Bool => some e.1) = some ∘ Prod.fst from rfl, ← List.map_map,
    List.map_fst_zip hlength.le]

omit [PriceFloat F] in
theorem flags_snd {buy sell : List Bool} (hlength : buy.length = sell.length) :
    Column.bools (F := F) ((List.zip buy sell).map fun e => some e.2) = flags sell := by
  rw [flags, show (fun e : Bool × Bool => some e.2) = some ∘ Prod.snd from rfl, ← List.map_map,
    List.map_snd_zip hlength.ge]

theorem length_signChange (side opposite : F → Bool) (rebalance : List Bool)
    (momentum prevSign : List F) :
    (signChange side opposite rebalance momentum prevSign).length =
      min rebalance.length (min momentum.length prevSign.length) := by
  simp [signChange]

theorem tsmom_answers (hnan : isNaN (nan : F) = true) (s : TSMOM) (hrule : s.tradingRule = .sign)
    (hchange : s.rebalanceOnEveryBar = false) (frame : Frame F) :
    AnswersAs tsmomGenome (.tsmom s) frame := by
  have hlength : frame.rows.length =
      (relativeChange s.lookbackBars (frame.column Row.close)).length :=
    (length_relativeChange _ (length_column frame Row.close)).symm
  unfold AnswersAs genomeAnswers evaluateGenome RegisteredStrategy.answers
  generalize hanswers : answersFrom (F := F) tsmomGenome _ frame.times = answers
  rw [show tsmomGenome.sortedNodes = tsmomGenome.nodes from rfl]
  simp [tsmomGenome, evaluateTsmom, TSMOM.computeIndicators, hrule,
    tsmomEntries_eq hnan s frame hlength]
  generalize relativeChange s.lookbackBars (frame.column Row.close) = momentum
  cases estimateVolatility frame (frame.column Row.close) s.volEstimator.value s.volWindow with
  | error e => rfl
  | ok volatility =>
    simp only [ok_bind, ok_map, ← hanswers]
    show _ = Except.ok (Answers.mk (momentumEntries s.rebalanceOnEveryBar _)
      (momentumExits s.rebalanceOnEveryBar _))
    rw [hchange, momentumExits_opposite, momentumEntries_signs rfl rfl rfl rfl]
    have hsame := (length_signChange (fun m => lt (ofRat 0) m) (fun p => le p (ofRat 0))
      (rebalanceMask s.rebalanceBars frame) momentum
      (prevRebalanceSign (rebalanceMask s.rebalanceBars frame) momentum)).trans
      (length_signChange (fun m => lt m (ofRat 0)) (fun p => le (ofRat 0) p) _ _ _).symm
    have hbuy := congrArg (Except.ok (ε := Failure)) (flags_fst (F := F) hsame)
    have hsell := congrArg (Except.ok (ε := Failure)) (flags_snd (F := F) hsame)
    exact answersFrom_flags rfl hbuy hsell (readSource_flags hsell) (readSource_flags hbuy) rfl rfl
      rfl rfl

/-! ## Parity -/

theorem lookup_fixture {name : String} {genome : Genome}
    (h : registryFixtures.lookup name = some genome) : (name, genome) ∈ registryFixtures := by
  obtain ⟨before, after, hsplit, -⟩ := List.lookup_eq_some_iff.mp h
  rw [hsplit]
  exact List.mem_append_right _ List.mem_cons_self

theorem fixture_accepted {fixture : String × Genome} (h : fixture ∈ registryFixtures) :
    Accepted F fixture.2 :=
  have hfits : fixture.2.Fits ⟨defaultMaxNodeCount, defaultMaxDepth⟩ :=
    fixture_fits h (by decide) (by decide)
  fixture_valid h hfits

theorem fixtures_sameInputs : ∀ fixture ∈ registryFixtures, ∀ a ∈ fixture.2.nodes,
    ∀ b ∈ fixture.2.nodes, a.kind = b.kind → a.inputPorts = b.inputPorts := by
  decide +kernel

theorem fixtures_columnsSeparated : ∀ fixture ∈ registryFixtures, ColumnsSeparated fixture.2 := by
  decide +kernel

theorem portsSeparated_of_kinds {genome : Genome} {trial : TrialParams}
    (haccepted : Accepted F genome)
    (hkinds : ∀ a ∈ genome.nodes, ∀ b ∈ genome.nodes,
      a.kind = b.kind → a.inputPorts = b.inputPorts) :
    PortsSeparated genome trial := by
  have hkind : ∀ node ∈ genome.nodes, ∃ params inputs,
      cacheKeyOf genome trial node = some (.mk node.kind params inputs) := by
    intro node hnode
    obtain ⟨compiled, hcompiled⟩ :=
      haccepted.compileById trial (List.mem_map_of_mem hnode)
    obtain ⟨fuel, -, hfrom⟩ := compileById_spec hcompiled
    have hsame : node = compiled.node :=
      Option.some.inj ((node?_of_mem haccepted.nodup hnode).symm.trans hfrom.node)
    obtain ⟨parents, -, -, -, hkey⟩ := hfrom.inputs
    refine ⟨compiled.resolvedParams, parents.map CompiledNode.cacheKey, ?_⟩
    unfold cacheKeyOf
    rw [hcompiled, hsame, ← hkey]
    rfl
  intro a ha b hb hkeys
  obtain ⟨params, inputs, hkey⟩ := hkind a ha
  obtain ⟨params', inputs', hkey'⟩ := hkind b hb
  rw [hkey, hkey', Option.some.injEq, CacheKey.mk.injEq] at hkeys
  exact hkinds a ha b hb hkeys.1

theorem fixture_cases (P : RegisteredStrategy → Genome → Prop) {s : RegisteredStrategy}
    {genome : Genome} (h : registryFixtures.lookup s.name = some genome)
    (maCrossover : ∀ t, s = .maCrossover t → P (.maCrossover t) maCrossoverGenome)
    (rsiMeanReversion : ∀ t, s = .rsiMeanReversion t →
      P (.rsiMeanReversion t) rsiMeanReversionGenome)
    (bollingerReversion : ∀ t, s = .bollingerReversion t →
      P (.bollingerReversion t) bollingerReversionGenome)
    (donchianBreakout : ∀ t, s = .donchianBreakout t →
      P (.donchianBreakout t) donchianBreakoutGenome)
    (macd : ∀ t, s = .macd t → P (.macd t) macdGenome)
    (trb : ∀ t, s = .trb t → P (.trb t) trbGenome)
    (fma : ∀ t, s = .fma t → P (.fma t) fmaGenome)
    (tsmom : ∀ t, s = .tsmom t → P (.tsmom t) tsmomGenome) : P s genome := by
  cases s with
  | maCrossover t => exact Option.some.inj h ▸ maCrossover t rfl
  | rsiMeanReversion t => exact Option.some.inj h ▸ rsiMeanReversion t rfl
  | bollingerReversion t => exact Option.some.inj h ▸ bollingerReversion t rfl
  | donchianBreakout t => exact Option.some.inj h ▸ donchianBreakout t rfl
  | macd t => exact Option.some.inj h ▸ macd t rfl
  | trb t => exact Option.some.inj h ▸ trb t rfl
  | fma t => exact Option.some.inj h ▸ fma t rfl
  | tsmom t => exact Option.some.inj h ▸ tsmom t rfl
  | vma t => cases h
  | hurstTrendBlend t => cases h
  | gatevPairs t => cases h

theorem fixture_holdingKnown {s : RegisteredStrategy} {genome : Genome}
    (h : registryFixtures.lookup s.name = some genome) : HoldingKnown genome s.trial := by
  -- without a node that waits there is nothing to know
  have hnone : ∀ {genome : Genome} {trial : TrialParams}, genome.holdingNode = none →
      HoldingKnown genome trial := by
    intro genome trial hnode node hmem
    rw [hnode] at hmem
    cases hmem
  refine fixture_cases (fun s genome => HoldingKnown genome s.trial) h ?_ ?_ ?_ ?_ ?_ ?_ ?_ ?_
  · exact fun t _ => hnone rfl
  · exact fun t _ => hnone rfl
  · exact fun t _ => hnone rfl
  · exact fun t _ => hnone rfl
  · exact fun t _ => hnone rfl
  · intro t _ node hnode
    obtain rfl := Option.some.inj hnode
    exact ⟨t.holdingPeriod, rfl, trivial⟩
  · intro t _ node hnode
    obtain rfl := Option.some.inj hnode
    exact ⟨t.holdingPeriod, rfl, trivial⟩
  · exact fun t _ => hnone rfl

/-- A registered strategy that has a fixture and the composite strategy of the fixture with the same
parameters answer alike at every bar, exceptions included. The fixture of the momentum class trades
its sign and changes of it only. -/
theorem registry_parity (hnan : isNaN (nan : F) = true) (s : RegisteredStrategy) {genome : Genome}
    (hfixture : registryFixtures.lookup s.name = some genome)
    (hsign : ∀ t, s = .tsmom t → t.tradingRule = .sign ∧ t.rebalanceOnEveryBar = false)
    (frame : Frame F) :
    compositeAnswers (fixtureStrategy F genome s) frame = s.answers frame := by
  have hmem := lookup_fixture hfixture
  have haccepted : Accepted F genome := fixture_accepted hmem
  have hseparated : Separated genome s.trial :=
    ⟨portsSeparated_of_kinds haccepted (fixtures_sameInputs _ hmem),
      fixtures_columnsSeparated _ hmem⟩
  obtain ⟨plan, hcompiled⟩ := haccepted.compilePlan_succeeds.mpr (fixture_holdingKnown hfixture)
  have hplan : (fixtureStrategy F genome s).plan = .ok plan :=
    (show Accepted F (fixtureStrategy F genome s).genome from haccepted).plan_eq.trans hcompiled
  have hsame : AnswersAs genome s frame :=
    fixture_cases (fun s genome => AnswersAs genome s frame) hfixture
      (fun t _ => maCrossover_answers t frame) (fun t _ => rsiMeanReversion_answers t frame)
      (fun t _ => bollingerReversion_answers t frame)
      (fun t _ => donchianBreakout_answers t frame) (fun t _ => macd_answers t frame)
      (fun t _ => trb_answers t frame) (fun t _ => fma_answers t frame)
      fun t ht => tsmom_answers hnan t (hsign t ht).1 (hsign t ht).2 frame
  exact (compositeAnswers_of_plan hplan hseparated frame).trans hsame

/-- The sign of the return over one bar, set again at every bar. -/
def signOfReturn : RegisteredStrategy :=
  .tsmom ⟨1, 1, 2, .closeToClose, .sign, false⟩

theorem signOfReturn_parity :
    (signOfReturn.answers (closeFrame 3)).toOption.map (fun a => (a.entries "X" 1).length) =
        some 1 ∧
      compositeAnswers (fixtureStrategy (Option ℚ) tsmomGenome signOfReturn) (closeFrame 3) =
        signOfReturn.answers (closeFrame 3) := by
  refine ⟨by decide +kernel, registry_parity rfl signOfReturn rfl (fun t ht => ?_) (closeFrame 3)⟩
  cases ht
  exact ⟨rfl, rfl⟩

end QBackend.RegisteredStrategies
