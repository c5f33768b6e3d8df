import QBackend.RegisteredStrategies
import QBackend.CausalSignals
import QBackend.EvaluableNodes

/-!
# Registered strategies do not look ahead

The contract of `TradingStrategy`, class by class: the columns for the first rows of a frame are the
first rows of the columns, exceptions included, and what the checks say at a bar depends on nothing
after it.
-/

namespace QBackend.RegisteredStrategies

open GenomeDsl CausalSeries PriceFloat FallibleSteps
open Execution (Time Trade Signal ExecutionSide)

variable {F : Type} [PriceFloat F]

/-! ## Flags -/

section Flags

variable (n : ℕ)

theorem both_take (as bs : List Bool) : both (as.take n) (bs.take n) = (both as bs).take n :=
  zipWith_take _ n as bs

omit [PriceFloat F] in
theorem against_take (compare : F → F → Bool) (level : F) (xs : List F) :
    against compare level (xs.take n) = (against compare level xs).take n :=
  List.map_take

omit [PriceFloat F] in
theorem crosses_take (before now : F → F → Bool) (xs ys prevXs prevYs : List F) :
    crosses before now (xs.take n) (ys.take n) (prevXs.take n) (prevYs.take n) =
      (crosses before now xs ys prevXs prevYs).take n := by
  unfold crosses
  rw [zipWith_take, zipWith_take, both_take]

omit [PriceFloat F] in
theorem column_take_flags (bs : List Bool) :
    Column.take n (flags bs : Column F) = flags (bs.take n) :=
  congrArg Column.bools List.map_take.symm

theorem barIndex_take (frame : Frame F) : barIndex (frame.take n) = (barIndex frame).take n := by
  unfold barIndex
  simp only [Column.take, Frame.take, List.length_take, ← List.map_take, List.take_range]

theorem rebalanceMask_take (rebalanceBars : ℤ) (frame : Frame F) :
    rebalanceMask rebalanceBars (frame.take n) = (rebalanceMask rebalanceBars frame).take n := by
  unfold rebalanceMask
  simp only [Frame.take, List.length_take, ← List.map_take, List.take_range]

end Flags

/-! ## Momentum -/

section Momentum

variable (n : ℕ) {frame : Frame F}

theorem prevRebalanceSign_eq {rebalance : List Bool} {momentum : List F}
    (h : rebalance.length = momentum.length) :
    prevRebalanceSign rebalance momentum =
      scan (holdStep (ofRat 0)) (fillZero nan)
        (List.zip rebalance ((momentum.map signOrNaN).map fillZero)) :=
  scattered_previous (ofRat 0) (fillZero nan) nan fillZero rfl (by simpa using h)

theorem prevRebalanceSign_take {rebalance : List Bool} {momentum : List F}
    (h : rebalance.length = momentum.length) :
    prevRebalanceSign (rebalance.take n) (momentum.take n) =
      (prevRebalanceSign rebalance momentum).take n := by
  have hcut : (rebalance.take n).length = (momentum.take n).length := by
    rw [List.length_take, List.length_take, h]
  rw [prevRebalanceSign_eq h, prevRebalanceSign_eq hcut, List.map_take, List.map_take, zip_take]
  exact scan_causal _ _ n _

theorem signChange_take (side opposite : F → Bool) (rebalance : List Bool)
    (momentum prevSign : List F) :
    signChange side opposite (rebalance.take n) (momentum.take n) (prevSign.take n) =
      (signChange side opposite rebalance momentum prevSign).take n := by
  unfold signChange
  rw [zip_take, zipWith_take]

theorem momentumColumns_take (rebalanceBars : ℤ) {momentum : List F}
    (h : momentum.length = frame.rows.length) (strength volatility : List F) :
    momentumColumns rebalanceBars (frame.take n) (momentum.take n) (strength.take n)
        (volatility.take n) =
      takeOutputs n (momentumColumns rebalanceBars frame momentum strength volatility) := by
  have hmask : (rebalanceMask rebalanceBars frame).length = momentum.length := by
    rw [h, rebalanceMask, List.length_map, List.length_range]
  unfold momentumColumns
  simp only [rebalanceMask_take, prevRebalanceSign_take n hmask, signChange_take, barIndex_take,
    takeOutputs, List.map_cons, List.map_nil, column_take_flags]
  rfl

end Momentum

/-! ## Columns of the classes -/

section Classes

variable (n : ℕ) (frame : Frame F)

theorem MACrossover.cuts (s : MACrossover) :
    CutsOutputs n (s.computeIndicators frame) (s.computeIndicators (frame.take n)) := by
  unfold computeIndicators
  simp only [column_take]
  refine mapsTo_bind (computeMa_cuts n _ _ _) fun maShort => ?_
  refine mapsTo_bind (computeMa_cuts n _ _ _) fun maLong => mapsTo_pure ?_
  simp only [zipWith_take, previous_take, against_take, both_take, takeOutputs, List.map_cons,
    List.map_nil, column_take_flags]
  rfl

theorem RSIMeanReversion.cuts (s : RSIMeanReversion) :
    CutsOutputs n (s.computeIndicators frame) (s.computeIndicators (frame.take n)) := by
  unfold computeIndicators
  rw [column_take]
  refine mapsTo_bind (computeRsi_cuts n _ _) fun rsi => mapsTo_pure ?_
  simp only [previous_take, against_take, both_take, takeOutputs, List.map_cons, List.map_nil,
    column_take_flags]
  rfl

theorem BollingerReversion.cuts (s : BollingerReversion) :
    CutsOutputs n (s.computeIndicators frame) (s.computeIndicators (frame.take n)) := by
  unfold computeIndicators
  simp only [column_take]
  refine mapsTo_bind (computeBollingerBands_cuts n _ _ _) fun bands => mapsTo_pure ?_
  simp only [previous_take, crosses_take, takeOutputs, List.map_cons, List.map_nil,
    column_take_flags]
  rfl

theorem DonchianBreakout.cuts (s : DonchianBreakout) :
    CutsOutputs n (s.computeIndicators frame) (s.computeIndicators (frame.take n)) := by
  unfold computeIndicators
  simp only [column_take]
  refine mapsTo_bind (computeDonchianChannels_cuts n _ _ _) fun channel => mapsTo_pure ?_
  simp only [previous_take, crosses_take, takeOutputs, List.map_cons, List.map_nil,
    column_take_flags]
  rfl

theorem MACD.cuts (s : MACD) :
    CutsOutputs n (s.computeIndicators frame) (s.computeIndicators (frame.take n)) := by
  unfold computeIndicators
  simp only [column_take]
  refine mapsTo_bind (computeMacd_cuts n _ _ _ _) fun lines => mapsTo_pure ?_
  simp only [previous_take, crosses_take, takeOutputs, List.map_cons, List.map_nil,
    column_take_flags]
  rfl

theorem TRB.cuts (s : TRB) :
    CutsOutputs n (s.computeIndicators frame) (s.computeIndicators (frame.take n)) := by
  unfold computeIndicators computeTrbChannelSignals
  simp only [column_take, barIndex_take, bind_assoc]
  refine mapsTo_bind (computeTrbChannel_cuts n _ _ _) fun channel => mapsTo_pure ?_
  simp only [previous_take, crosses_take, takeOutputs, List.map_cons, List.map_nil,
    column_take_flags]
  rfl

theorem computeMaBandSignals_take (close ma : List F) (bandPct : ℚ) :
    computeMaBandSignals (close.take n) (ma.take n) bandPct =
      takeOutputs n (computeMaBandSignals close ma bandPct) := by
  unfold computeMaBandSignals
  simp only [List.map_take, previous_take, crosses_take, takeOutputs, List.map_cons, List.map_nil,
    column_take_flags]
  rfl

theorem FMA.cuts (s : FMA) :
    CutsOutputs n (s.computeIndicators frame) (s.computeIndicators (frame.take n)) := by
  unfold computeIndicators
  simp only [column_take, barIndex_take]
  refine mapsTo_bind (computeMa_cuts n _ _ _) fun ma => mapsTo_pure ?_
  rw [computeMaBandSignals_take]
  rfl

theorem VMA.cuts (s : VMA) :
    CutsOutputs n (s.computeIndicators frame) (s.computeIndicators (frame.take n)) := by
  unfold computeIndicators
  simp only [column_take]
  refine mapsTo_bind (computeMa_cuts n _ _ _) fun ma => mapsTo_pure ?_
  rw [computeMaBandSignals_take]
  rfl

theorem computeRollingNeweyWestTStat_cuts (returns : List F) (window lags : ℕ) :
    Cuts n (computeRollingNeweyWestTStat returns window lags)
      (computeRollingNeweyWestTStat (returns.take n) window lags) := by
  unfold computeRollingNeweyWestTStat
  exact mapsTo_ite mapsTo_error (mapsTo_ok (rolling_causal _ _ n returns))

theorem length_tStat {returns tStat : List F} {window lags : ℕ}
    (h : computeRollingNeweyWestTStat returns window lags = .ok tStat) :
    tStat.length = returns.length := by
  unfold computeRollingNeweyWestTStat at h
  split at h
  · cases h
  · cases h
    exact length_rolling _ _ returns

theorem length_logReturns (close : List F) : (logReturns close).length = close.length := by
  simp [logReturns, previous]

theorem TSMOM.cuts (s : TSMOM) :
    CutsOutputs n (s.computeIndicators frame) (s.computeIndicators (frame.take n)) := by
  unfold computeIndicators
  simp only [column_take]
  cases s.tradingRule with
  | sign =>
    refine mapsTo_bind (estimateVolatility_cuts n frame _ _ _) fun volatility => mapsTo_pure ?_
    rw [relativeChange_take (Int.natCast_nonneg _), List.map_take]
    refine momentumColumns_take n _ ?_ _ volatility
    exact length_relativeChange _ (length_column frame Row.close)
  | trend signalCap nwLags =>
    simp only [logReturns_take, List.map_take]
    refine mapsTo_bind_value (computeRollingNeweyWestTStat_cuts n _ _ _) fun tStat htStat => ?_
    refine mapsTo_bind (estimateVolatility_cuts n frame _ _ _) fun volatility => mapsTo_pure ?_
    have hlength : tStat.length = frame.rows.length := by
      rw [length_tStat htStat, List.length_map, length_logReturns, length_column]
    rw [List.map_take, momentumColumns_take n _ hlength]
    rfl

theorem HurstTrendBlend.cuts (s : HurstTrendBlend) :
    CutsOutputs n (s.computeIndicators frame) (s.computeIndicators (frame.take n)) := by
  unfold computeIndicators
  have hsign : ∀ lookback, s.excessSign ((frame.column Row.close).take n) lookback =
      (s.excessSign (frame.column Row.close) lookback).take n := by
    intro lookback
    unfold excessSign
    rw [relativeChange_take (Int.natCast_nonneg _), List.map_take]
  have hlength : ∀ lookback, (s.excessSign (frame.column Row.close) lookback).length =
      frame.rows.length := by
    intro lookback
    rw [excessSign, List.length_map, length_relativeChange _ (length_column frame Row.close)]
  simp only [column_take, hsign, zipWith_take]
  refine mapsTo_bind (estimateVolatility_cuts n frame _ _ _) fun volatility => mapsTo_pure ?_
  have hblend : ∀ blend : List F,
      (if 0 < s.signalLagBars then shift nan s.signalLagBars (blend.take n) else blend.take n) =
      (if 0 < s.signalLagBars then shift nan s.signalLagBars blend else blend).take n := by
    intro blend
    split
    · exact shift_causal nan (Int.natCast_nonneg _) n blend
    · rfl
  rw [hblend, List.map_take, momentumColumns_take]
  · rfl
  · split <;> simp [hlength]

end Classes

/-! ## Pairs -/

section Pairs

variable (n : ℕ) (frame : Frame F)

theorem namedColumn_take (name : String) :
    namedColumn (frame.take n) name = (namedColumn frame name).map (List.take n) := by
  unfold namedColumn
  split
  · rw [column_take]
    rfl
  · rw [column_take]
    rfl
  · rw [column_take]
    rfl
  · rw [column_take]
    rfl
  · rw [column_take]
    rfl
  · by_cases hname : name ∈ frame.exogColumns
    · have hname' : name ∈ (frame.take n).exogColumns := hname
      rw [if_pos hname, if_pos hname', column_take]
      rfl
    · have hname' : name ∉ (frame.take n).exogColumns := hname
      rw [if_neg hname, if_neg hname']
      rfl

omit [PriceFloat F] in
theorem update_take (df df' : String → Option (List F))
    (h : ∀ name, df' name = (df name).map (List.take n)) (key : String) (xs : List F)
    (name : String) :
    Function.update df' key (some (xs.take n)) name =
      (Function.update df key (some xs) name).map (List.take n) := by
  by_cases hname : name = key
  · subst hname
    simp
  · rw [Function.update_of_ne hname, Function.update_of_ne hname, h]

theorem GatevPairs.syntheticOpen_take (s : GatevPairs) {df df' : String → Option (List F)}
    (h : ∀ name, df' name = (df name).map (List.take n)) (close : List F) :
    s.syntheticOpen df' (close.take n) = (s.syntheticOpen df close).take n := by
  unfold syntheticOpen
  rw [h, h]
  cases df s.openColA with
  | none => rfl
  | some openA =>
    cases df s.openColB with
    | none => rfl
    | some openB => exact zipWith_take _ n openA openB

theorem GatevPairs.cuts (s : GatevPairs) :
    CutsOutputs n (s.computeIndicators frame) (s.computeIndicators (frame.take n)) := by
  unfold computeIndicators
  rw [namedColumn_take, namedColumn_take]
  cases namedColumn frame s.colA with
  | none => exact mapsTo_error
  | some closeA =>
    cases namedColumn frame s.colB with
    | none => exact mapsTo_error
    | some closeB =>
      simp only [Option.map_some, zipWith_take]
      have hclose := update_take n _ _ (namedColumn_take n frame) "close"
        (List.zipWith sub closeA closeB)
      generalize Function.update (namedColumn frame) "close"
        (some (List.zipWith sub closeA closeB)) = df at hclose ⊢
      generalize Function.update (namedColumn (frame.take n)) "close"
        (some ((List.zipWith sub closeA closeB).take n)) = df' at hclose ⊢
      generalize List.zipWith sub closeA closeB = close
      rw [syntheticOpen_take n s hclose]
      have hassigned := update_take n _ _ (update_take n _ _ (update_take n df df' hclose "open"
        (s.syntheticOpen df close)) "high" close) "low" close
      generalize Function.update (Function.update (Function.update df "open"
        (some (s.syntheticOpen df close))) "high" (some close)) "low" (some close) = synthetic
        at hassigned ⊢
      have hprice : ∀ name, (Function.update (Function.update (Function.update df' "open"
          (some ((s.syntheticOpen df close).take n))) "high" (some (close.take n))) "low"
          (some (close.take n)) name).getD [] = ((synthetic name).getD []).take n := by
        intro name
        rw [hassigned]
        cases synthetic name with
        | none => simp
        | some xs => rfl
      rw [hprice, hprice]
      generalize (synthetic s.colA).getD [] = priceA
      generalize (synthetic s.colB).getD [] = priceB
      generalize s.syntheticOpen df close = opn
      refine mapsTo_bind (computeRealizedVol_cuts n _ _) fun volA => ?_
      refine mapsTo_bind (computeRealizedVol_cuts n _ _) fun volB => mapsTo_pure ?_
      rw [zip_take, scan_causal (pairStep s.formationBars s.tradingBars s.openThresholdSd) pairStart
        n (List.zip priceA priceB), zipWith_take, barIndex_take,
        show (frame.take n).rows = frame.rows.take n from rfl]
      simp only [List.map_take, column_take_flags, takeOutputs, List.map_cons, List.map_nil]
      rfl

end Pairs

/-! ## The checks -/

section Checks

variable {n : ℕ} (columns : Outputs F)

omit [PriceFloat F] in
theorem lookup_takeOutputs (name : String) :
    (takeOutputs n columns).lookup name = (columns.lookup name).map (Column.take n) :=
  MemoRuns.lookup_map_snd (Column.take n) columns name

theorem getElem?_take_of_lt {α : Type} {bar : ℕ} (h : bar < n) (xs : List α) :
    (xs.take n)[bar]? = xs[bar]? := by
  rw [List.getElem?_take, if_pos h]

theorem flagAt_take {bar : ℕ} (h : bar < n) (name : String) :
    flagAt (takeOutputs n columns) name bar = flagAt columns name bar := by
  unfold flagAt signalAt
  rw [lookup_takeOutputs]
  cases columns.lookup name with
  | none => rfl
  | some column =>
    simp only [Option.map_some, Option.bind_some, Column.signals_take, getElem?_take_of_lt h]

theorem numberAt_take {bar : ℕ} (h : bar < n) (name : String) (default : F) :
    numberAt (takeOutputs n columns) name default bar = numberAt columns name default bar := by
  unfold numberAt
  rw [lookup_takeOutputs]
  cases columns.lookup name with
  | none => rfl
  | some column =>
    simp only [Option.map_some, Option.bind_some, Column.values_take, getElem?_take_of_lt h]

end Checks

/-! ## Every registered strategy -/

namespace RegisteredStrategy

theorem cuts (s : RegisteredStrategy) (n : ℕ) (frame : Frame F) :
    CutsOutputs n (s.computeIndicators frame) (s.computeIndicators (frame.take n)) := by
  cases s with
  | maCrossover s => exact s.cuts n frame
  | rsiMeanReversion s => exact s.cuts n frame
  | bollingerReversion s => exact s.cuts n frame
  | donchianBreakout s => exact s.cuts n frame
  | macd s => exact s.cuts n frame
  | trb s => exact s.cuts n frame
  | fma s => exact s.cuts n frame
  | vma s => exact s.cuts n frame
  | tsmom s => exact s.cuts n frame
  | hurstTrendBlend s => exact s.cuts n frame
  | gatevPairs s => exact s.cuts n frame

variable {n bar : ℕ}

theorem checkEntryConditions_take (s : RegisteredStrategy) (h : bar < n) (columns : Outputs F)
    (symbol : String) :
    s.checkEntryConditions (takeOutputs n columns) symbol bar =
      s.checkEntryConditions columns symbol bar := by
  unfold checkEntryConditions buySellEntries momentumEntries
  simp only [flagAt_take columns h, numberAt_take columns h]

theorem idxOf?_take {times : List Time} {time : Time} (h : time ∈ times.take n) :
    (times.take n).idxOf? time = times.idxOf? time := by
  induction times generalizing n with
  | nil => rw [List.take_nil]
  | cons t times ih =>
    cases n with
    | zero => cases h
    | succ n =>
      rw [List.take_succ_cons] at h ⊢
      rw [List.idxOf?_cons, List.idxOf?_cons]
      by_cases heq : t = time
      · simp [heq]
      · rw [ih ((List.mem_cons.mp h).resolve_left (Ne.symm heq))]

theorem holdingExit_take {times : List Time} {trade : Trade}
    (hentry : trade.entryTime ∈ times.take n) (symbol : String) (holdingPeriod : ℤ) (bar : ℕ) :
    holdingExit (times.take n) symbol holdingPeriod bar trade =
      holdingExit times symbol holdingPeriod bar trade := by
  unfold holdingExit
  rw [idxOf?_take hentry]

theorem checkExitConditions_take (s : RegisteredStrategy) (h : bar < n) (columns : Outputs F)
    (times : List Time) (symbol : String) {openTrades : List Trade}
    (hentries : ∀ trade ∈ openTrades, trade.entryTime ∈ times.take n) :
    s.checkExitConditions (takeOutputs n columns) (times.take n) symbol bar openTrades =
      s.checkExitConditions columns times symbol bar openTrades := by
  have hholding : ∀ holdingPeriod,
      fixedHoldingPeriodExits (times.take n) symbol holdingPeriod bar openTrades =
        fixedHoldingPeriodExits times symbol holdingPeriod bar openTrades := fun holdingPeriod =>
    List.filterMap_congr fun trade htrade =>
      holdingExit_take (hentries trade htrade) symbol holdingPeriod bar
  unfold checkExitConditions flagExits momentumExits
  simp only [flagAt_take columns h, hholding]

/-- Frames that agree up to a bar: the columns of a registered strategy agree up to it, or fail
alike, and at each of these bars it says the same of entries and of trades entered by then. -/
theorem registered_strategies_causal (s : RegisteredStrategy) {frame frame' : Frame F} {i : ℕ}
    (hagree : frame.take (i + 1) = frame'.take (i + 1)) :
    (s.computeIndicators frame).map (takeOutputs (i + 1)) =
        (s.computeIndicators frame').map (takeOutputs (i + 1)) ∧
      ∀ columns columns', s.computeIndicators frame = .ok columns →
        s.computeIndicators frame' = .ok columns' → ∀ bar ≤ i, ∀ symbol,
          s.checkEntryConditions columns symbol bar = s.checkEntryConditions columns' symbol bar ∧
          ∀ openTrades : List Trade,
            (∀ trade ∈ openTrades, trade.entryTime ∈ (frame.take (i + 1)).times) →
            s.checkExitConditions columns frame.times symbol bar openTrades =
              s.checkExitConditions columns' frame'.times symbol bar openTrades := by
  have hcolumns : (s.computeIndicators frame).map (takeOutputs (i + 1)) =
      (s.computeIndicators frame').map (takeOutputs (i + 1)) := by
    have hcut := s.cuts (i + 1) frame
    have hcut' := s.cuts (i + 1) frame'
    rw [← hagree] at hcut'
    exact hcut.symm.trans hcut'
  refine ⟨hcolumns, fun columns columns' hcompute hcompute' bar hbar symbol => ?_⟩
  have hlt : bar < i + 1 := Nat.lt_succ_of_le hbar
  have htaken : takeOutputs (i + 1) columns = takeOutputs (i + 1) columns' := by
    rw [hcompute, hcompute'] at hcolumns
    exact Except.ok.inj hcolumns
  have htimes : frame.times.take (i + 1) = frame'.times.take (i + 1) := by
    rw [← times_take, ← times_take, hagree]
  constructor
  · rw [← s.checkEntryConditions_take hlt columns, htaken, s.checkEntryConditions_take hlt]
  · intro openTrades hentries
    rw [times_take] at hentries
    rw [← s.checkExitConditions_take hlt columns _ _ hentries, htaken, htimes,
      s.checkExitConditions_take hlt _ _ _ (by rwa [← htimes])]

/-- An average of one bar says the same of the first bar whatever the close of the second. -/
theorem maCrossover_causal :
    (closeFrame 1).take 1 = (closeFrame 3).take 1 ∧
      ((RegisteredStrategy.maCrossover ⟨1, 2, 0, .sma, .ema⟩).computeIndicators
          (closeFrame 1)).map (takeOutputs 1) =
        ((RegisteredStrategy.maCrossover ⟨1, 2, 0, .sma, .ema⟩).computeIndicators
          (closeFrame 3)).map (takeOutputs 1) :=
  ⟨rfl, (registered_strategies_causal (.maCrossover ⟨1, 2, 0, .sma, .ema⟩)
    (i := 0) rfl).1⟩

end RegisteredStrategy

end QBackend.RegisteredStrategies
