import QBackend.CausalSessions
import QBackend.CompositeStrategy

/-!
# Nodes that do not look ahead

What a node writes for columns and a frame cut after `n` rows is what it writes for all rows, cut
after `n` rows. Four kinds take a number of bars to look back by, and look ahead where it is negative:
`transform.shift`, `ind.momentum`, `ind.tsmom` and `ind.trend_blend`.
-/

namespace QBackend.GenomeDsl

open CausalSeries PriceFloat FallibleSteps

variable {F : Type} [PriceFloat F]

/-! ## Columns cut after some rows -/

def Column.take (n : ℕ) : Column F → Column F
  | .numbers xs => .numbers (xs.take n)
  | .bools bs => .bools (bs.take n)

namespace Column

variable (n : ℕ) (column : Column F)

@[simp] theorem values_take : (column.take n).values = column.values.take n := by
  cases column with
  | numbers xs => rfl
  | bools bs => exact List.map_take

@[simp] theorem flags_take : (column.take n).flags = column.flags.take n := by
  cases column with
  | numbers xs => exact List.map_take
  | bools bs => rfl

@[simp] theorem signals_take : (column.take n).signals = column.signals.take n := by
  rw [signals, flags_take]
  exact List.map_take

theorem abs_take : (column.take n).abs = column.abs.take n := by
  cases column with
  | numbers xs => exact congrArg Column.numbers List.map_take
  | bools bs => rfl

theorem shift_take {bars : ℤ} (h : 0 ≤ bars) :
    (column.take n).shift bars = (column.shift bars).take n := by
  cases column with
  | numbers xs => exact congrArg Column.numbers (shift_causal nan h n xs)
  | bools bs => exact congrArg Column.bools (shift_causal none h n bs)

end Column

def takeOutputs (n : ℕ) (outputs : Outputs F) : Outputs F :=
  outputs.map fun output => (output.1, output.2.take n)

/-- The latent columns cut after some rows. -/
def Latents.take (n : ℕ) (latents : Latents F) : Latents F :=
  ⟨latents.columns.map (List.take n), min latents.warmup n⟩

/-- The node writes for the first `n` rows the first `n` rows of what it writes. -/
abbrev CutsOutputs (n : ℕ) (x y : Except Failure (Outputs F)) : Prop := MapsTo (takeOutputs n) x y

omit [PriceFloat F] in
theorem takeOutputs_outBools (n : ℕ) (bs : List Bool) :
    takeOutputs n (outBools bs : Outputs F) = outBools (bs.take n) := by
  simp [takeOutputs, outBools, Column.take, List.map_take]

omit [PriceFloat F] in
theorem cuts_out {n : ℕ} {x y : Except Failure (List F)} (h : Cuts n x y) :
    CutsOutputs n (x >>= fun xs => pure (out xs)) (y >>= fun xs => pure (out xs)) :=
  mapsTo_bind h fun _ => mapsTo_pure rfl

omit [PriceFloat F] in
theorem cuts_outBools {n : ℕ} {x y : Except Failure (List Bool)} (h : MapsTo (List.take n) x y) :
    CutsOutputs (F := F) n (x >>= fun bs => pure (outBools bs)) (y >>= fun bs => pure (outBools bs)) :=
  mapsTo_bind h fun bs => mapsTo_pure (takeOutputs_outBools n bs).symm

section Inputs

variable (n : ℕ) (inputs : List (Column F)) (index : ℕ)

omit [PriceFloat F] in
theorem input_cuts :
    MapsTo (Column.take n) (input inputs index) (input (inputs.map (Column.take n)) index) := by
  unfold input
  rw [List.getElem?_map]
  cases inputs[index]? with
  | none => exact mapsTo_error
  | some column => exact mapsTo_ok rfl

theorem series_cuts : Cuts n (series inputs index) (series (inputs.map (Column.take n)) index) :=
  mapsTo_bind (input_cuts n inputs index) fun column => mapsTo_pure (column.values_take n)

end Inputs

/-! ## Looking back -/

/-- The parameters that say how many bars the kind looks back. -/
def lookbackKeys : NodeKind → List String
  | .transformShift => ["bars"]
  | .indMomentum | .indTsmom => ["lookback_bars"]
  | .indTrendBlend => ["lookback_1", "lookback_2", "lookback_3"]
  | _ => []

/-- None of them is negative. -/
def LooksBack (kind : NodeKind) (params : Params) : Prop :=
  ∀ key ∈ lookbackKeys kind, ∀ bars, intParam params key = .ok bars → 0 ≤ bars

/-! ## Sources -/

theorem resolveExogColumn_cuts (n : ℕ) (frame : Frame F) (symbol suffix : String) :
    Cuts n (resolveExogColumn frame symbol suffix)
      (resolveExogColumn (frame.take n) symbol suffix) := by
  unfold resolveExogColumn
  exact mapsTo_ite (mapsTo_ok (column_take frame n _)) mapsTo_error

theorem astypeBool_take (n : ℕ) (xs : List F) : astypeBool (xs.take n) = (astypeBool xs).take n :=
  List.map_take

theorem evaluateExog_cuts (n : ℕ) (frame : Frame F) (kind : NodeKind) (params : Params) :
    CutsOutputs n (evaluateExog frame kind params) (evaluateExog (frame.take n) kind params) := by
  have hnumbers : ∀ symbol suffix, CutsOutputs n
      (resolveExogColumn frame symbol suffix >>= fun xs => pure (out xs))
      (resolveExogColumn (frame.take n) symbol suffix >>= fun xs => pure (out xs)) :=
    fun symbol suffix => cuts_out (resolveExogColumn_cuts n frame symbol suffix)
  have hbools : ∀ symbol suffix, CutsOutputs (F := F) n
      (resolveExogColumn frame symbol suffix >>= fun xs => pure (outBools (astypeBool xs)))
      (resolveExogColumn (frame.take n) symbol suffix >>= fun xs =>
        pure (outBools (astypeBool xs))) := by
    intro symbol suffix
    refine mapsTo_bind (resolveExogColumn_cuts n frame symbol suffix) fun xs => ?_
    refine mapsTo_pure ?_
    rw [takeOutputs_outBools, astypeBool_take]
  unfold evaluateExog
  split
  · exact mapsTo_bind_same fun _ => mapsTo_bind_same fun _ => hnumbers _ _
  · exact mapsTo_bind_same fun _ => mapsTo_bind_same fun _ => mapsTo_bind_same fun _ =>
      hnumbers _ _
  · exact mapsTo_bind_same fun _ => mapsTo_bind_same fun _ => hnumbers _ _
  · exact mapsTo_bind_same fun _ => mapsTo_bind_same fun _ => hnumbers _ _
  · exact mapsTo_bind_same fun _ => mapsTo_bind_same fun _ => hbools _ _
  · exact mapsTo_bind_same fun _ => mapsTo_bind_same fun _ => hbools _ _
  · exact mapsTo_bind_same fun _ => hnumbers _ _

/-! ## Indicators -/

theorem estimateVolatility_cuts (n : ℕ) (frame : Frame F) (source : List F) (estimator : String)
    (window : ℤ) :
    Cuts n (estimateVolatility frame source estimator window)
      (estimateVolatility (frame.take n) (source.take n) estimator window) := by
  unfold estimateVolatility
  refine mapsTo_ite ?_ (computeRealizedVol_cuts n source window)
  simp only [column_take]
  exact computeYangZhang_cuts n _ _ _ _ window

theorem evaluateTsmom_cuts (n : ℕ) (frame : Frame F) {params : Params}
    (h : LooksBack .indTsmom params) :
    CutsOutputs n (evaluateTsmom frame params) (evaluateTsmom (frame.take n) params) := by
  unfold evaluateTsmom
  refine mapsTo_bind_of_ok fun lookback hlookback => ?_
  have hback : 0 ≤ lookback := h _ (by simp [lookbackKeys]) _ hlookback
  refine mapsTo_bind_same fun rebalanceBars => mapsTo_bind_same fun volWindow =>
    mapsTo_bind_same fun estimator => ?_
  simp only [column_take, relativeChange_take hback]
  refine mapsTo_bind (estimateVolatility_cuts n frame _ estimator volWindow) fun volatility => ?_
  refine mapsTo_pure ?_
  have hentries : scan (tsmomStep rebalanceBars) (0, ofRat 0)
      ((relativeChange lookback (frame.column Row.close)).take n) =
        (scan (tsmomStep rebalanceBars) (0, ofRat 0)
          (relativeChange lookback (frame.column Row.close))).take n := scan_causal _ _ n _
  simp only [hentries, takeOutputs, List.map_cons, List.map_nil, Column.take, List.map_take]

theorem evaluateTrendBlend_cuts (n : ℕ) {params : Params} (h : LooksBack .indTrendBlend params)
    (inputs : List (Column F)) :
    CutsOutputs n (evaluateTrendBlend params inputs)
      (evaluateTrendBlend params (inputs.map (Column.take n))) := by
  unfold evaluateTrendBlend
  refine mapsTo_bind (series_cuts n inputs 0) fun source => ?_
  refine mapsTo_bind_of_ok fun lookback₁ h₁ => mapsTo_bind_of_ok fun lookback₂ h₂ =>
    mapsTo_bind_of_ok fun lookback₃ h₃ => mapsTo_bind_same fun volWindow => ?_
  have hback₁ : 0 ≤ lookback₁ := h _ (by simp [lookbackKeys]) _ h₁
  have hback₂ : 0 ≤ lookback₂ := h _ (by simp [lookbackKeys]) _ h₂
  have hback₃ : 0 ≤ lookback₃ := h _ (by simp [lookbackKeys]) _ h₃
  refine mapsTo_bind (computeRealizedVol_cuts n source volWindow) fun volatility => ?_
  refine mapsTo_pure ?_
  simp only [relativeChange_take hback₁, relativeChange_take hback₂, relativeChange_take hback₃,
    List.map_take, zipWith_take, takeOutputs, List.map_cons, List.map_nil, Column.take]

theorem applyWarmup_take (n warmup : ℕ) (xs : List F) :
    applyWarmup (min warmup n) (xs.take n) = (applyWarmup warmup xs).take n := by
  unfold applyWarmup
  rw [List.take_append, List.take_replicate, List.length_replicate, List.length_take]
  congr 1
  · congr 1
    omega
  · rw [List.drop_take]
    by_cases hn : n ≤ warmup
    · have hle : n - min warmup n = 0 := by omega
      have hle' : n - min warmup xs.length = 0 ∨ xs.length ≤ warmup := by omega
      rw [hle, List.take_zero]
      rcases hle' with hle' | hle'
      · rw [hle', List.take_zero]
      · rw [List.drop_eq_nil_of_le hle', List.take_nil]
    · rw [Nat.min_eq_left (by omega : warmup ≤ n)]
      by_cases hlen : warmup ≤ xs.length
      · rw [Nat.min_eq_left hlen]
      · rw [List.drop_eq_nil_of_le (by omega), List.take_nil, List.take_nil]

theorem evaluateLatent_cuts (n : ℕ) (frame : Frame F) (latents : Option (Latents F))
    (params : Params) :
    CutsOutputs n (evaluateLatent frame latents params)
      (evaluateLatent (frame.take n) (latents.map (Latents.take n)) params) := by
  unfold evaluateLatent
  cases latents with
  | none => exact mapsTo_ok (congrArg out List.map_take)
  | some latents =>
    refine mapsTo_bind_same fun index => ?_
    simp only [Latents.take, List.length_map, List.getElem?_map]
    cases latents.columns[min (max 0 index).toNat (latents.columns.length - 1)]? with
    | none => exact mapsTo_error
    | some column => exact mapsTo_pure (congrArg out (applyWarmup_take n _ column))

theorem evaluateIndicator_cuts (n : ℕ) (frame : Frame F) (latents : Option (Latents F))
    {kind : NodeKind} {params : Params} (h : LooksBack kind params) (inputs : List (Column F)) :
    CutsOutputs n (evaluateIndicator frame latents kind params inputs)
      (evaluateIndicator (frame.take n) (latents.map (Latents.take n)) kind params
        (inputs.map (Column.take n))) := by
  have hsource : ∀ index {f g : List F → Except Failure (Outputs F)},
      (∀ xs, CutsOutputs n (f xs) (g (xs.take n))) →
        CutsOutputs n (series inputs index >>= f)
          (series (inputs.map (Column.take n)) index >>= g) :=
    fun index f g hf => mapsTo_bind (series_cuts n inputs index) hf
  unfold evaluateIndicator
  simp only [column_take]
  split
  case h_1 =>
    refine hsource 0 fun source => mapsTo_bind_same fun period => mapsTo_bind_same fun name =>
      mapsTo_bind_same fun maType => ?_
    exact cuts_out (computeMa_cuts n source period maType)
  case h_2 =>
    refine hsource 0 fun source => mapsTo_bind_same fun period => ?_
    exact cuts_out (computeMa_cuts n source period .ema)
  case h_3 =>
    refine hsource 0 fun source => mapsTo_bind_same fun period => ?_
    exact cuts_out (computeRsi_cuts n source period)
  case h_4 =>
    refine mapsTo_bind_same fun period => ?_
    exact cuts_out (computeAtr_cuts n _ _ _ period)
  case h_5 =>
    refine hsource 0 fun source => mapsTo_bind_same fun fast => mapsTo_bind_same fun slow =>
      mapsTo_bind_same fun signal => ?_
    exact mapsTo_bind (computeMacd_cuts n source fast slow signal) fun macd => mapsTo_pure rfl
  case h_6 =>
    refine hsource 0 fun source => mapsTo_bind_same fun period => mapsTo_bind_same fun numStd => ?_
    exact mapsTo_bind (computeBollingerBands_cuts n source period numStd) fun bands =>
      mapsTo_pure rfl
  case h_7 =>
    refine mapsTo_bind_same fun period => ?_
    exact mapsTo_bind (computeDonchianChannels_cuts n _ _ period) fun channel => mapsTo_pure rfl
  case h_8 =>
    refine hsource 0 fun source => mapsTo_bind_of_ok fun lookback hlookback => ?_
    have hback : 0 ≤ lookback := h _ (by simp [lookbackKeys]) _ hlookback
    exact mapsTo_pure (congrArg out (relativeChange_take hback n source))
  case h_9 =>
    refine hsource 0 fun source => mapsTo_bind_same fun window => ?_
    exact cuts_out (estimateVolatility_cuts n frame source _ window)
  case h_10 =>
    refine hsource 0 fun left => hsource 1 fun right => ?_
    exact mapsTo_pure (congrArg out (zipWith_take _ n left right))
  case h_11 =>
    refine hsource 0 fun left => hsource 1 fun right => ?_
    exact mapsTo_pure (congrArg out (zipWith_take _ n left right))
  case h_12 =>
    refine hsource 0 fun close => mapsTo_bind_same fun period => mapsTo_bind_same fun bandPct => ?_
    exact mapsTo_bind (computeTrbChannel_cuts n close period bandPct) fun channel =>
      mapsTo_pure rfl
  case h_13 =>
    refine hsource 0 fun ma => mapsTo_bind_same fun bandPct => ?_
    refine mapsTo_pure ?_
    simp only [takeOutputs, List.map_cons, List.map_nil, Column.take, List.map_take]
  case h_14 => exact evaluateTsmom_cuts n frame h
  case h_15 => exact evaluateTrendBlend_cuts n h inputs
  case h_16 => exact evaluateLatent_cuts n frame latents params

/-! ## Transforms -/

theorem evaluateTransform_cuts {n : ℕ} (hn : 0 < n) {kind : NodeKind} {params : Params}
    (h : LooksBack kind params) (inputs : List (Column F)) :
    CutsOutputs n (evaluateTransform kind params inputs)
      (evaluateTransform kind params (inputs.map (Column.take n))) := by
  unfold evaluateTransform
  split
  case h_1 =>
    refine mapsTo_bind (input_cuts n inputs 0) fun source => mapsTo_bind_of_ok fun bars hbars => ?_
    have hback : 0 ≤ bars := by
      cases hlookup : params.lookup "bars" with
      | none =>
        rw [hlookup] at hbars
        cases hbars
        decide
      | some value =>
        rw [hlookup] at hbars
        refine h "bars" (by simp [lookbackKeys]) bars ?_
        rw [intParam, getKey, hlookup]
        exact hbars
    exact mapsTo_pure (congrArg (fun column => [("out", column)]) (source.shift_take n hback))
  case h_2 =>
    refine mapsTo_bind (input_cuts n inputs 0) fun source => ?_
    exact mapsTo_pure (congrArg (fun column => [("out", column)]) (source.abs_take n))
  case h_3 =>
    refine mapsTo_bind (series_cuts n inputs 0) fun source => mapsTo_bind_same fun factor => ?_
    exact mapsTo_pure (congrArg out List.map_take)
  case h_4 =>
    refine mapsTo_bind (series_cuts n inputs 0) fun source => mapsTo_bind_same fun window => ?_
    exact cuts_out (computeRollingZscore_cuts n source window)
  case h_5 =>
    refine mapsTo_bind (series_cuts n inputs 0) fun source => mapsTo_bind_same fun window => ?_
    exact cuts_out (computeRollingRank_cuts hn source window)
  case h_6 =>
    refine mapsTo_bind (series_cuts n inputs 0) fun source => mapsTo_bind_same fun changeBars => ?_
    exact cuts_out (computePctChange_cuts n source changeBars)
  case h_7 =>
    refine mapsTo_bind (series_cuts n inputs 0) fun source => mapsTo_bind_same fun low =>
      mapsTo_bind_same fun high => ?_
    exact cuts_out (computeClip_cuts n source low high)

/-! ## Features -/

theorem computeVolRegime_cuts {n : ℕ} (hn : 0 < n) (source : List F) (window lookback : ℤ) :
    Cuts n (computeVolRegime source window lookback)
      (computeVolRegime (source.take n) window lookback) :=
  mapsTo_bind (computeRealizedVol_cuts n source window) fun vol =>
    computeRollingRank_cuts hn vol lookback

theorem computeTrendRegime_cuts (n : ℕ) (source : List F) (period : ℤ) :
    Cuts n (computeTrendRegime source period) (computeTrendRegime (source.take n) period) := by
  unfold computeTrendRegime
  refine mapsTo_bind (rollingValue_cuts n period mean source) fun ma => ?_
  refine mapsTo_bind (computeRealizedVol_cuts n source period) fun vol => mapsTo_pure ?_
  rw [zip_take, zipWith_take]

theorem computeRangeCompression_cuts {n : ℕ} (hn : 0 < n) (high low close : List F)
    (lookback : ℤ) :
    Cuts n (computeRangeCompression high low close lookback)
      (computeRangeCompression (high.take n) (low.take n) (close.take n) lookback) := by
  unfold computeRangeCompression
  refine mapsTo_bind (computeAtr_cuts n high low close 14) fun atr => ?_
  rw [zip_take, zipWith_take]
  exact computeRollingRank_cuts hn _ lookback

theorem computeDistanceAtr_cuts (n : ℕ) (close level high low : List F) (period : ℤ) :
    Cuts n (computeDistanceAtr close level high low period)
      (computeDistanceAtr (close.take n) (level.take n) (high.take n) (low.take n) period) := by
  unfold computeDistanceAtr
  refine mapsTo_bind (computeAtr_cuts n high low close period) fun atr => mapsTo_pure ?_
  rw [zip_take, zipWith_take]

section Frames

variable (n : ℕ) (frame : Frame F)

theorem computeMinutesFromOpen_cuts (sessionOpen : String) :
    Cuts n (computeMinutesFromOpen frame sessionOpen)
      (computeMinutesFromOpen (frame.take n) sessionOpen) :=
  mapsTo_bind_same fun _ => mapsTo_pure List.map_take

theorem computeTimeOfDay_cuts (sessionOpen sessionClose : String) :
    Cuts n (computeTimeOfDay frame sessionOpen sessionClose)
      (computeTimeOfDay (frame.take n) sessionOpen sessionClose) :=
  mapsTo_bind_same fun _ => mapsTo_bind_same fun _ =>
    mapsTo_ite mapsTo_error (mapsTo_pure List.map_take)

theorem computeSessionWindow_cuts (windowFrom windowTo : String) :
    MapsTo (List.take n) (computeSessionWindow frame windowFrom windowTo)
      (computeSessionWindow (frame.take n) windowFrom windowTo) :=
  mapsTo_bind_same fun _ => mapsTo_bind_same fun _ =>
    mapsTo_ite mapsTo_error (mapsTo_pure List.map_take)

theorem evaluateSessionDistance_cuts (params : Params) (agg : List (Row F) → F) :
    CutsOutputs n (evaluateSessionDistance frame params agg)
      (evaluateSessionDistance (frame.take n) params agg) := by
  unfold evaluateSessionDistance
  refine mapsTo_bind_same fun period => cuts_out ?_
  simp only [column_take, mapPreviousSession_take]
  exact computeDistanceAtr_cuts n _ _ _ _ period

theorem evaluateOpeningRange_cuts (params : Params) :
    MapsTo (fun levels => (levels.1.take n, levels.2.take n)) (evaluateOpeningRange frame params)
      (evaluateOpeningRange (frame.take n) params) := by
  unfold evaluateOpeningRange computeOpeningRangeLevels openingRangeLevels
  refine mapsTo_bind_same fun sessionOpen => mapsTo_bind_same fun rangeMinutes =>
    mapsTo_bind_same fun openMinutes => mapsTo_pure ?_
  simp only [rows_take, openingLevel_take]

end Frames

theorem evaluateFeatureNode_cuts {n : ℕ} (hn : 0 < n) (frame : Frame F) (kind : NodeKind)
    (params : Params) (inputs : List (Column F)) :
    CutsOutputs n (evaluateFeatureNode frame kind params inputs)
      (evaluateFeatureNode (frame.take n) kind params (inputs.map (Column.take n))) := by
  unfold evaluateFeatureNode
  simp only [column_take, mapPreviousSession_take, computeSessionGap_take, computeD1Trend_take]
  split
  case h_1 => exact mapsTo_bind_same fun sessionOpen =>
      cuts_out (computeMinutesFromOpen_cuts n frame sessionOpen)
  case h_2 => exact mapsTo_bind_same fun sessionOpen => mapsTo_bind_same fun sessionClose =>
      cuts_out (computeTimeOfDay_cuts n frame sessionOpen sessionClose)
  case h_3 => exact mapsTo_pure (congrArg out List.map_take)
  case h_4 => exact mapsTo_pure (congrArg out List.map_take)
  case h_5 => exact mapsTo_bind_same fun windowFrom => mapsTo_bind_same fun windowTo =>
      cuts_outBools (computeSessionWindow_cuts n frame windowFrom windowTo)
  case h_6 =>
    refine mapsTo_bind (series_cuts n inputs 0) fun source => mapsTo_bind_same fun window =>
      mapsTo_bind_same fun lookback => ?_
    exact cuts_out (computeVolRegime_cuts hn source window lookback)
  case h_7 =>
    refine mapsTo_bind (series_cuts n inputs 0) fun source => mapsTo_bind_same fun period => ?_
    exact cuts_out (computeTrendRegime_cuts n source period)
  case h_8 =>
    refine mapsTo_bind (series_cuts n inputs 0) fun source => mapsTo_bind_same fun _ =>
      mapsTo_bind_same fun lookback => ?_
    exact cuts_out (computeRangeCompression_cuts hn _ _ source lookback)
  case h_9 => exact mapsTo_pure rfl
  case h_10 => exact mapsTo_pure rfl
  case h_11 => exact mapsTo_pure rfl
  case h_12 => exact mapsTo_pure rfl
  case h_13 => exact mapsTo_pure rfl
  case h_14 => exact mapsTo_pure rfl
  case h_15 => exact mapsTo_pure rfl
  case h_16 => exact mapsTo_pure rfl
  case h_17 => exact cuts_out (computeD1Volatility_cuts frame n)
  case h_18 => exact evaluateSessionDistance_cuts n frame params _
  case h_19 => exact evaluateSessionDistance_cuts n frame params _
  case h_20 => exact evaluateSessionDistance_cuts n frame params _
  case h_21 => exact mapsTo_bind (evaluateOpeningRange_cuts n frame params) fun _ => mapsTo_pure rfl
  case h_22 => exact mapsTo_bind (evaluateOpeningRange_cuts n frame params) fun _ => mapsTo_pure rfl

/-! ## Booleans and exits -/

theorem crossing_take (now before : F → F → Bool) (n : ℕ) (left right : List F) :
    crossing now before (left.take n) (right.take n) = (crossing now before left right).take n := by
  unfold crossing
  simp only [previous_take, zipWith_take]

section Booleans

variable (n : ℕ) (inputs : List (Column F))

theorem evaluateComparison_cuts (compare : F → F → Bool) :
    CutsOutputs n (evaluateComparison compare inputs)
      (evaluateComparison compare (inputs.map (Column.take n))) := by
  unfold evaluateComparison
  refine mapsTo_bind (series_cuts n inputs 0) fun left => ?_
  refine mapsTo_bind (series_cuts n inputs 1) fun right => mapsTo_pure ?_
  rw [zipWith_take, takeOutputs_outBools]

theorem evaluateTouch_cuts (now before : F → F → Bool) :
    CutsOutputs n (evaluateTouch now before inputs)
      (evaluateTouch now before (inputs.map (Column.take n))) := by
  unfold evaluateTouch
  refine mapsTo_bind (series_cuts n inputs 0) fun close => ?_
  refine mapsTo_bind (series_cuts n inputs 1) fun band => mapsTo_pure ?_
  rw [crossing_take, takeOutputs_outBools]

theorem evaluateBreakout_cuts (now before : F → F → Bool) :
    CutsOutputs n (evaluateBreakout now before inputs)
      (evaluateBreakout now before (inputs.map (Column.take n))) := by
  unfold evaluateBreakout
  refine mapsTo_bind (series_cuts n inputs 0) fun close => ?_
  refine mapsTo_bind (series_cuts n inputs 1) fun band => ?_
  refine mapsTo_bind (series_cuts n inputs 2) fun channel => mapsTo_pure ?_
  simp only [previous_take, zipWith_take, takeOutputs_outBools]

theorem evaluateLogic_cuts (op : Bool → Bool → Bool) :
    CutsOutputs n (evaluateLogic op inputs)
      (evaluateLogic op (inputs.map (Column.take n))) := by
  unfold evaluateLogic
  refine mapsTo_bind (input_cuts n inputs 0) fun left => ?_
  refine mapsTo_bind (input_cuts n inputs 1) fun right => mapsTo_pure ?_
  rw [left.flags_take, right.flags_take, zipWith_take]
  rfl

theorem evaluateCross_cuts (now before : F → F → Bool) (params : Params) :
    CutsOutputs n (evaluateCross now before params inputs)
      (evaluateCross now before params (inputs.map (Column.take n))) := by
  unfold evaluateCross
  rw [List.length_map]
  refine mapsTo_ite ?_ (evaluateTouch_cuts n inputs now before)
  refine mapsTo_bind (series_cuts n inputs 0) fun source => ?_
  refine mapsTo_bind_same fun threshold => mapsTo_pure ?_
  rw [previous_take, zipWith_take, takeOutputs_outBools]

theorem evaluateMiddleBand_cuts :
    CutsOutputs n (evaluateMiddleBand inputs)
      (evaluateMiddleBand (inputs.map (Column.take n))) := by
  unfold evaluateMiddleBand
  refine mapsTo_bind (series_cuts n inputs 0) fun close => ?_
  refine mapsTo_bind (series_cuts n inputs 1) fun middle => mapsTo_pure ?_
  simp only [crossing_take, takeOutputs, List.map_cons, List.map_nil, Column.take, List.map_take]

theorem evaluateBoolNode_cuts (kind : NodeKind) (params : Params) :
    CutsOutputs n (evaluateBoolNode kind params inputs)
      (evaluateBoolNode kind params (inputs.map (Column.take n))) := by
  unfold evaluateBoolNode
  split
  case h_1 => exact evaluateLogic_cuts n inputs _
  case h_2 => exact evaluateLogic_cuts n inputs _
  case h_3 =>
    refine mapsTo_bind (input_cuts n inputs 0) fun source => mapsTo_pure ?_
    rw [source.signals_take, List.map_take, takeOutputs_outBools]
  case h_4 => exact evaluateComparison_cuts n inputs gt
  case h_5 => exact evaluateComparison_cuts n inputs lt
  case h_6 => exact evaluateComparison_cuts n inputs ge
  case h_7 => exact evaluateComparison_cuts n inputs le
  case h_8 => exact evaluateCross_cuts n inputs gt le params
  case h_9 => exact evaluateCross_cuts n inputs lt ge params
  case h_10 => exact evaluateTouch_cuts n inputs lt ge
  case h_11 => exact evaluateTouch_cuts n inputs gt le
  case h_12 => exact evaluateBreakout_cuts n inputs gt le
  case h_13 => exact evaluateBreakout_cuts n inputs lt ge

end Booleans

/-! ## Every kind -/

theorem evaluateKind_cuts {n : ℕ} (hn : 0 < n) (frame : Frame F) (latents : Option (Latents F))
    {kind : NodeKind} {params : Params} (h : LooksBack kind params) (inputs : List (Column F)) :
    CutsOutputs n (evaluateKind frame latents kind params inputs)
      (evaluateKind (frame.take n) (latents.map (Latents.take n)) kind params
        (inputs.map (Column.take n))) := by
  have hsource : ∀ f : Row F → F,
      CutsOutputs n (.ok (out (frame.column f))) (.ok (out ((frame.take n).column f))) :=
    fun f => mapsTo_ok (congrArg out (column_take frame n f))
  unfold evaluateKind
  split
  · exact hsource _
  · exact hsource _
  · exact hsource _
  · exact hsource _
  · exact hsource _
  · exact evaluateMiddleBand_cuts n inputs
  · split
    · exact evaluateExog_cuts n frame _ params
    · exact evaluateIndicator_cuts n frame latents h inputs
    · exact evaluateTransform_cuts hn h inputs
    · exact evaluateFeatureNode_cuts hn frame _ params inputs
    · exact evaluateBoolNode_cuts n inputs _ params
    · exact evaluateBoolNode_cuts n inputs _ params
    · exact mapsTo_ok rfl

end QBackend.GenomeDsl
