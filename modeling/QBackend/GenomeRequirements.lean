import QBackend.NodeEvaluation

/-!
# What a node needs to be evaluated

For each node kind, the parameters that its evaluation looks up by name, what it asks of them, and the
columns of the frame that it reads. A node is evaluated without an exception just when these are
there. Whether a parameter is there is not checked by the validator.
-/

namespace QBackend.GenomeDsl

open CausalSeries PriceFloat FallibleSteps

variable {F : Type} [PriceFloat F]

/-! ## Parameters that are there -/

/-- The parameter is there and an integer with the property. -/
def HasInt (params : Params) (key : String) (P : ℤ → Prop) : Prop :=
  ∃ value, intParam params key = .ok value ∧ P value

variable (F) in
def HasFloat (params : Params) (key : String) (P : F → Prop) : Prop :=
  ∃ value, floatParam params key = .ok value ∧ P value

variable (F) in
def HasStr (params : Params) (key : String) (P : String → Prop) : Prop :=
  ∃ value, strParam F params key = .ok value ∧ P value

/-- A time of day that comes before another. -/
def HhmmBefore (start stop : String) : Prop :=
  ∃ a b, hhmmToMinutes start = .ok a ∧ hhmmToMinutes stop = .ok b ∧ a < b

/-- The estimator of Yang and Zhang divides by the window less one. -/
def VolatilityWindow (estimator : String) (window : ℤ) : Prop :=
  0 ≤ window ∧ (estimator = "yang_zhang" → window ≠ 1)

/-! ## The table -/

variable (F) in
/-- A column of the asset that was attached to the frame. -/
def Attached (exogColumns : List String) (params : Params) (suffix : String) : Prop :=
  HasStr F params "symbol" fun symbol => exogColumnName symbol suffix ∈ exogColumns

/-- What the evaluation of a node asks of its parameters, of the number of its inputs, of the frame
and of the encoder. -/
def Requirements (frame : Frame F) (latents : Option (Latents F)) (kind : NodeKind)
    (params : Params) (inputCount : ℕ) : Prop :=
  match kind with
  | .sourceExogClose => Attached F frame.exogColumns params "close"
  | .sourceExogReturn => HasInt params "lookback_bars" fun k =>
      Attached F frame.exogColumns params ("return_" ++ toString k)
  | .sourceExogReturnZscore => HasInt params "lookback_bars" fun k => HasInt params "window" fun w =>
      Attached F frame.exogColumns params ("return_zscore_" ++ toString k ++ "_" ++ toString w)
  | .sourceExogRollingCorr => HasInt params "window" fun w =>
      Attached F frame.exogColumns params ("rolling_corr_" ++ toString w)
  | .sourceExogRelativeStrength => HasInt params "lookback_bars" fun k =>
      Attached F frame.exogColumns params ("relative_strength_" ++ toString k)
  | .sourceExogVolRegime => HasInt params "vol_window" fun w =>
      Attached F frame.exogColumns params ("vol_regime_" ++ toString w)
  | .sourceExogDirectionRegime => HasInt params "lookback_bars" fun k =>
      Attached F frame.exogColumns params ("direction_regime_" ++ toString k)
  | .indMa => HasInt params "period" (1 ≤ ·) ∧ HasStr F params "ma_type" fun name =>
      (validMaTypes.lookup (strip name.toLower)).isSome
  | .indEma | .indRsi | .indAtr => HasInt params "period" (1 ≤ ·)
  | .indMacd => HasInt params "fast_period" (1 ≤ ·) ∧ HasInt params "slow_period" (1 ≤ ·) ∧
      HasInt params "signal_period" (1 ≤ ·)
  | .indBollinger => HasInt params "period" (0 ≤ ·) ∧ HasFloat F params "num_std" fun _ => True
  | .indDonchian => HasInt params "period" (0 ≤ ·)
  | .indMomentum => HasInt params "lookback_bars" fun _ => True
  | .indRealizedVol => HasInt params "window"
      (VolatilityWindow (((params.lookup "estimator").getD (.str "close_to_close")).toStr F))
  | .indTrbChannel => HasInt params "period" (0 ≤ ·) ∧ HasFloat F params "band_pct" fun _ => True
  | .indMaBand => HasFloat F params "band_pct" fun _ => True
  | .indTsmom => HasInt params "lookback_bars" (fun _ => True) ∧
      HasInt params "rebalance_bars" (fun _ => True) ∧ HasInt params "vol_window" fun window =>
        HasStr F params "vol_estimator" fun estimator => VolatilityWindow estimator window
  | .indTrendBlend => HasInt params "lookback_1" (fun _ => True) ∧
      HasInt params "lookback_2" (fun _ => True) ∧ HasInt params "lookback_3" (fun _ => True) ∧
      HasInt params "vol_window" (0 ≤ ·)
  | .indLatent => latents.all (fun l => !l.columns.isEmpty) ∧
      (latents.isSome → Succeeds ((params.lookup "latent_index").getD (.int 0)).toInt)
  | .transformShift => Succeeds ((params.lookup "bars").getD (.int 1)).toInt
  | .transformScale => HasFloat F params "factor" fun _ => True
  | .transformZscore => HasInt params "window" (0 ≤ ·)
  | .transformRank => HasInt params "window" (1 ≤ ·)
  | .transformPctChange => HasInt params "change_bars" (1 ≤ ·)
  | .transformClip => HasFloat F params "clip_low" fun low =>
      HasFloat F params "clip_high" fun high => lt high low = false
  | .featureMinutesFromOpen => HasStr F params "session_open" fun open_ =>
      Succeeds (hhmmToMinutes open_)
  | .featureTimeOfDay => HasStr F params "session_open" fun open_ =>
      HasStr F params "session_close" fun close => HhmmBefore open_ close
  | .featureSessionWindow => HasStr F params "window_from" fun start =>
      HasStr F params "window_to" fun stop => HhmmBefore start stop
  | .featureVolRegime => HasInt params "window" (0 ≤ ·) ∧ HasInt params "regime_lookback" (1 ≤ ·)
  | .featureTrendRegime => HasInt params "ma_period" (0 ≤ ·)
  | .featureRangeCompression => HasInt params "window" (fun _ => True) ∧
      HasInt params "regime_lookback" (1 ≤ ·)
  | .featureDistPrevSessionHighAtr | .featureDistPrevSessionLowAtr
  | .featureDistPrevSessionCloseAtr => HasInt params "atr_period" (1 ≤ ·)
  | .featureOpeningRangeHigh | .featureOpeningRangeLow =>
      HasStr F params "session_open" (fun open_ => Succeeds (hhmmToMinutes open_)) ∧
        HasInt params "range_minutes" fun _ => True
  | .cmpCrossAbove | .cmpCrossBelow => inputCount = 1 →
      Succeeds (((params.lookup "threshold").getD (.float 0)).toFloat : Except Failure F)
  | _ => True

/-! ## Kernels -/

section Kernels

variable {xs : List F}

theorem rollingValue_succeeds {window : ℤ} {agg : List F → F} :
    Succeeds (rollingValue window agg xs) ↔ 0 ≤ window := by
  rw [rollingValue, succeeds_ite_error, not_lt]
  simp

theorem ewmSpan_succeeds {span : ℤ} : Succeeds (ewmSpan span xs) ↔ 1 ≤ span := by
  rw [ewmSpan, succeeds_ite_error, not_lt]
  simp

theorem ewmAlpha_succeeds {period : ℤ} {minPeriods : ℕ} :
    Succeeds (ewmAlpha period minPeriods xs) ↔ 1 ≤ period := by
  rw [ewmAlpha, succeeds_ite_error, succeeds_ite_error]
  simp only [succeeds_ok, and_true]
  omega

theorem hma_succeeds {period : ℤ} (h : 1 ≤ period) : Succeeds (hma period xs) := by
  unfold hma
  refine succeeds_bind.mpr ?_
  obtain ⟨half, hhalf⟩ : Succeeds (wma (max (period / 2) 1) xs) :=
    rollingValue_succeeds.mpr (by omega)
  obtain ⟨full, hfull⟩ : Succeeds (wma period xs) := rollingValue_succeeds.mpr (by omega)
  refine ⟨half, hhalf, succeeds_bind.mpr ⟨full, hfull, ?_⟩⟩
  exact rollingValue_succeeds.mpr (by omega)

theorem computeMa_succeeds {period : ℤ} {maType : MaType} :
    Succeeds (computeMa xs period maType) ↔ 1 ≤ period := by
  unfold computeMa
  rw [succeeds_ite_error, not_lt, and_iff_left_iff_imp]
  intro hperiod
  cases maType with
  | sma => exact rollingValue_succeeds.mpr (by omega)
  | ema => exact ewmSpan_succeeds.mpr hperiod
  | wma => exact rollingValue_succeeds.mpr (by omega)
  | smma => exact ewmAlpha_succeeds.mpr hperiod
  | hma => exact hma_succeeds hperiod

theorem computeRsi_succeeds {period : ℤ} : Succeeds (computeRsi xs period) ↔ 1 ≤ period := by
  unfold computeRsi
  rw [succeeds_bind_of fun _ _ => (succeeds_bind_iff fun _ => succeeds_pure).trans
    ewmAlpha_succeeds, ewmAlpha_succeeds, and_self]

theorem computeAtr_succeeds {high low close : List F} {period : ℤ} :
    Succeeds (computeAtr high low close period) ↔ 1 ≤ period :=
  ewmAlpha_succeeds

theorem computeMacd_succeeds {fast slow signal : ℤ} :
    Succeeds (computeMacd xs fast slow signal) ↔ 1 ≤ fast ∧ 1 ≤ slow ∧ 1 ≤ signal := by
  unfold computeMacd
  rw [succeeds_bind_of fun _ _ => (succeeds_bind_of fun _ _ =>
    (succeeds_bind_iff fun _ => succeeds_pure).trans ewmSpan_succeeds).trans
      (and_congr_left' ewmSpan_succeeds), ewmSpan_succeeds]

theorem computeBollingerBands_succeeds {period : ℤ} {numStd : F} :
    Succeeds (computeBollingerBands xs period numStd) ↔ 0 ≤ period := by
  unfold computeBollingerBands
  rw [succeeds_bind_of fun _ _ => (succeeds_bind_iff fun _ => succeeds_pure).trans
    rollingValue_succeeds, rollingValue_succeeds, and_self]

theorem computeDonchianChannels_succeeds {high low : List F} {period : ℤ} :
    Succeeds (computeDonchianChannels high low period) ↔ 0 ≤ period := by
  unfold computeDonchianChannels
  rw [succeeds_bind_of fun _ _ => (succeeds_bind_iff fun _ => succeeds_pure).trans
    rollingValue_succeeds, rollingValue_succeeds, and_self]

theorem computeRealizedVol_succeeds {window : ℤ} :
    Succeeds (computeRealizedVol xs window) ↔ 0 ≤ window := by
  unfold computeRealizedVol
  rw [succeeds_bind_iff fun _ => succeeds_pure, rollingValue_succeeds]

theorem computeYangZhang_succeeds {opn high low close : List F} {window : ℤ} :
    Succeeds (computeYangZhang opn high low close window) ↔ 0 ≤ window ∧ window ≠ 1 := by
  unfold computeYangZhang
  have hlast : ∀ {y : Except Failure (List F)}, Succeeds y →
      (Succeeds (if window = 1 then .error .zeroDivisionError else y) ↔ window ≠ 1) := by
    intro y hy
    rw [succeeds_ite_error, and_iff_left hy]
  rw [succeeds_bind_of fun _ _ => (succeeds_bind_of fun _ _ => (succeeds_bind_of fun _ _ =>
    hlast succeeds_pure).trans (and_congr_left' rollingValue_succeeds)).trans
      (and_congr_left' rollingValue_succeeds), rollingValue_succeeds]
  tauto

theorem computeRollingZscore_succeeds {window : ℤ} :
    Succeeds (computeRollingZscore xs window) ↔ 0 ≤ window := by
  unfold computeRollingZscore
  rw [succeeds_bind_of fun _ _ => (succeeds_bind_iff fun _ => succeeds_pure).trans
    rollingValue_succeeds, rollingValue_succeeds, and_self]

theorem computeRollingRank_succeeds {window : ℤ} (h : xs ≠ []) :
    Succeeds (computeRollingRank xs window) ↔ 1 ≤ window := by
  rw [computeRollingRank, succeeds_ite_error]
  simp only [h, ne_eq, not_false_eq_true, and_true, succeeds_ok]
  omega

theorem computePctChange_succeeds {changeBars : ℤ} :
    Succeeds (computePctChange xs changeBars) ↔ 1 ≤ changeBars := by
  rw [computePctChange, succeeds_ite_error, not_lt]
  simp

theorem computeClip_succeeds {low high : F} :
    Succeeds (computeClip xs low high) ↔ lt high low = false := by
  rw [computeClip, succeeds_ite_error]
  simp

theorem computeTrbChannel_succeeds {period : ℤ} {bandPct : F} :
    Succeeds (computeTrbChannel xs period bandPct) ↔ 0 ≤ period := by
  unfold computeTrbChannel
  rw [succeeds_bind_of fun _ _ => (succeeds_bind_iff fun _ => succeeds_pure).trans
    rollingValue_succeeds, rollingValue_succeeds, and_self]

end Kernels

/-! ## As many values as rows -/

def Column.length : Column F → ℕ
  | .numbers xs => xs.length
  | .bools bs => bs.length

@[simp] theorem Column.length_values (column : Column F) : column.values.length = column.length := by
  cases column with
  | numbers xs => rfl
  | bools bs => exact List.length_map _

@[simp] theorem Column.length_flags (column : Column F) : column.flags.length = column.length := by
  cases column with
  | numbers xs => exact List.length_map _
  | bools bs => rfl

section Lengths

variable {xs high low close opn : List F} {n : ℕ}

theorem length_zipWith {α β γ : Type} {f : α → β → γ} {xs : List α} {ys : List β}
    (hx : xs.length = n) (hy : ys.length = n) : (List.zipWith f xs ys).length = n := by
  rw [List.length_zipWith, hx, hy, Nat.min_self]

theorem length_zip {α β : Type} {xs : List α} {ys : List β} (hx : xs.length = n)
    (hy : ys.length = n) : (List.zip xs ys).length = n :=
  length_zipWith hx hy

theorem length_previous (hx : xs.length = n) : (previous xs).length = n :=
  (length_shift _ _ xs).trans hx

theorem length_relativeChange (lookback : ℤ) (hx : xs.length = n) :
    (relativeChange lookback xs).length = n :=
  length_zipWith hx ((length_shift _ _ xs).trans hx)

theorem rollingValue_length {window : ℤ} {agg : List F → F} (hx : xs.length = n) :
    Returns (rollingValue window agg xs) fun ys => ys.length = n := by
  unfold rollingValue
  split
  · exact returns_error
  · exact returns_ok ((length_rolling _ _ xs).trans hx)

theorem ewmSpan_length {span : ℤ} (hx : xs.length = n) :
    Returns (ewmSpan span xs) fun ys => ys.length = n := by
  unfold ewmSpan
  split
  · exact returns_error
  · exact returns_ok ((length_scan _ _ xs).trans hx)

theorem ewmAlpha_length {period : ℤ} {minPeriods : ℕ} (hx : xs.length = n) :
    Returns (ewmAlpha period minPeriods xs) fun ys => ys.length = n := by
  unfold ewmAlpha
  split
  · exact returns_error
  · split
    · exact returns_error
    · exact returns_ok ((length_scan _ _ xs).trans hx)

theorem hma_length {period : ℤ} (hx : xs.length = n) :
    Returns (hma period xs) fun ys => ys.length = n :=
  returns_seq (rollingValue_length hx) fun _ hhalf => returns_seq (rollingValue_length hx)
    fun _ hfull => rollingValue_length (length_zipWith hhalf hfull)

theorem computeMa_length {period : ℤ} {maType : MaType} (hx : xs.length = n) :
    Returns (computeMa xs period maType) fun ys => ys.length = n := by
  unfold computeMa
  split
  · exact returns_error
  · cases maType with
    | sma => exact rollingValue_length hx
    | ema => exact ewmSpan_length hx
    | wma => exact rollingValue_length hx
    | smma => exact ewmAlpha_length hx
    | hma => exact hma_length hx

theorem computeRsi_length {period : ℤ} (hx : xs.length = n) :
    Returns (computeRsi xs period) fun ys => ys.length = n := by
  have hdelta : (List.zipWith sub xs (previous xs)).length = n :=
    length_zipWith hx (length_previous hx)
  refine returns_seq (ewmAlpha_length ((List.length_map _).trans hdelta)) fun _ hgain => ?_
  refine returns_seq (ewmAlpha_length ((List.length_map _).trans hdelta)) fun _ hloss => ?_
  exact returns_pure (length_zipWith hgain hloss)

theorem computeAtr_length {period : ℤ} (hh : high.length = n) (hl : low.length = n)
    (hc : close.length = n) :
    Returns (computeAtr high low close period) fun ys => ys.length = n :=
  ewmAlpha_length (length_zipWith (length_zip hh hl) (length_previous hc))

theorem computeMacd_length {fast slow signal : ℤ} (hx : xs.length = n) :
    Returns (computeMacd xs fast slow signal) fun macd =>
      macd.1.length = n ∧ macd.2.1.length = n ∧ macd.2.2.length = n := by
  refine returns_seq (ewmSpan_length hx) fun _ hfast => ?_
  refine returns_seq (ewmSpan_length hx) fun _ hslow => ?_
  refine returns_seq (ewmSpan_length (length_zipWith hfast hslow)) fun _ hsignal => ?_
  exact returns_pure ⟨length_zipWith hfast hslow, hsignal,
    length_zipWith (length_zipWith hfast hslow) hsignal⟩

theorem computeBollingerBands_length {period : ℤ} {numStd : F} (hx : xs.length = n) :
    Returns (computeBollingerBands xs period numStd) fun bands =>
      bands.1.length = n ∧ bands.2.1.length = n ∧ bands.2.2.length = n := by
  refine returns_seq (rollingValue_length hx) fun _ hmiddle => ?_
  refine returns_seq (rollingValue_length hx) fun _ hdeviation => ?_
  exact returns_pure ⟨length_zipWith hmiddle hdeviation, hmiddle,
    length_zipWith hmiddle hdeviation⟩

theorem computeDonchianChannels_length {period : ℤ} (hh : high.length = n) (hl : low.length = n) :
    Returns (computeDonchianChannels high low period) fun channel =>
      channel.1.length = n ∧ channel.2.length = n := by
  refine returns_seq (rollingValue_length hh) fun _ hupper => ?_
  refine returns_seq (rollingValue_length hl) fun _ hlower => ?_
  exact returns_pure ⟨length_previous hupper, length_previous hlower⟩

theorem computeRealizedVol_length {window : ℤ} (hx : xs.length = n) :
    Returns (computeRealizedVol xs window) fun ys => ys.length = n := by
  refine returns_seq (rollingValue_length (length_zipWith hx (length_previous hx))) fun _ hy => ?_
  exact returns_pure ((List.length_map _).trans hy)

theorem computeYangZhang_length {window : ℤ} (ho : opn.length = n) (hh : high.length = n)
    (hl : low.length = n) (hc : close.length = n) :
    Returns (computeYangZhang opn high low close window) fun ys => ys.length = n := by
  unfold computeYangZhang
  refine returns_seq (rollingValue_length (length_zipWith ho (length_previous hc))) fun _ ha => ?_
  refine returns_seq (rollingValue_length (length_zipWith ho hc)) fun _ hb => ?_
  refine returns_seq (rollingValue_length (length_zipWith (length_zip ho hh) (length_zip hl hc)))
    fun _ hr => ?_
  split
  · exact returns_error
  · exact returns_pure (length_zipWith (length_zip ha hb) hr)

theorem computeRollingZscore_length {window : ℤ} (hx : xs.length = n) :
    Returns (computeRollingZscore xs window) fun ys => ys.length = n := by
  refine returns_seq (rollingValue_length hx) fun _ hcentre => ?_
  refine returns_seq (rollingValue_length hx) fun _ hdeviation => ?_
  exact returns_pure (length_zipWith hx (length_zip hcentre hdeviation))

theorem computeRollingRank_length {window : ℤ} (hx : xs.length = n) :
    Returns (computeRollingRank xs window) fun ys => ys.length = n := by
  unfold computeRollingRank
  split
  · exact returns_error
  · exact returns_ok ((length_trailing _ xs).trans hx)

theorem computePctChange_length {changeBars : ℤ} (hx : xs.length = n) :
    Returns (computePctChange xs changeBars) fun ys => ys.length = n := by
  unfold computePctChange
  split
  · exact returns_error
  · exact returns_ok (length_relativeChange changeBars hx)

theorem computeClip_length {lowest highest : F} (hx : xs.length = n) :
    Returns (computeClip xs lowest highest) fun ys => ys.length = n := by
  unfold computeClip
  split
  · exact returns_error
  · exact returns_ok ((List.length_map _).trans hx)

theorem computeTrbChannel_length {period : ℤ} {bandPct : F} (hx : xs.length = n) :
    Returns (computeTrbChannel xs period bandPct) fun channel => channel.1.length = n ∧
      channel.2.1.length = n ∧ channel.2.2.1.length = n ∧ channel.2.2.2.length = n := by
  refine returns_seq (rollingValue_length (length_previous hx)) fun _ hhigh => ?_
  refine returns_seq (rollingValue_length (length_previous hx)) fun _ hlow => ?_
  exact returns_pure ⟨hhigh, hlow, (List.length_map _).trans hhigh,
    (List.length_map _).trans hlow⟩

theorem computeVolRegime_length {window lookback : ℤ} (hx : xs.length = n) :
    Returns (computeVolRegime xs window lookback) fun ys => ys.length = n :=
  returns_seq (computeRealizedVol_length hx) fun _ hvol => computeRollingRank_length hvol

theorem computeTrendRegime_length {period : ℤ} (hx : xs.length = n) :
    Returns (computeTrendRegime xs period) fun ys => ys.length = n := by
  refine returns_seq (rollingValue_length hx) fun _ hma => ?_
  refine returns_seq (computeRealizedVol_length hx) fun _ hvol => ?_
  exact returns_pure (length_zipWith hx (length_zip hma hvol))

theorem computeRangeCompression_length {lookback : ℤ} (hh : high.length = n) (hl : low.length = n)
    (hc : close.length = n) :
    Returns (computeRangeCompression high low close lookback) fun ys => ys.length = n :=
  returns_seq (computeAtr_length hh hl hc) fun _ hatr =>
    computeRollingRank_length (length_zipWith (length_zip hh hl) hatr)

theorem computeDistanceAtr_length {level : List F} {period : ℤ} (hc : close.length = n)
    (hlevel : level.length = n) (hh : high.length = n) (hl : low.length = n) :
    Returns (computeDistanceAtr close level high low period) fun ys => ys.length = n :=
  returns_seq (computeAtr_length hh hl hc) fun _ hatr =>
    returns_pure (length_zipWith (length_zip hc hlevel) hatr)

end Lengths

end QBackend.GenomeDsl
