import QBackend.IndicatorKernels
import QBackend.FallibleSteps

/-!
# Indicator kernels do not look ahead

For each kernel: what it gives for a series cut after `n` rows is what it gives for the series, cut
after `n` rows, exceptions included. A change over a number of bars needs that number to be at
least zero.
-/

namespace QBackend.GenomeDsl

open CausalSeries PriceFloat FallibleSteps

variable {F : Type} [PriceFloat F]

/-- The kernel gives for the first `n` rows the first `n` rows of what it gives. -/
abbrev Cuts (n : ℕ) (x y : Except Failure (List F)) : Prop := MapsTo (List.take n) x y

/-! ## Series without exceptions -/

theorem zip_take {α β : Type*} (n : ℕ) (xs : List α) (ys : List β) :
    List.zip (xs.take n) (ys.take n) = (List.zip xs ys).take n :=
  List.take_zipWith.symm

theorem previous_take (n : ℕ) (xs : List F) : previous (xs.take n) = (previous xs).take n :=
  shift_causal nan (by decide) n xs

theorem relativeChange_take {lookback : ℤ} (h : 0 ≤ lookback) (n : ℕ) (xs : List F) :
    relativeChange lookback (xs.take n) = (relativeChange lookback xs).take n := by
  unfold relativeChange
  rw [shift_causal nan h n xs, zipWith_take]

theorem trueRange_take (n : ℕ) (high low close : List F) :
    trueRange (high.take n) (low.take n) (close.take n) = (trueRange high low close).take n := by
  unfold trueRange
  rw [previous_take, zip_take, zipWith_take]

theorem logReturns_take (n : ℕ) (xs : List F) :
    logReturns (xs.take n) = (logReturns xs).take n := by
  unfold logReturns
  rw [previous_take, zipWith_take]

theorem rogersSatchell_take (n : ℕ) (opn high low close : List F) :
    rogersSatchell (opn.take n) (high.take n) (low.take n) (close.take n) =
      (rogersSatchell opn high low close).take n := by
  unfold rogersSatchell
  rw [zip_take, zip_take, zipWith_take]

/-! ## Rolling values and averages -/

theorem rollingValue_cuts (n : ℕ) (window : ℤ) (agg : List F → F) (xs : List F) :
    Cuts n (rollingValue window agg xs) (rollingValue window agg (xs.take n)) := by
  unfold rollingValue
  exact mapsTo_ite mapsTo_error (mapsTo_ok (rolling_causal _ _ n xs))

theorem ewmMean_take (alpha : ℚ) (minPeriods n : ℕ) (xs : List F) :
    ewmMean alpha minPeriods (xs.take n) = (ewmMean alpha minPeriods xs).take n :=
  scan_causal _ _ n xs

theorem ewmSpan_cuts (n : ℕ) (span : ℤ) (xs : List F) :
    Cuts n (ewmSpan span xs) (ewmSpan span (xs.take n)) := by
  unfold ewmSpan
  exact mapsTo_ite mapsTo_error (mapsTo_ok (ewmMean_take _ _ n xs))

theorem ewmAlpha_cuts (n : ℕ) (period : ℤ) (minPeriods : ℕ) (xs : List F) :
    Cuts n (ewmAlpha period minPeriods xs) (ewmAlpha period minPeriods (xs.take n)) := by
  unfold ewmAlpha
  exact mapsTo_ite mapsTo_error
    (mapsTo_ite mapsTo_error (mapsTo_ok (ewmMean_take _ _ n xs)))

theorem wma_cuts (n : ℕ) (period : ℤ) (xs : List F) :
    Cuts n (wma period xs) (wma period (xs.take n)) :=
  rollingValue_cuts n period _ xs

theorem hma_cuts (n : ℕ) (period : ℤ) (xs : List F) :
    Cuts n (hma period xs) (hma period (xs.take n)) := by
  unfold hma
  refine mapsTo_bind (wma_cuts n _ xs) fun half => ?_
  refine mapsTo_bind (wma_cuts n _ xs) fun full => ?_
  rw [zipWith_take]
  exact wma_cuts n _ _

theorem computeMa_cuts (n : ℕ) (xs : List F) (period : ℤ) (maType : MaType) :
    Cuts n (computeMa xs period maType) (computeMa (xs.take n) period maType) := by
  unfold computeMa
  refine mapsTo_ite mapsTo_error ?_
  cases maType with
  | sma => exact rollingValue_cuts n period mean xs
  | ema => exact ewmSpan_cuts n period xs
  | wma => exact wma_cuts n period xs
  | smma => exact ewmAlpha_cuts n period 0 xs
  | hma => exact hma_cuts n period xs

/-! ## Indicators -/

theorem computeRsi_cuts (n : ℕ) (close : List F) (period : ℤ) :
    Cuts n (computeRsi close period) (computeRsi (close.take n) period) := by
  unfold computeRsi
  simp only [previous_take, zipWith_take, List.map_take]
  refine mapsTo_bind (ewmAlpha_cuts n period _ _) fun gain => ?_
  refine mapsTo_bind (ewmAlpha_cuts n period _ _) fun loss => ?_
  exact mapsTo_pure (zipWith_take _ n gain loss)

theorem computeAtr_cuts (n : ℕ) (high low close : List F) (period : ℤ) :
    Cuts n (computeAtr high low close period)
      (computeAtr (high.take n) (low.take n) (close.take n) period) := by
  unfold computeAtr
  rw [trueRange_take]
  exact ewmAlpha_cuts n period _ _

theorem computeMacd_cuts (n : ℕ) (close : List F) (fast slow signal : ℤ) :
    MapsTo (fun p => (p.1.take n, p.2.1.take n, p.2.2.take n))
      (computeMacd close fast slow signal) (computeMacd (close.take n) fast slow signal) := by
  unfold computeMacd
  refine mapsTo_bind (ewmSpan_cuts n fast close) fun fastEma => ?_
  refine mapsTo_bind (ewmSpan_cuts n slow close) fun slowEma => ?_
  simp only [zipWith_take]
  refine mapsTo_bind (ewmSpan_cuts n signal _) fun signalLine => ?_
  exact mapsTo_pure (by simp only [zipWith_take])

theorem computeBollingerBands_cuts (n : ℕ) (close : List F) (period : ℤ) (numStd : F) :
    MapsTo (fun p => (p.1.take n, p.2.1.take n, p.2.2.take n))
      (computeBollingerBands close period numStd)
      (computeBollingerBands (close.take n) period numStd) := by
  unfold computeBollingerBands
  refine mapsTo_bind (rollingValue_cuts n period mean close) fun middle => ?_
  refine mapsTo_bind (rollingValue_cuts n period std close) fun deviation => ?_
  exact mapsTo_pure (by simp only [zipWith_take])

theorem computeDonchianChannels_cuts (n : ℕ) (high low : List F) (period : ℤ) :
    MapsTo (fun p => (p.1.take n, p.2.take n)) (computeDonchianChannels high low period)
      (computeDonchianChannels (high.take n) (low.take n) period) := by
  unfold computeDonchianChannels
  refine mapsTo_bind (rollingValue_cuts n period largest high) fun upper => ?_
  refine mapsTo_bind (rollingValue_cuts n period smallest low) fun lower => ?_
  exact mapsTo_pure (by simp only [previous_take])

theorem computeRealizedVol_cuts (n : ℕ) (close : List F) (window : ℤ) :
    Cuts n (computeRealizedVol close window) (computeRealizedVol (close.take n) window) := by
  unfold computeRealizedVol
  rw [logReturns_take]
  refine mapsTo_bind (rollingValue_cuts n window std _) fun deviation => ?_
  exact mapsTo_pure List.map_take

theorem computeYangZhang_cuts (n : ℕ) (opn high low close : List F) (window : ℤ) :
    Cuts n (computeYangZhang opn high low close window)
      (computeYangZhang (opn.take n) (high.take n) (low.take n) (close.take n) window) := by
  unfold computeYangZhang
  simp only [previous_take, zipWith_take, rogersSatchell_take]
  refine mapsTo_bind (rollingValue_cuts n window variance _) fun overnight => ?_
  refine mapsTo_bind (rollingValue_cuts n window variance _) fun openClose => ?_
  refine mapsTo_bind (rollingValue_cuts n window mean _) fun meanRs => ?_
  refine mapsTo_ite mapsTo_error (mapsTo_pure ?_)
  rw [zip_take, zipWith_take]

/-! ## Transforms -/

theorem computeRollingZscore_cuts (n : ℕ) (xs : List F) (window : ℤ) :
    Cuts n (computeRollingZscore xs window) (computeRollingZscore (xs.take n) window) := by
  unfold computeRollingZscore
  refine mapsTo_bind (rollingValue_cuts n window mean xs) fun centre => ?_
  refine mapsTo_bind (rollingValue_cuts n window std xs) fun deviation => ?_
  refine mapsTo_pure ?_
  rw [zip_take, zipWith_take]

/-- Without rows the loop does not run, so an empty window is not noticed. -/
theorem computeRollingRank_cuts {n : ℕ} (hn : 0 < n) (xs : List F) (window : ℤ) :
    Cuts n (computeRollingRank xs window) (computeRollingRank (xs.take n) window) := by
  have hnil : (window ≤ 0 ∧ xs.take n ≠ []) ↔ (window ≤ 0 ∧ xs ≠ []) := by
    simp only [ne_eq, List.take_eq_nil_iff]
    constructor
    · rintro ⟨hw, hx⟩
      exact ⟨hw, fun h => hx (.inr h)⟩
    · rintro ⟨hw, hx⟩
      refine ⟨hw, fun h => ?_⟩
      rcases h with h | h
      · omega
      · exact hx h
  unfold computeRollingRank
  simp only [hnil]
  exact mapsTo_ite mapsTo_error (mapsTo_ok (trailing_causal _ n xs))

theorem computePctChange_cuts (n : ℕ) (xs : List F) (changeBars : ℤ) :
    Cuts n (computePctChange xs changeBars) (computePctChange (xs.take n) changeBars) := by
  unfold computePctChange
  by_cases h : changeBars < 1
  · simp only [if_pos h]
    exact mapsTo_error
  · simp only [if_neg h]
    exact mapsTo_ok (relativeChange_take (by omega) n xs)

theorem computeClip_cuts (n : ℕ) (xs : List F) (low high : F) :
    Cuts n (computeClip xs low high) (computeClip (xs.take n) low high) := by
  unfold computeClip
  exact mapsTo_ite mapsTo_error (mapsTo_ok List.map_take)

theorem computeTrbChannel_cuts (n : ℕ) (close : List F) (period : ℤ) (bandPct : F) :
    MapsTo (fun p => (p.1.take n, p.2.1.take n, p.2.2.1.take n, p.2.2.2.take n))
      (computeTrbChannel close period bandPct)
      (computeTrbChannel (close.take n) period bandPct) := by
  unfold computeTrbChannel
  rw [previous_take]
  refine mapsTo_bind (rollingValue_cuts n period largest _) fun high => ?_
  refine mapsTo_bind (rollingValue_cuts n period smallest _) fun low => ?_
  exact mapsTo_pure (by simp only [List.map_take])

end QBackend.GenomeDsl
