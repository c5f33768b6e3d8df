import QBackend.StrategyEvaluator
import QBackend.FallibleSteps

/-!
# What a call of the evaluator keeps and what it returns

An evaluation moves the watermark, the exit state and the strategy object. Everything else is
kept, the open trade in particular.
-/

namespace QBackend.Execution

open FallibleSteps

variable {S : Type} {strategy : TradingStrategy S} {ev : Evaluator S}

/-! ## The rows of an indicator frame -/

/-- The contract of `compute_indicators`: the input, augmented with columns. -/
def TradingStrategy.KeepsRows (strategy : TradingStrategy S) : Prop :=
  ∀ s bars frame, (strategy.computeIndicators s bars).2 = .ok frame → frame.bars = bars

theorem addDonchian_bars (frame : IndicatorFrame) (period : ℤ) :
    (addDonchian frame period).bars = frame.bars := by
  unfold addDonchian
  dsimp only
  split <;> rfl

theorem foldl_addDonchian_bars (periods : List ℤ) (frame : IndicatorFrame) :
    (periods.foldl addDonchian frame).bars = frame.bars := by
  induction periods generalizing frame with
  | nil => rfl
  | cons period rest ih => exact (ih _).trans (addDonchian_bars frame period)

theorem addAtr_bars {frame frame' : IndicatorFrame} {period : ℤ}
    (h : addAtr frame period = .ok frame') : frame'.bars = frame.bars := by
  unfold addAtr at h
  split at h
  · cases h
  · split at h
    · cases h
    · cases h
      rfl

theorem completeColumns_bars {p : ExitParams} {frame frame' : IndicatorFrame}
    (h : completeColumns p frame = .ok frame') : frame'.bars = frame.bars := by
  simp only [completeColumns, bind_eq_ok, pure_eq_ok] at h
  obtain ⟨mid, hmid, rfl⟩ := h
  rw [foldl_addDonchian_bars]
  refine foldlM_invariant (fun f : IndicatorFrame => f.bars = frame.bars) ?_ rfl hmid
  intro f column f' _ hf hstep
  cases column with
  | atr period => exact (addAtr_bars hstep).trans hf
  | donchianHigh period =>
    cases hstep
    exact hf
  | donchianLow period =>
    cases hstep
    exact hf

theorem TradingStrategy.KeepsRows.augment (h : strategy.KeepsRows) {s : S} {bars : List Bar}
    {frame : IndicatorFrame} (hf : (augmentIndicatorFrame strategy s bars).2 = .ok frame) :
    frame.bars = bars := by
  simp only [augmentIndicatorFrame] at hf
  cases hchunk : (strategy.computeIndicators s bars).2 with
  | error e =>
    rw [hchunk] at hf
    cases hf
  | ok chunk =>
    rw [hchunk] at hf
    exact (completeColumns_bars hf).trans (h s bars chunk hchunk)

theorem IndicatorFrame.loc_isSome {frame : IndicatorFrame} {t : Time}
    (h : t ∈ frame.bars.map Bar.openTime) : (frame.loc t).isSome := by
  obtain ⟨bar, hbar, rfl⟩ := List.mem_map.mp h
  obtain ⟨i, hi, rfl⟩ := List.mem_iff_getElem.mp hbar
  have hrow : frame.row frame.bars[i] i ∈ frame.rows := by
    rw [rows, List.mem_mapIdx]
    exact ⟨i, hi, rfl⟩
  rw [loc, List.getLast?_isSome]
  refine List.ne_nil_of_mem (List.mem_filter.mpr ⟨hrow, ?_⟩)
  simp [row]

/-! ## What is kept -/

/-- The evaluator without the parts that an evaluation moves. -/
def Evaluator.setting (ev : Evaluator S) : String × String × ℕ × List Bar × Option Trade × Bool :=
  (ev.symbol, ev.timeframe, ev.windowBound, ev.rolling, ev.openTrade, ev.replayMode)

namespace Evaluator

theorem evaluateRow_setting (strategy : TradingStrategy S) (ev : Evaluator S) (row : BarRow) (t : Time) :
    (ev.evaluateRow strategy row t).1.setting = ev.setting := by
  unfold evaluateRow
  dsimp only
  split
  · rfl
  · split <;> rfl

theorem evaluateBars_setting (strategy : TradingStrategy S) (ev : Evaluator S) (duration : Time)
    (throughClose : Option Time) (bars : List Bar) :
    (ev.evaluateBars strategy duration throughClose bars).1.setting = ev.setting := by
  induction bars generalizing ev with
  | nil => rfl
  | cons bar rest ih =>
    unfold evaluateBars
    dsimp only
    split
    · rfl
    · split
      · exact ih _
      · split
        · rfl
        · split
          · exact ih _
          next row _ =>
            have hrow := evaluateRow_setting strategy { ev with
              strategy := (augmentIndicatorFrame strategy ev.strategy ev.rolling).1 } row
              (bar.closeTime duration)
            split
            next ev' e heq =>
              rw [heq] at hrow
              exact hrow
            next ev' result heq =>
              rw [heq] at hrow
              exact (ih _).trans hrow

/-- The setting without the rolling window. -/
def identity (ev : Evaluator S) : String × String × ℕ × Option Trade × Bool :=
  (ev.symbol, ev.timeframe, ev.windowBound, ev.openTrade, ev.replayMode)

theorem ingestCompletedBars_identity (strategy : TradingStrategy S) (ev : Evaluator S)
    (frame : List Bar) (throughClose : Option Time) :
    (ev.ingestCompletedBars strategy frame throughClose).1.identity = ev.identity := by
  unfold ingestCompletedBars
  dsimp only
  split
  · rfl
  · split
    · rfl
    next duration _ =>
      have hsetting := evaluateBars_setting strategy { ev with
        rolling := mergeWindow ev.rolling (sortIndex frame) ev.windowBound } duration throughClose
        (sortIndex frame)
      simp only [setting, Prod.mk.injEq] at hsetting
      obtain ⟨h₁, h₂, h₃, -, h₅, h₆⟩ := hsetting
      simp only [identity, h₁, h₂, h₃, h₅, h₆]

theorem ingestCompletedBars_openTrade (strategy : TradingStrategy S) (ev : Evaluator S)
    (frame : List Bar) (throughClose : Option Time) :
    (ev.ingestCompletedBars strategy frame throughClose).1.openTrade = ev.openTrade :=
  congrArg (fun x => x.2.2.2.1) (ingestCompletedBars_identity strategy ev frame throughClose)

/-! ## Which bars get a result -/

/-- The watermark and the flags of one evaluated row. -/
theorem evaluateRow_ok {row : BarRow} {t : Time} {ev' : Evaluator S}
    {result : ForwardDecisionResult} (hmode : ev.replayMode = false)
    (h : ev.evaluateRow strategy row t = (ev', .ok result)) :
    result.barCloseTime = t ∧ ev'.lastEvaluatedClose = some t ∧
      (result.emitsDecision = true ∨ ev.lastEvaluatedClose = some t) := by
  unfold evaluateRow at h
  simp only [hmode, Bool.not_false, Bool.true_and] at h
  split at h
  · cases h
  next r hr =>
    simp only [bind_eq_ok, pure_eq_ok] at hr
    obtain ⟨queued, -, quantity, -, rfl⟩ := hr
    simp only [Prod.mk.injEq, Except.ok.injEq] at h
    obtain ⟨hev, rfl⟩ := h
    by_cases hdup : ev.lastEvaluatedClose = some t
    · refine ⟨rfl, ?_, .inr hdup⟩
      rw [← hev]
      simp [hdup]
    · refine ⟨rfl, ?_, .inl ?_⟩
      · rw [← hev]
        simp [hdup]
      · simp [ForwardDecisionResult.emitsDecision, hdup]

/-- Every bar of the loop that lies in the window gets a result that emits a decision, unless its
close is the watermark already. -/
theorem evaluateBars_covers (hkeeps : strategy.KeepsRows) {duration : Time} {bars : List Bar}
    {ev' : Evaluator S} {results : List ForwardDecisionResult} (hmode : ev.replayMode = false)
    (hsorted : bars.Pairwise (fun a b => a.openTime ≤ b.openTime))
    (hafter : ∀ b ∈ bars, ∀ t ∈ ev.lastEvaluatedClose, t ≤ b.closeTime duration)
    (hfits : ∀ b ∈ bars, b.openTime ∈ ev.rolling.map Bar.openTime)
    (h : ev.evaluateBars strategy duration none bars = (ev', .ok results)) :
    ∀ b ∈ bars, (∃ result ∈ results, result.barCloseTime = b.closeTime duration ∧
      result.emitsDecision = true) ∨ ev.lastEvaluatedClose = some (b.closeTime duration) := by
  induction bars generalizing ev ev' results with
  | nil => simp
  | cons bar rest ih =>
    have hnotOlder : ev.lastEvaluatedClose.any (fun t => bar.closeTime duration < t) = false := by
      cases hlast : ev.lastEvaluatedClose with
      | none => rfl
      | some t =>
        have := hafter bar (by simp) t hlast
        simpa using this
    unfold evaluateBars at h
    simp only [Option.any_none, Bool.false_eq_true, if_false, hnotOlder] at h
    split at h
    · cases h
    next frame hframe =>
      have hbars : frame.bars = ev.rolling := hkeeps.augment hframe
      have hloc : (frame.loc bar.openTime).isSome :=
        IndicatorFrame.loc_isSome (by rw [hbars]; exact hfits bar (by simp))
      split at h
      next hnone => simp [hnone] at hloc
      next row _ =>
        have hsetting := evaluateRow_setting strategy { ev with
          strategy := (augmentIndicatorFrame strategy ev.strategy ev.rolling).1 } row
          (bar.closeTime duration)
        split at h
        · cases h
        next ev₁ result heq =>
          rw [heq] at hsetting
          simp only [setting, Prod.mk.injEq] at hsetting
          obtain ⟨hclose, hwatermark, hemits⟩ := evaluateRow_ok (by exact hmode) heq
          -- The rest of the loop starts at the watermark of this bar.
          cases hrest : ev₁.evaluateBars strategy duration none rest with
          | mk ev₂ results₂ =>
            rw [hrest] at h
            cases results₂ with
            | error e => cases h
            | ok results₂ =>
              simp only [Except.map, Prod.mk.injEq, Except.ok.injEq] at h
              obtain ⟨-, rfl⟩ := h
              have hself : (∃ x ∈ result :: results₂, x.barCloseTime = bar.closeTime duration ∧
                  x.emitsDecision = true) ∨ ev.lastEvaluatedClose = some (bar.closeTime duration) := by
                rcases hemits with hemits | hdup
                · exact .inl ⟨result, by simp, hclose, hemits⟩
                · exact .inr hdup
              have hordered := List.pairwise_cons.mp hsorted
              have hcover := ih (hsetting.2.2.2.2.2.trans hmode) hordered.2
                (by
                  intro b hb t ht
                  rw [hwatermark, Option.mem_some_iff] at ht
                  have hle : bar.openTime ≤ b.openTime := hordered.1 b hb
                  rw [← ht]
                  exact Int.add_le_add_right hle duration)
                (fun b hb => by rw [hsetting.2.2.2.1]; exact hfits b (by simp [hb])) hrest
              intro b hb
              rcases List.mem_cons.mp hb with rfl | hb
              · exact hself
              · rcases hcover b hb with ⟨x, hx, hxb⟩ | hsame
                · exact .inl ⟨x, by simp [hx], hxb⟩
                · rw [hwatermark, Option.some.injEq] at hsame
                  rw [← hsame]
                  exact hself

theorem pairwise_sortIndex (bars : List Bar) :
    (sortIndex bars).Pairwise (fun a b => a.openTime ≤ b.openTime) :=
  List.pairwise_insertionSort _ _

theorem ingestCompletedBars_covers (hkeeps : strategy.KeepsRows) {bars : List Bar}
    {ev' : Evaluator S} {results : List ForwardDecisionResult} {duration : Time}
    (hmode : ev.replayMode = false) (hduration : barDuration ev.timeframe = .ok duration)
    (hnew : ∀ b ∈ bars, ∀ t ∈ ev.lastEvaluatedClose, t < b.closeTime duration)
    (hfits : ∀ b ∈ bars,
      b.openTime ∈ (mergeWindow ev.rolling (sortIndex bars) ev.windowBound).map Bar.openTime)
    (h : ev.ingestCompletedBars strategy bars = (ev', .ok results)) :
    ∀ b ∈ bars, ∃ result ∈ results, result.barCloseTime = b.closeTime duration ∧
      result.emitsDecision = true := by
  unfold ingestCompletedBars at h
  split at h
  next hempty => simp [hempty]
  · simp only [hduration] at h
    have hcover := evaluateBars_covers hkeeps (by exact hmode) (pairwise_sortIndex bars)
      (by exact fun b hb t ht => (hnew b (mem_sortIndex.mp hb) t ht).le)
      (by exact fun b hb => hfits b (mem_sortIndex.mp hb)) h
    intro b hb
    rcases hcover b (mem_sortIndex.mpr hb) with hresult | hsame
    · exact hresult
    · exact absurd (hnew b hb _ hsame) (lt_irrefl _)

end Evaluator

end QBackend.Execution
