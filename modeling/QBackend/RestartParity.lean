import QBackend.EvaluatorPosition
import QBackend.RollingWindow

/-!
# Restart parity

After a restart `build_runtime` fetches one bar before the watermark and replays it. What an
evaluator had besides that bar is lost: the rest of its window and the state of its exit rules.
An evaluator whose decisions need neither goes on as if nothing had happened.
-/

namespace QBackend.Execution

open FallibleSteps

/-! ## The fetch of a restart -/

/-- The contract of `get_ohlcv`: the completed bars of the history from the start on, and perhaps
bars that are still forming. -/
def OhlcvProvider.Serves (provider : OhlcvProvider) (key : BarStreamKey) (history : List Bar)
    (duration : Time) : Prop :=
  ∀ start stop, ∃ forming, (∀ b ∈ forming, stop < Bar.closeTime b duration) ∧
    provider key start stop = .ok (history.filter (fun b =>
      start ≤ b.openTime ∧ b.closeTime duration ≤ stop) ++ forming)

theorem filter_dropFormingBar (bars : List Bar) (duration now : Time) :
    (dropFormingBar bars duration now).filter (fun b => b.closeTime duration ≤ now) =
      bars.filter (fun b => b.closeTime duration ≤ now) := by
  unfold dropFormingBar
  split
  · rfl
  next last hlast =>
    split
    · rfl
    next hforming =>
      obtain ⟨front, rfl⟩ : ∃ front, bars = front ++ [last] :=
        ⟨bars.dropLast, (List.dropLast_append_getLast? last hlast).symm⟩
      rw [List.dropLast_concat, List.filter_append]
      have hdropped : [last].filter (fun b => b.closeTime duration ≤ now) = [] := by
        simpa [isBarComplete] using hforming
      rw [hdropped, List.append_nil]

/-- Sorting a fetch and dropping what is still forming leaves the completed bars. -/
theorem filter_sortIndex {complete forming : List Bar} {duration now : Time}
    (hordered : Ordered complete) (hcomplete : ∀ b ∈ complete, b.closeTime duration ≤ now)
    (hforming : ∀ b ∈ forming, now < b.closeTime duration) :
    (sortIndex (complete ++ forming)).filter (fun b => b.closeTime duration ≤ now) = complete := by
  have hperm : ((sortIndex (complete ++ forming)).filter (fun b => b.closeTime duration ≤ now)).Perm
      complete := by
    refine ((List.perm_insertionSort _ _).filter _).trans ?_
    rw [List.filter_append, List.filter_eq_self.mpr (by simpa using hcomplete),
      List.filter_eq_nil_iff.mpr (by simpa using hforming), List.append_nil]
  have hsorted := (Evaluator.pairwise_sortIndex (complete ++ forming)).filter
    (fun b => b.closeTime duration ≤ now)
  refine hperm.eq_of_pairwise (fun a b ha hb hab hba => ?_) hsorted (hordered.imp (fun h => h.le))
  -- Two bars of the history with one open time are the same bar.
  exact List.inj_on_of_nodup_map hordered.nodup (hperm.subset ha) hb (le_antisymm hab hba)

theorem fetchStream_serves {c : BarCoordinator} {key : BarStreamKey} {duration : Time}
    {history : List Bar} (hduration : barDuration key.timeframe = .ok duration)
    (hserves : c.provider.Serves key history duration) (hordered : Ordered history) (n : ℕ)
    (consumers : List DeploymentBarConsumer) :
    c.fetchStream n key consumers = .ok ⟨key, history.filter (fun b =>
      c.fetchStart duration n consumers ≤ b.openTime ∧ b.closeTime duration ≤ c.now)⟩ := by
  obtain ⟨forming, hforming, hprovider⟩ := hserves (c.fetchStart duration n consumers) c.now
  simp only [BarCoordinator.fetchStream, hduration, hprovider, bind, Except.bind, pure, Except.pure]
  rw [filter_dropFormingBar, filter_sortIndex (hordered.filter _) (fun b hb => ?_) hforming]
  have := (List.mem_filter.mp hb).2
  simp only [decide_eq_true_eq] at this
  exact this.2

/-! ## The replay -/

section Replay

variable {S : Type} {strategy : TradingStrategy S} {ev ev' : Evaluator S} {duration : Time}
  {last : Bar} {ahead : List Bar}

theorem Evaluator.evaluateBars_past {throughClose : Time} {bars : List Bar}
    (h : ∀ b ∈ bars, throughClose < b.closeTime duration) :
    ev.evaluateBars strategy duration (some throughClose) bars = (ev, .ok []) := by
  cases bars with
  | nil => rfl
  | cons bar rest =>
    have hstop : throughClose < bar.closeTime duration := h bar (by simp)
    simp [evaluateBars, hstop]

theorem Evaluator.evaluateRow_replay {row : BarRow} {t : Time} {result : ForwardDecisionResult}
    (hmode : ev.replayMode = true) (h : ev.evaluateRow strategy row t = (ev', .ok result)) :
    ev' = { ev with exitState :=
      (checkExits strategy.exitParams ev.openTrade.toList row ev.exitState).1 } := by
  unfold evaluateRow at h
  dsimp only at h
  split at h
  · cases h
  · simp only [hmode, Bool.not_true, Bool.false_and, Bool.false_eq_true, if_false,
      Prod.mk.injEq] at h
    rw [← h.1, hmode]
    rfl

/-- What the replay of the overlap leaves: the window starts at the bar of the watermark, and the
exit rules have seen that bar alone. -/
structure Replayed (strategy : TradingStrategy S) (ev ev' : Evaluator S) (last : Bar)
    (ahead : List Bar) : Prop where
  rolling : ev'.rolling = trimRollingWindow (last :: ahead) ev.windowBound
  watermark : ev'.lastEvaluatedClose = ev.lastEvaluatedClose
  exitState : ∀ frame row, (augmentIndicatorFrame strategy ev.strategy
      (trimRollingWindow (last :: ahead) ev.windowBound)).2 = .ok frame →
    frame.loc last.openTime = some row →
    ev'.exitState = (checkExits strategy.exitParams ev.openTrade.toList row ev.exitState).1

theorem Evaluator.replayRecovery_spec {results : List ForwardDecisionResult}
    (hduration : barDuration ev.timeframe = .ok duration) (hrolling : ev.rolling = [])
    (hwatermark : ev.lastEvaluatedClose = some (last.closeTime duration))
    (hordered : Ordered (last :: ahead))
    (h : ev.replayRecovery strategy (last :: ahead) (some (last.closeTime duration)) =
      (ev', .ok results)) : Replayed strategy ev ev' last ahead := by
  have hwindow : mergeWindow ev.rolling (sortIndex (last :: ahead)) ev.windowBound =
      trimRollingWindow (last :: ahead) ev.windowBound := by
    have hempty : trimRollingWindow ([] ++ []) ev.windowBound = [] := by simp [trimRollingWindow]
    rw [hrolling, ← hempty]
    exact mergeWindow_eq hordered (List.nil_sublist _) ev.windowBound
  have hpast : ∀ b ∈ ahead, last.closeTime duration < b.closeTime duration :=
    fun b hb => Int.add_lt_add_right ((List.pairwise_cons.mp hordered).1 b hb) duration
  simp only [replayRecovery, ingestCompletedBars, List.cons_ne_nil, if_false, hduration, hwindow] at h
  rw [hordered.sortIndex_eq] at h
  simp only [evaluateBars, Option.any_some, lt_self_iff_false, decide_false, Bool.false_eq_true,
    if_false, hwatermark, evaluateBars_past hpast] at h
  split at h
  · cases h
  next frame hframe =>
    split at h
    next hnone =>
      simp only [Prod.mk.injEq, Except.ok.injEq] at h
      refine ⟨by rw [← h.1], by rw [← h.1, hwatermark], fun frame' row hframe' hloc => ?_⟩
      rw [hframe] at hframe'
      cases hframe'
      rw [hnone] at hloc
      cases hloc
    next row hrow =>
      split at h
      · cases h
      next ev₁ result heq =>
        have hreplayed := evaluateRow_replay (by rfl) heq
        subst hreplayed
        simp only [Prod.mk.injEq] at h
        refine ⟨by rw [← h.1], by rw [← h.1, hwatermark], fun frame' row' hframe' hloc => ?_⟩
        rw [hframe] at hframe'
        cases hframe'
        rw [hrow] at hloc
        cases hloc
        rw [← h.1]

end Replay

/-! ## The rebuilt evaluator -/

section Rebuild

variable {S : Type} {cfg : WorkerConfig S} {coordinator : BarCoordinator} {db : Database}
  {deployment : ExecutionDeployment} {token : String} {r : Runtime S} {duration : Time}
  {trade : Option Trade} {ev₀ : Evaluator S} {done later : List Bar} {last : Bar}

/-- The evaluator of a deployment that has not evaluated a bar yet. -/
def freshEvaluator (cfg : WorkerConfig S) (deployment : ExecutionDeployment)
    (openTrade : Option Trade) : Except ExecutionError (Evaluator S) := do
  let (strategy, windowBound) ← cfg.buildStrategy deployment
  return { symbol := deployment.symbol, timeframe := deployment.timeframe.toUpper, windowBound
           strategy, openTrade }

/-- The bars after the watermark that are complete when the runtime is built. -/
def completeAt (now duration : Time) (bars : List Bar) : List Bar :=
  bars.filter (fun b => b.closeTime duration ≤ now)

theorem filter_overlap {now : Time} (hordered : Ordered (done ++ last :: later))
    (hnow : last.closeTime duration ≤ now) :
    (done ++ last :: later).filter (fun b =>
      last.openTime ≤ b.openTime ∧ b.closeTime duration ≤ now) =
      last :: completeAt now duration later := by
  obtain ⟨-, htail, hcross⟩ := List.pairwise_append.mp hordered
  have hdone : done.filter (fun b => last.openTime ≤ b.openTime ∧ b.closeTime duration ≤ now) = [] := by
    rw [List.filter_eq_nil_iff]
    intro b hb
    have hlt : b.openTime < last.openTime := hcross b hb last (by simp)
    simp [hlt]
  have hlater : later.filter (fun b => last.openTime ≤ b.openTime ∧ b.closeTime duration ≤ now) =
      completeAt now duration later := by
    refine List.filter_congr (fun b hb => ?_)
    have hlt : last.openTime < b.openTime := (List.pairwise_cons.mp htail).1 b hb
    simp [hlt.le]
  rw [List.filter_append, hdone, List.nil_append, List.filter_cons_of_pos (by simp [hnow]), hlater]

theorem completeAt_initial {now : Time} {bars : List Bar} (h : Ordered bars) :
    completeAt now duration bars <+: bars := by
  induction bars with
  | nil => exact List.nil_prefix
  | cons bar rest ih =>
    obtain ⟨hfirst, hrest⟩ := List.pairwise_cons.mp h
    by_cases hcomplete : bar.closeTime duration ≤ now
    · have hcons : completeAt now duration (bar :: rest) = bar :: completeAt now duration rest :=
        List.filter_cons_of_pos (by simpa using hcomplete)
      rw [hcons]
      exact (List.prefix_cons_inj bar).mpr (ih hrest)
    · have hnone : completeAt now duration (bar :: rest) = [] := by
        rw [completeAt, List.filter_eq_nil_iff]
        intro b hb
        have hle : bar.closeTime duration ≤ b.closeTime duration := by
          rcases List.mem_cons.mp hb with rfl | hb
          · exact le_rfl
          · exact Int.add_le_add_right (hfirst b hb).le duration
        simp only [decide_eq_true_eq]
        exact fun hb => hcomplete (hle.trans hb)
      rw [hnone]
      exact List.nil_prefix

theorem completeAt_sublist_head {now : Time} {batches : List (List Bar)}
    (h : Ordered batches.flatten)
    (hfirst : ∀ b ∈ batches.flatten, b.closeTime duration ≤ now → b ∈ batches.headD []) :
    (completeAt now duration batches.flatten).Sublist (batches.headD []) := by
  cases batches with
  | nil => exact List.nil_sublist _
  | cons batch rest =>
    rw [List.flatten_cons] at h hfirst ⊢
    have hrest : rest.flatten.filter (fun b => b.closeTime duration ≤ now) = [] := by
      rw [List.filter_eq_nil_iff]
      intro b hb hcomplete
      have hagain : b ∈ batch := hfirst b (List.mem_append_right _ hb) (by simpa using hcomplete)
      exact lt_irrefl _ ((List.pairwise_append.mp h).2.2 b hagain b hb)
    rw [completeAt, List.filter_append, hrest, List.append_nil]
    exact List.filter_sublist

theorem buildRuntime_replays (hordered : Ordered (done ++ last :: later))
    (hduration : barDuration deployment.timeframe.toUpper = .ok duration)
    (hwatermark : deployment.lastBarCloseTime = some (last.closeTime duration))
    (hserves : coordinator.provider.Serves ⟨deployment.symbol, deployment.timeframe.toUpper⟩
      (done ++ last :: later) duration)
    (hoverlap : coordinator.overlapBars = 1) (hnow : last.closeTime duration ≤ coordinator.now)
    (htrade : openTradeOf deployment (db.getOpenNetPosition deployment.id) cfg.service.pointValue =
      .ok trade)
    (hfresh : freshEvaluator cfg deployment trade = .ok ev₀)
    (h : buildRuntime cfg coordinator db deployment token = .ok r) :
    Replayed (cfg.strategy deployment.id)
        { ev₀ with lastEvaluatedClose := some (last.closeTime duration) } r.evaluator last
        (completeAt coordinator.now duration later) ∧
      r.evaluator.identity = ev₀.identity := by
  simp only [freshEvaluator, bind_eq_ok, pure_eq_ok] at hfresh
  obtain ⟨⟨s, windowBound⟩, hbuild, rfl⟩ := hfresh
  simp only [buildRuntime, bind_eq_ok, pure_eq_ok] at h
  obtain ⟨trade', htrade', ⟨s', windowBound'⟩, hbuild', batches, hbatches, ev, hev, rfl⟩ := h
  rw [htrade] at htrade'
  rw [hbuild] at hbuild'
  cases htrade'
  cases hbuild'
  have hidentity := warmUp_identity (by rfl) hev
  refine ⟨?_, hidentity⟩
  -- The one stream of the poll starts at the open of the watermark's bar.
  have hstart : ∀ consumer : DeploymentBarConsumer,
      consumer.lastEvaluatedClose = some (last.closeTime duration) →
      coordinator.fetchStart duration cfg.initialWindowBars [consumer] = last.openTime := by
    intro consumer hconsumer
    simp [BarCoordinator.fetchStart, earliestClose, hconsumer, hoverlap, Bar.closeTime]
  have hframe := fetchStream_serves (by exact hduration) hserves hordered cfg.initialWindowBars
    [{ deploymentId := deployment.id, symbol := deployment.symbol, timeframe := deployment.timeframe
       lastEvaluatedClose := deployment.lastBarCloseTime }]
  rw [hstart _ hwatermark, filter_overlap hordered hnow] at hframe
  have hpoll : batches = [⟨⟨deployment.symbol, deployment.timeframe.toUpper⟩,
      last :: completeAt coordinator.now duration later⟩] := by
    simp only [BarCoordinator.poll, List.map_cons, List.map_nil, DeploymentBarConsumer.key,
      List.eraseDups_cons, List.filter_nil, List.eraseDups_nil, List.mapM_cons, List.mapM_nil,
      decide_true, List.filter_cons_of_pos, hframe, bind, Except.bind, pure, Except.pure,
      Except.ok.injEq] at hbatches
    exact hbatches.symm
  subst hpoll
  simp only [DeploymentBarConsumer.key, decide_true, List.find?_cons_of_pos, warmUp,
    List.cons_ne_nil, if_false, hwatermark] at hev
  split at hev
  · cases hev
  next ev₁ results heq =>
    cases hev
    have htail : Ordered (last :: completeAt coordinator.now duration later) :=
      (List.pairwise_append.mp hordered).2.1.sublist (List.filter_sublist.cons_cons last)
    exact Evaluator.replayRecovery_spec (by exact hduration) rfl rfl htail heq

end Rebuild

/-! ## Parity -/

section Parity

variable {S : Type} {strategy : TradingStrategy S} {s : S} {trade : Option Trade}
  {rowOf : Bar → BarRow} {done later ahead : List Bar} {last : Bar} {maxBars : ℕ}

/-- A stop after the bar `last` loses nothing that a later decision reads: the rows of later bars
need nothing before `last`, and the exit rules have nothing to remember. That is so without an open
trade, without a rule that keeps state, and when the only bar so far is in the replay again. -/
structure RestartSafe (strategy : TradingStrategy S) (s : S) (trade : Option Trade)
    (rowOf : Bar → BarRow) (done : List Bar) (last : Bar) (later ahead : List Bar) (maxBars : ℕ) :
    Prop where
  stateless : strategy.Stateless
  rows : Evaluator.RowsKnown strategy s trade.toList rowOf (done ++ last :: later) last maxBars
    (fun b => b ∈ later)
  decides : ∀ b ∈ later, RowDecides strategy s (rowOf b)
  memory : trade = none ∨ (∀ rule ∈ enabledRules strategy.exitParams, rule.isStateful = false) ∨
    (done = [] ∧ (maxBars = 0 ∨ ahead.length < maxBars) ∧
      Evaluator.RowsKnown strategy s trade.toList rowOf (last :: later) last maxBars (fun b => b = last))

theorem singleton_batch {batches : List (List Bar)} (hne : ∀ b ∈ batches, b ≠ [])
    (h : batches.flatten = [last]) : batches = [[last]] := by
  cases batches with
  | nil => cases h
  | cons batch rest =>
    rw [List.flatten_cons] at h
    rcases List.append_eq_singleton_iff.mp h with ⟨hempty, -⟩ | ⟨hbatch, hrest⟩
    · exact absurd hempty (hne batch (by simp))
    · cases rest with
      | nil => rw [hbatch]
      | cons batch' rest =>
        rw [List.flatten_cons, List.append_eq_nil_iff] at hrest
        exact absurd hrest.1 (hne batch' (by simp))

theorem trimRollingWindow_of_length_le {bars : List Bar} (h : maxBars = 0 ∨ bars.length ≤ maxBars) :
    trimRollingWindow bars maxBars = bars := by
  unfold trimRollingWindow
  rw [if_pos h]

theorem Evaluator.evaluateRow_exitState (strategy : TradingStrategy S) (ev : Evaluator S)
    (row : BarRow) (t : Time) :
    (ev.evaluateRow strategy row t).1.exitState =
      (checkExits strategy.exitParams ev.openTrade.toList row ev.exitState).1 := by
  unfold evaluateRow
  dsimp only
  split
  · rfl
  · split <;> rfl

theorem Evaluator.ingest_first_exitState {ev : Evaluator S} {duration : Time}
    (hduration : barDuration ev.timeframe = .ok duration) (hrolling : ev.rolling = [])
    (hnew : ev.lastEvaluatedClose = none) {frame : IndicatorFrame} {row : BarRow}
    (hframe : (augmentIndicatorFrame strategy ev.strategy
      (trimRollingWindow [last] ev.windowBound)).2 = .ok frame)
    (hloc : frame.loc last.openTime = some row) :
    (ev.ingestCompletedBars strategy [last]).1.exitState =
      (checkExits strategy.exitParams ev.openTrade.toList row ev.exitState).1 := by
  have hwindow : mergeWindow ev.rolling (sortIndex [last]) ev.windowBound =
      trimRollingWindow [last] ev.windowBound := by
    rw [hrolling]
    rfl
  have hsort : sortIndex [last] = [last] := rfl
  rw [ingestCompletedBars_eq strategy (by simp) hduration, hwindow, hsort]
  simp only [evaluateBars, Option.any_none, Bool.false_eq_true, if_false, hnew, hframe, hloc]
  have hrow := evaluateRow_exitState strategy { ev with
    rolling := trimRollingWindow [last] ev.windowBound
    strategy := (augmentIndicatorFrame strategy ev.strategy
      (trimRollingWindow [last] ev.windowBound)).1 } row (last.closeTime duration)
  simp only [hnew] at hrow
  split
  next heq =>
    rw [heq] at hrow
    exact hrow
  next heq =>
    rw [heq] at hrow
    exact hrow

theorem SameToRules.symm {p : ExitParams} {trades : List Trade} {row row' : BarRow}
    (h : SameToRules p trades row row') : SameToRules p trades row' row := by
  intro t ht rule hrule
  obtain ⟨hready, hsame⟩ := h t ht rule hrule
  exact ⟨hready.symm, fun σ => ⟨(hsame σ).1.symm, (hsame σ).2.symm⟩⟩

theorem SameToRules.trans {p : ExitParams} {trades : List Trade} {x y z : BarRow}
    (h : SameToRules p trades x y) (h' : SameToRules p trades y z) : SameToRules p trades x z := by
  intro t ht rule hrule
  obtain ⟨hready, hsame⟩ := h t ht rule hrule
  obtain ⟨hready', hsame'⟩ := h' t ht rule hrule
  exact ⟨hready.trans hready', fun σ =>
    ⟨(hsame σ).1.trans (hsame' σ).1, (hsame σ).2.trans (hsame' σ).2⟩⟩

theorem RestartSafe.agree {ev₀ ev₁ ev₂ : Evaluator S} {duration : Time} {before : List (List Bar)}
    {results : List ForwardDecisionResult} {watermark : Option Time}
    (h : RestartSafe strategy s trade rowOf done last later ahead ev₀.windowBound)
    (hfresh : ev₀.Seen duration trade [] []) (hnew : ev₀.lastEvaluatedClose = none)
    (hne : ∀ b ∈ before, b ≠ []) (hbefore : before.flatten = done ++ [last])
    (hrun : ev₀.ingestAll strategy before = (ev₁, .ok results)) (hahead : ahead <+: later)
    (hreplay : Replayed strategy { ev₀ with lastEvaluatedClose := watermark } ev₂ last ahead) :
    ExitState.Agree strategy.exitParams trade.toList ev₁.exitState ev₂.exitState := by
  rcases h.memory with rfl | hstateless | ⟨rfl, hfits, hrows⟩
  · exact .of_flat
  · exact .of_stateless hstateless
  -- The first bar: both evaluators have seen it and nothing else.
  obtain rfl := singleton_batch hne hbefore
  have hknown : ∀ bars, bars <+: later → Evaluator.RowIn strategy s trade.toList rowOf (last :: bars) last :=
    fun bars hbars => hrows _ ((List.prefix_cons_inj last).mpr hbars).isInfix (.inl (by simp)) last
      (by simp) rfl
  have hwindow₁ : trimRollingWindow [last] ev₀.windowBound = [last] :=
    trimRollingWindow_of_length_le (by simp only [List.length_singleton]; omega)
  have hwindow₂ : trimRollingWindow (last :: ahead) ev₀.windowBound = last :: ahead :=
    trimRollingWindow_of_length_le (by simp only [List.length_cons]; omega)
  obtain ⟨frame₁, row₁, hframe₁, hloc₁, hagree₁⟩ := hknown [] List.nil_prefix
  obtain ⟨frame₂, row₂, hframe₂, hloc₂, hagree₂⟩ := hknown ahead hahead
  rw [h.stateless.augment s ev₀.strategy] at hframe₁ hframe₂
  have hstate₁ := Evaluator.ingest_first_exitState hfresh.timeframe
    (by simpa [trimRollingWindow] using hfresh.rolling) hnew (by rw [hwindow₁]; exact hframe₁) hloc₁
  have hstate₂ := hreplay.exitState frame₂ row₂ (by dsimp only; rw [hwindow₂]; exact hframe₂) hloc₂
  have hlast : ev₁ = (ev₀.ingestCompletedBars strategy [last]).1 := by
    unfold Evaluator.ingestAll at hrun
    split at hrun
    · cases hrun
    next heq =>
      rw [heq]
      cases hrun
      rfl
  rw [hlast, hstate₁, hstate₂, hfresh.openTrade]
  exact (checkExits_agree (hagree₁.rules.trans hagree₂.rules.symm) (fun _ _ _ _ _ => rfl)).1

end Parity

/-- Restart parity: when the stop loses nothing that a later decision reads, the evaluator that
`build_runtime` makes from the persisted position and watermark and the evaluator that ran on
decide every later bar alike, whatever the batches of either. -/
theorem restart_parity {S : Type} (cfg : WorkerConfig S) (coordinator : BarCoordinator)
    (db : Database) (deployment : ExecutionDeployment) (token : String) (r : Runtime S)
    (duration : Time) (trade : Option Trade) (ev₀ ev₁ : Evaluator S)
    (rowOf : Bar → BarRow) (done later : List Bar) (last : Bar)
    (before after after' : List (List Bar)) (results : List ForwardDecisionResult)
    -- The history, its provider and the clock.
    (hordered : Ordered (done ++ last :: later))
    (hduration : barDuration deployment.timeframe.toUpper = .ok duration)
    (hserves : coordinator.provider.Serves ⟨deployment.symbol, deployment.timeframe.toUpper⟩
      (done ++ last :: later) duration)
    (hoverlap : coordinator.overlapBars = 1) (hnow : last.closeTime duration ≤ coordinator.now)
    -- The evaluator that ran through the bars up to `last`, on the position that is persisted.
    (htrade : openTradeOf deployment (db.getOpenNetPosition deployment.id) cfg.service.pointValue =
      .ok trade)
    (hfresh : freshEvaluator cfg deployment trade = .ok ev₀)
    (hbefore : before.flatten = done ++ [last]) (hne : ∀ b ∈ before, b ≠ [])
    (hrun : ev₀.ingestAll (cfg.strategy deployment.id) before = (ev₁, .ok results))
    -- The evaluator that is rebuilt at `last`.
    (hwatermark : deployment.lastBarCloseTime = some (last.closeTime duration))
    (hrebuilt : buildRuntime cfg coordinator db deployment token = .ok r)
    -- The later bars, in any batches that fit the window; the first poll is not before the rebuild.
    (hafter : after.flatten = later) (hfit : Evaluator.FitBatches ev₀.windowBound after)
    (hafter' : after'.flatten = later) (hfit' : Evaluator.FitBatches ev₀.windowBound after')
    (hfirst : ∀ b ∈ later, b.closeTime duration ≤ coordinator.now → b ∈ after'.headD [])
    (hsafe : RestartSafe (cfg.strategy deployment.id) ev₀.strategy trade rowOf done last later
      (completeAt coordinator.now duration later) ev₀.windowBound) :
    ∃ decisions, (ev₁.ingestAll (cfg.strategy deployment.id) after).2 = .ok decisions ∧
      (r.evaluator.ingestAll (cfg.strategy deployment.id) after').2 = .ok decisions ∧
      decisions.map (·.barCloseTime) = later.map (fun b => b.closeTime duration) := by
  obtain ⟨hreplay, hidentity⟩ := buildRuntime_replays hordered hduration hwatermark hserves hoverlap
    hnow htrade hfresh hrebuilt
  have hnew : ev₀.lastEvaluatedClose = none ∧ ev₀.Seen duration trade [] [] := by
    simp only [freshEvaluator, bind_eq_ok, pure_eq_ok] at hfresh
    obtain ⟨⟨s, windowBound⟩, -, rfl⟩ := hfresh
    refine ⟨rfl, rfl, hduration, rfl, ?_, ?_⟩
    · simp [trimRollingWindow]
    · simp
  obtain ⟨hnone, hseen₀⟩ := hnew
  have hlater : Ordered later :=
    (List.pairwise_cons.mp (List.pairwise_append.mp hordered).2.1).2
  have hseen : Ordered ([] ++ before.flatten) := by
    rw [List.nil_append, hbefore]
    exact hordered.sublist (by simp)
  obtain ⟨hseen₁, hbound₁⟩ := hseen₀.ingestAll hne hseen hrun
  rw [List.nil_append, hbefore] at hseen₁
  simp only [Evaluator.identity, Prod.mk.injEq] at hidentity
  obtain ⟨-, htimeframe, hbound₂, hopen, hmode⟩ := hidentity
  have hseen₂ : r.evaluator.Seen duration trade [last] (completeAt coordinator.now duration later) := by
    refine ⟨hmode.trans hseen₀.replayMode, by rw [htimeframe]; exact hseen₀.timeframe,
      hopen.trans hseen₀.openTrade, ?_, fun t ht => ⟨last, by simp, ?_⟩⟩
    · rw [hreplay.rolling, hbound₂]
      rfl
    · rw [hreplay.watermark] at ht
      exact (Option.mem_some_iff.mp ht).symm
  have hagree := hsafe.agree hseen₀ hnone hne hbefore hrun (completeAt_initial hlater) hreplay
  have hdecided₁ := Evaluator.ingestAll_decides hsafe.stateless hordered
    (by rw [hbound₁]; exact hsafe.rows) hsafe.decides hseen₁ (by simp) (List.nil_sublist _)
    (by rw [hafter, List.append_assoc]; exact List.infix_refl _) (by simp [hafter])
    (by rw [hbound₁]; exact hfit) (fun _ _ _ _ _ => rfl)
  have hdecided₂ := Evaluator.ingestAll_decides hsafe.stateless hordered
    (by rw [hbound₂]; exact hsafe.rows) hsafe.decides hseen₂ (by simp)
    (by rw [← hafter'] at hlater hfirst ⊢; exact completeAt_sublist_head hlater hfirst)
    (by rw [hafter']; exact (List.suffix_append done _).isInfix) (by simp [hafter'])
    (by rw [hbound₂]; exact hfit') (fun t ht rule hrule hstateful =>
      (hagree t ht rule hrule hstateful).symm)
  rw [hafter] at hdecided₁
  rw [hafter'] at hdecided₂
  obtain ⟨decisions, hdecisions, hcloses⟩ :=
    decideBars_ok hsafe.decides trade.toList duration ev₁.exitState
  exact ⟨decisions, hdecided₁.trans hdecisions, hdecided₂.trans hdecisions, hcloses⟩

/-! ## A held position -/

/-- A strategy without signals of its own: only its exit rules act. -/
def holdingStrategy (p : ExitParams) : TradingStrategy Unit where
  computeIndicators s bars := (s, .ok { bars })
  checkEntryConditions _ _ := .ok []
  checkExitConditions _ _ _ := .ok []
  exitParams := p
  sizeSignal _ _ := .ok none

def holdingConfig (p : ExitParams) : WorkerConfig Unit where
  strategy _ := holdingStrategy p
  buildStrategy _ := .ok ((), 20)

/-- A deployment that was stopped after its second bar, long one contract from 100. -/
def stoppedDeployment : ExecutionDeployment :=
  { id := 7, paperAccountId := 1, lifecycle := .running, symbol := "WIN", timeframe := "M1"
    lastBarCloseTime := some 120000000 }

def stoppedDatabase : Database :=
  { deployments := [stoppedDeployment]
    positions := [{ deploymentId := 7, side := .long, quantity := 1, averageEntryPrice := some 100
                    isOpen := true, openedAt := some 0 }] }

def heldTrade : Trade :=
  { id := "exec-7", symbol := "WIN", action := .buy, quantity := 1, entryTime := 0, entryPrice := 100 }

/-- The minute bars of the desk, served as they complete. -/
def deskCoordinator (n minutes : ℕ) : BarCoordinator where
  provider _ start stop := .ok ((deskBars n).filter (fun b =>
    start ≤ b.openTime ∧ b.closeTime 60000000 ≤ stop))
  now := minutes * 60000000

/-- The decisions on the third bar, by an evaluator that saw the bars of `before`. -/
def thirdBarDecisions (p : ExitParams) (evaluator : Except ExecutionError (Evaluator Unit))
    (before : List (List Bar)) : Option (List ForwardDecisionResult) := do
  let ev ← evaluator.toOption
  let seen := (ev.ingestAll (holdingStrategy p) before).1
  (seen.ingestAll (holdingStrategy p) [(deskBars 3).drop 2]).2.toOption

/-- The time stop of three bars fires on the third bar, unless the process was restarted. -/
theorem restart_forgets_time_stop :
    (thirdBarDecisions { maxBarsInTrade := 3 }
      (freshEvaluator (holdingConfig { maxBarsInTrade := 3 }) stoppedDeployment (some heldTrade))
      [deskBars 2]).map (List.map (fun d => (d.signalAction, d.reason))) =
        some [(.close, some "time_stop")] ∧
    (thirdBarDecisions { maxBarsInTrade := 3 }
      ((buildRuntime (holdingConfig { maxBarsInTrade := 3 }) (deskCoordinator 3 2) stoppedDatabase
        stoppedDeployment "token").map Runtime.evaluator) []).map
        (List.map (fun d => (d.signalAction, d.reason))) = some [(.hold, none)] := by
  decide +kernel

theorem holdingStrategy_rowIn {p : ExitParams} (hp : requiredColumns p = []) {window : List Bar}
    (hwindow : Ordered window) (trades : List Trade) {b : Bar} (hb : b ∈ window) :
    Evaluator.RowIn (holdingStrategy p) () trades (fun b => { bar := b }) window b := by
  have hframe : (augmentIndicatorFrame (holdingStrategy p) () window).2 = .ok { bars := window } := by
    simp only [augmentIndicatorFrame, holdingStrategy, Except.bind, completeColumns, hp]
    rfl
  have hloc : (IndicatorFrame.loc { bars := window } b.openTime).isSome :=
    IndicatorFrame.loc_isSome (List.mem_map_of_mem hb)
  obtain ⟨row, hrow⟩ := Option.isSome_iff_exists.mp hloc
  have hself : row = { bar := b } := by
    obtain ⟨hmem, htime⟩ := List.mem_filter.mp (List.mem_of_getLast? hrow)
    obtain ⟨i, hi, rfl⟩ := List.mem_mapIdx.mp hmem
    have hbar := List.inj_on_of_nodup_map hwindow.nodup (List.getElem_mem hi) hb
      (of_decide_eq_true htime)
    simp [IndicatorFrame.row, hbar]
  refine ⟨_, row, hframe, hrow, ?_⟩
  rw [hself]
  exact ⟨rfl, rfl, fun _ => rfl, fun _ => rfl, fun _ _ _ _ => ⟨rfl, fun _ => ⟨rfl, rfl⟩⟩⟩

def secondBar : Bar :=
  { openTime := 60000000, open_ := 100, high := 101, low := 99, close := 100 }

/-- A fixed stop loss keeps no state: the restarted evaluator closes the position like the other. -/
theorem restart_parity_fixed_stop_loss :
    ∃ (r : Runtime Unit) (ev₁ : Evaluator Unit) (decisions : List ForwardDecisionResult),
      buildRuntime (holdingConfig { stopLossPct := 1 / 200 }) (deskCoordinator 3 2) stoppedDatabase
        stoppedDeployment "token" = .ok r ∧
      (ev₁.ingestAll (holdingStrategy { stopLossPct := 1 / 200 }) [(deskBars 3).drop 2]).2 =
        .ok decisions ∧
      (r.evaluator.ingestAll (holdingStrategy { stopLossPct := 1 / 200 }) [(deskBars 3).drop 2]).2 =
        .ok decisions ∧ decisions.map (·.barCloseTime) = [180000000] := by
  have hsplit : (deskBars 3).take 1 ++ secondBar :: (deskBars 3).drop 2 = deskBars 3 := by decide +kernel
  have hordered : Ordered (deskBars 3) := by
    unfold Ordered
    decide +kernel
  have hrules : ∀ rule ∈ enabledRules { stopLossPct := 1 / 200 }, rule.isStateful = false := by
    decide +kernel
  have hcolumns : requiredColumns { stopLossPct := 1 / 200 } = [] := by decide +kernel
  have hserves : (deskCoordinator 3 2).provider.Serves
      ⟨stoppedDeployment.symbol, stoppedDeployment.timeframe.toUpper⟩ (deskBars 3) 60000000 :=
    fun start stop => ⟨[], by simp, by simp [deskCoordinator]⟩
  have hsafe : RestartSafe (holdingStrategy { stopLossPct := 1 / 200 }) () (some heldTrade)
      (fun b => { bar := b }) ((deskBars 3).take 1) secondBar ((deskBars 3).drop 2)
      (completeAt (deskCoordinator 3 2).now 60000000 ((deskBars 3).drop 2)) 20 := by
    refine ⟨⟨fun _ _ _ => rfl, fun _ _ _ => rfl, fun _ _ _ _ => rfl⟩, ?_, ?_, .inr (.inl hrules)⟩
    · intro window hmiddle _ b hb _
      rw [hsplit] at hmiddle
      exact holdingStrategy_rowIn hcolumns (hordered.sublist hmiddle.sublist) _ hb
    · exact fun b _ => ⟨⟨_, rfl⟩, fun _ => ⟨_, rfl⟩, fun _ => ⟨_, rfl⟩⟩
  have hduration : barDuration stoppedDeployment.timeframe.toUpper = .ok 60000000 := by
    have hminutes : tfMinutes stoppedDeployment.timeframe.toUpper.toUpper = some 1 := by decide +kernel
    rw [barDuration, hminutes]
    rfl
  have hfit : Evaluator.FitBatches 20 [(deskBars 3).drop 2] := by
    intro batch hbatch
    rw [List.mem_singleton.mp hbatch]
    decide +kernel
  obtain ⟨r, hr⟩ := exists_ok_of_isSome (x := buildRuntime (holdingConfig { stopLossPct := 1 / 200 })
    (deskCoordinator 3 2) stoppedDatabase stoppedDeployment "token") (by decide +kernel)
  obtain ⟨ev₀, hev₀⟩ := exists_ok_of_isSome (x := freshEvaluator
    (holdingConfig { stopLossPct := 1 / 200 }) stoppedDeployment (some heldTrade)) (by decide +kernel)
  have hwindow : ev₀.windowBound = 20 := by
    cases hev₀
    rfl
  obtain ⟨results, hresults⟩ := exists_ok_of_isSome (x := (ev₀.ingestAll
    (holdingStrategy { stopLossPct := 1 / 200 }) [deskBars 2]).2) (by cases hev₀; decide +kernel)
  obtain ⟨decisions, hrun, hrestarted, hcloses⟩ := restart_parity
    (holdingConfig { stopLossPct := 1 / 200 }) (deskCoordinator 3 2) stoppedDatabase stoppedDeployment
    "token" r 60000000 (some heldTrade) ev₀ _ (fun b => { bar := b }) ((deskBars 3).take 1)
    ((deskBars 3).drop 2) secondBar [deskBars 2] [(deskBars 3).drop 2] [(deskBars 3).drop 2] results
    (by rw [hsplit]; exact hordered) hduration (by rw [hsplit]; exact hserves) rfl (by decide +kernel) rfl
    hev₀ (by decide +kernel) (by decide +kernel) (Prod.ext rfl hresults) rfl hr (by simp)
    (by rw [hwindow]; exact hfit) (by simp) (by rw [hwindow]; exact hfit) (by decide +kernel)
    (by rw [hwindow]; exact hsafe)
  exact ⟨r, _, decisions, hr, hrun, hrestarted, hcloses⟩

end QBackend.Execution
