import QBackend.EvaluatorCalls
import QBackend.ExitRuleState

/-!
# Runs of an evaluator over consecutive batches

The rolling window after a batch is the tail of the bars seen so far. A run whose rows are known
bar by bar decides what `decideBars` decides, whatever the sizes of its batches.
-/

namespace QBackend.Execution

/-- Bars in order, one for each open time. -/
def Ordered (bars : List Bar) : Prop := bars.Pairwise (fun a b => a.openTime < b.openTime)

theorem Ordered.sortIndex_eq {bars : List Bar} (h : Ordered bars) : sortIndex bars = bars :=
  List.Pairwise.insertionSort_eq (h.imp (fun hab => hab.le))

theorem Ordered.nodup {bars : List Bar} (h : Ordered bars) : (bars.map Bar.openTime).Nodup :=
  List.pairwise_map.mpr (h.imp (fun hab => hab.ne))

theorem Ordered.notMem_map {bar : Bar} {rest : List Bar} (h : Ordered (bar :: rest)) :
    bar.openTime ∉ rest.map Bar.openTime :=
  (List.nodup_cons.mp h.nodup).1

/-! ## The window -/

/-- Bars that come again with the batch are dropped from the part before it. -/
theorem keepLast_append {seen ahead batch : List Bar} (h : Ordered (seen ++ batch))
    (hahead : ∀ b ∈ ahead, b ∈ batch) : keepLast (seen ++ (ahead ++ batch)) = seen ++ batch := by
  induction seen with
  | nil =>
    induction ahead with
    | nil =>
      show keepLast batch = batch
      have hbatch : Ordered batch := h
      clear h hahead
      induction batch with
      | nil => rfl
      | cons bar rest ih =>
        rw [keepLast, if_neg hbatch.notMem_map, ih (List.pairwise_cons.mp hbatch).2]
    | cons bar rest ih =>
      have hagain : bar.openTime ∈ (rest ++ batch).map Bar.openTime := by
        refine List.mem_map_of_mem (List.mem_append_right rest ?_)
        exact hahead bar (by simp)
      have hstep : keepLast (bar :: (rest ++ batch)) = keepLast (rest ++ batch) := by
        rw [keepLast, if_pos hagain]
      simpa [hstep] using ih (fun b hb => hahead b (List.mem_cons_of_mem bar hb))
  | cons bar rest ih =>
    have hrest : Ordered (rest ++ batch) := (List.pairwise_cons.mp h).2
    have hnew : bar.openTime ∉ (rest ++ (ahead ++ batch)).map Bar.openTime := by
      intro hmem
      refine Ordered.notMem_map h ?_
      obtain ⟨b, hb, heq⟩ := List.mem_map.mp hmem
      refine List.mem_map.mpr ⟨b, List.mem_append.mpr ?_, heq⟩
      simp only [List.mem_append] at hb
      rcases hb with hb | hb | hb
      · exact .inl hb
      · exact .inr (hahead b hb)
      · exact .inr hb
    rw [List.cons_append, keepLast, if_neg hnew, ih hrest, List.cons_append]

theorem trimRollingWindow_suffix (bars : List Bar) (maxBars : ℕ) :
    trimRollingWindow bars maxBars <:+ bars := by
  unfold trimRollingWindow
  split
  · exact List.suffix_refl bars
  · exact List.drop_suffix _ _

theorem length_trimRollingWindow (bars : List Bar) (maxBars : ℕ) :
    trimRollingWindow bars maxBars = bars ∨
      (0 < maxBars ∧ (trimRollingWindow bars maxBars).length = maxBars) := by
  unfold trimRollingWindow
  split
  · exact .inl rfl
  next h =>
    push Not at h
    refine .inr ⟨by omega, ?_⟩
    rw [List.length_drop]
    omega

theorem trimRollingWindow_of_suffix {tail bars : List Bar} {maxBars : ℕ} (h : tail <:+ bars)
    (hlong : tail = bars ∨ (0 < maxBars ∧ maxBars ≤ tail.length)) :
    trimRollingWindow tail maxBars = trimRollingWindow bars maxBars := by
  rcases hlong with rfl | ⟨hpos, hlen⟩
  · rfl
  · have hle := h.length_le
    have hfull : ∀ l : List Bar, maxBars ≤ l.length →
        (trimRollingWindow l maxBars).length = maxBars := by
      intro l hl
      unfold trimRollingWindow
      split
      · omega
      · rw [List.length_drop]
        omega
    have htail := hfull tail hlen
    have hbars := hfull bars (hlen.trans hle)
    have hsuffix := List.suffix_of_suffix_length_le
      ((trimRollingWindow_suffix tail maxBars).trans h) (trimRollingWindow_suffix bars maxBars)
      (by omega)
    exact hsuffix.eq_of_length (by omega)

theorem mergeWindow_eq {seen ahead batch : List Bar} (h : Ordered (seen ++ batch))
    (hahead : ahead.Sublist batch) (maxBars : ℕ) :
    mergeWindow (trimRollingWindow (seen ++ ahead) maxBars) (sortIndex batch) maxBars =
      trimRollingWindow (seen ++ batch) maxBars := by
  have hbatch : Ordered batch := (List.pairwise_append.mp h).2.1
  obtain ⟨front, hfront⟩ := trimRollingWindow_suffix (seen ++ ahead) maxBars
  -- What is left of the window: a tail of `seen` and a tail of `ahead`.
  obtain ⟨seen', ahead', hwindow, hseen, haheadTail⟩ : ∃ seen' ahead',
      trimRollingWindow (seen ++ ahead) maxBars = seen' ++ ahead' ∧ seen' <:+ seen ∧
        ahead' <:+ ahead := by
    rcases List.append_eq_append_iff.mp hfront with ⟨mid, hs, hw⟩ | ⟨mid, hf, ha⟩
    · exact ⟨mid, ahead, hw, ⟨front, hs.symm⟩, List.suffix_refl _⟩
    · exact ⟨[], _, (List.nil_append _).symm, List.nil_suffix, ⟨mid, ha.symm⟩⟩
  have htail : seen' ++ batch <:+ seen ++ batch := by
    obtain ⟨x, rfl⟩ := hseen
    exact ⟨x, by rw [List.append_assoc]⟩
  have hordered : Ordered (seen' ++ batch) := h.sublist htail.sublist
  have hsub : ∀ b ∈ ahead', b ∈ batch := fun b hb => hahead.subset (haheadTail.subset hb)
  rw [mergeWindow, hbatch.sortIndex_eq, hwindow, List.append_assoc,
    keepLast_append hordered hsub, hordered.sortIndex_eq]
  refine trimRollingWindow_of_suffix htail ?_
  rcases length_trimRollingWindow (seen ++ ahead) maxBars with hall | ⟨hpos, hfull⟩
  · left
    rw [hwindow] at hall
    have hlen := congrArg List.length hall
    simp only [List.length_append] at hlen
    have h₁ := hseen.length_le
    have h₂ := haheadTail.length_le
    rw [hseen.eq_of_length (by omega)]
  · right
    rw [hwindow, List.length_append] at hfull
    have h₁ := haheadTail.length_le
    have h₂ := hahead.length_le
    rw [List.length_append]
    omega

/-! ## Decisions bar by bar -/

section Decisions

variable {S : Type}

/-- The decision on a row, in forward mode. -/
def decideRow (strategy : TradingStrategy S) (s : S) (trades : List Trade) (state : ExitState)
    (row : BarRow) (barCloseTime : Time) : ExitState × Except ExecutionError ForwardDecisionResult :=
  let (state, queued) := evaluateQueuedSignals strategy s state row trades
  (state, do
    let (exits, entries) ← queued
    let (signalAction, reason) := domainActionFromQueued exits entries
    let quantity ← requestedQuantity strategy signalAction entries row
    return { barCloseTime, barClosePrice := row.bar.close, signalAction, reason
             requestedQuantity := quantity, queuedExitSignals := exits
             queuedEntrySignals := entries : ForwardDecisionResult })

/-- The decisions on consecutive bars whose rows are given. -/
def decideBars (strategy : TradingStrategy S) (s : S) (trades : List Trade) (duration : Time)
    (rowOf : Bar → BarRow) :
    List Bar → ExitState → ExitState × Except ExecutionError (List ForwardDecisionResult)
  | [], state => (state, .ok [])
  | bar :: rest, state =>
    match decideRow strategy s trades state (rowOf bar) (bar.closeTime duration) with
    | (state, .error e) => (state, .error e)
    | (state, .ok result) =>
      let (state, results) := decideBars strategy s trades duration rowOf rest state
      (state, results.map (result :: ·))

variable {strategy : TradingStrategy S} {s : S} {trades : List Trade} {duration : Time}
  {rowOf : Bar → BarRow} {state state' : ExitState}

theorem requestedQuantity_ok {action : SignalAction} {entries : List Signal} {row : BarRow}
    (h : RowDecides strategy s row) : ∃ q, requestedQuantity strategy action entries row = .ok q := by
  unfold requestedQuantity
  split
  · split
    · exact h.sizing _
    · exact ⟨none, rfl⟩
  · exact ⟨none, rfl⟩

theorem decideRow_ok {row : BarRow} (h : RowDecides strategy s row) (trades : List Trade)
    (state : ExitState) (t : Time) :
    ∃ result, (decideRow strategy s trades state row t).2 = .ok result ∧ result.barCloseTime = t := by
  obtain ⟨entries, hentries⟩ := h.entries
  simp only [decideRow, evaluateQueuedSignals]
  obtain ⟨exits, hexits⟩ := h.exits (trades.filter (fun t =>
    t.symbol ∉ (checkExits strategy.exitParams trades row state).2.map Signal.symbol))
  rw [hexits, hentries]
  simp only [bind, Except.bind, pure, Except.pure]
  obtain ⟨q, hq⟩ := requestedQuantity_ok h
  rw [hq]
  exact ⟨_, rfl, rfl⟩

theorem decideRow_agree (hs : strategy.Stateless) (s' : S) {row row' : BarRow} {t : Time}
    (hrow : RowsAgree strategy s trades row row')
    (h : ExitState.Agree strategy.exitParams trades state state') :
    ExitState.Agree strategy.exitParams trades (decideRow strategy s' trades state row t).1
      (decideRow strategy s trades state' row' t).1 ∧
    (decideRow strategy s' trades state row t).2 = (decideRow strategy s trades state' row' t).2 := by
  obtain ⟨hstate, hexits⟩ := checkExits_agree hrow.rules h
  have hquantity : ∀ action entries, requestedQuantity strategy action entries row =
      requestedQuantity strategy action entries row' := by
    intro action entries
    cases entries with
    | nil => rfl
    | cons entry rest => simp only [requestedQuantity, hrow.sizing]
  simp only [decideRow, evaluateQueuedSignals]
  refine ⟨hstate, ?_⟩
  rw [hexits, hs.exits s' s, hs.entries s' s, hrow.exits, hrow.entries]
  simp only [hquantity, hrow.close]

theorem decideBars_ok {bars : List Bar} (h : ∀ b ∈ bars, RowDecides strategy s (rowOf b))
    (trades : List Trade) (duration : Time) (state : ExitState) :
    ∃ results, (decideBars strategy s trades duration rowOf bars state).2 = .ok results ∧
      results.map (·.barCloseTime) = bars.map (fun b => b.closeTime duration) := by
  induction bars generalizing state with
  | nil => exact ⟨[], rfl, rfl⟩
  | cons bar rest ih =>
    obtain ⟨result, hresult, hclose⟩ := decideRow_ok (h bar (by simp)) trades state
      (bar.closeTime duration)
    unfold decideBars
    cases hrow : decideRow strategy s trades state (rowOf bar) (bar.closeTime duration) with
    | mk state₁ r =>
      rw [hrow] at hresult
      subst hresult
      obtain ⟨results, hresults, hcloses⟩ := ih (fun b hb => h b (by simp [hb])) state₁
      refine ⟨result :: results, ?_, by rw [List.map_cons, hclose, hcloses, List.map_cons]⟩
      dsimp only
      rw [hresults]
      rfl

theorem decideBars_append {bars rest : List Bar} {results : List ForwardDecisionResult}
    (h : (decideBars strategy s trades duration rowOf bars state).2 = .ok results) :
    (decideBars strategy s trades duration rowOf (bars ++ rest) state).2 =
      (decideBars strategy s trades duration rowOf rest
        (decideBars strategy s trades duration rowOf bars state).1).2.map (results ++ ·) := by
  induction bars generalizing state results with
  | nil =>
    cases h
    simp only [List.nil_append, decideBars]
    cases (decideBars strategy s trades duration rowOf rest state).2 <;> rfl
  | cons bar tail ih =>
    simp only [List.cons_append, decideBars] at h ⊢
    split at h
    · cases h
    next state₁ result heq =>
      dsimp only at h ⊢
      cases htail : (decideBars strategy s trades duration rowOf tail state₁).2 with
      | error e =>
        rw [htail] at h
        cases h
      | ok results' =>
        rw [htail] at h
        cases h
        rw [ih htail]
        cases (decideBars strategy s trades duration rowOf rest
          (decideBars strategy s trades duration rowOf tail state₁).1).2 <;> rfl

end Decisions

/-! ## The loop of the evaluator -/

namespace Evaluator

variable {S : Type} {strategy : TradingStrategy S} {ev : Evaluator S} {duration : Time}

/-- The new watermark is the old one or the close of a bar of the batch. -/
theorem evaluateBars_watermark {throughClose : Option Time} {bars : List Bar} :
    ∀ t ∈ (ev.evaluateBars strategy duration throughClose bars).1.lastEvaluatedClose,
      t ∈ ev.lastEvaluatedClose ∨ ∃ b ∈ bars, t = b.closeTime duration := by
  induction bars generalizing ev with
  | nil => exact fun t ht => .inl ht
  | cons bar rest ih =>
    have hrest : ∀ {ev₁ : Evaluator S}, (∀ t ∈ ev₁.lastEvaluatedClose, t ∈ ev.lastEvaluatedClose ∨
        t = bar.closeTime duration) →
        ∀ t ∈ (ev₁.evaluateBars strategy duration throughClose rest).1.lastEvaluatedClose,
          t ∈ ev.lastEvaluatedClose ∨ ∃ b ∈ bar :: rest, t = b.closeTime duration := by
      intro ev₁ hev₁ t ht
      rcases ih t ht with hold | ⟨b, hb, rfl⟩
      · exact (hev₁ t hold).imp_right (fun heq => ⟨bar, by simp, heq⟩)
      · exact .inr ⟨b, by simp [hb], rfl⟩
    unfold evaluateBars
    dsimp only
    split
    · exact fun t ht => .inl ht
    · split
      · exact hrest (fun t ht => .inl ht)
      · split
        · exact fun t ht => .inl ht
        · split
          · exact hrest (fun t ht => .inl ht)
          next row _ =>
            have hrow : ∀ t ∈ (evaluateRow strategy { ev with
                strategy := (augmentIndicatorFrame strategy ev.strategy ev.rolling).1 } row
                (bar.closeTime duration)).1.lastEvaluatedClose,
                t ∈ ev.lastEvaluatedClose ∨ t = bar.closeTime duration := by
              intro t ht
              unfold evaluateRow at ht
              dsimp only at ht
              split at ht
              · exact .inl ht
              · split at ht
                · exact .inr (Option.mem_some_iff.mp ht).symm
                · exact .inl ht
            split
            next heq =>
              rw [heq] at hrow
              exact fun t ht => (hrow t ht).imp_right (fun heq => ⟨bar, by simp, heq⟩)
            next heq =>
              rw [heq] at hrow
              exact hrest hrow

theorem evaluateRow_eq {row : BarRow} {t : Time} (hmode : ev.replayMode = false)
    (hnew : ev.lastEvaluatedClose ≠ some t) :
    ev.evaluateRow strategy row t =
      match decideRow strategy ev.strategy ev.openTrade.toList ev.exitState row t with
      | (state, .error e) => ({ ev with exitState := state }, .error e)
      | (state, .ok result) =>
        ({ ev with exitState := state, lastEvaluatedClose := some t }, .ok result) := by
  simp only [evaluateRow, decideRow, hmode, hnew, decide_false, Bool.and_false, Bool.not_false,
    Bool.and_self, if_true]
  split
  next hsized => rw [hsized]
  next hsized => rw [hsized]

/-- The row of a bar in a window, up to the answers it gets. -/
def RowIn (strategy : TradingStrategy S) (s : S) (trades : List Trade) (rowOf : Bar → BarRow)
    (window : List Bar) (bar : Bar) : Prop :=
  ∃ frame row, (augmentIndicatorFrame strategy s window).2 = .ok frame ∧
    frame.loc bar.openTime = some row ∧ RowsAgree strategy s trades row (rowOf bar)

/-- The loop decides what the rows say, from an exit state that agrees. -/
theorem evaluateBars_decides (hs : strategy.Stateless) {s : S} {rowOf : Bar → BarRow}
    {bars : List Bar} {state : ExitState} (hmode : ev.replayMode = false) (hordered : Ordered bars)
    (hafter : ∀ b ∈ bars, ∀ t ∈ ev.lastEvaluatedClose, t < b.closeTime duration)
    (hrows : ∀ b ∈ bars, RowIn strategy s ev.openTrade.toList rowOf ev.rolling b)
    (hdecides : ∀ b ∈ bars, RowDecides strategy s (rowOf b))
    (hagree : ExitState.Agree strategy.exitParams ev.openTrade.toList ev.exitState state) :
    (ev.evaluateBars strategy duration none bars).2 =
        (decideBars strategy s ev.openTrade.toList duration rowOf bars state).2 ∧
      ExitState.Agree strategy.exitParams ev.openTrade.toList
        (ev.evaluateBars strategy duration none bars).1.exitState
        (decideBars strategy s ev.openTrade.toList duration rowOf bars state).1 := by
  induction bars generalizing ev state with
  | nil => exact ⟨rfl, hagree⟩
  | cons bar rest ih =>
    have hbar : bar ∈ bar :: rest := List.mem_cons_self
    have hlater : ev.lastEvaluatedClose.any (fun t => bar.closeTime duration < t) = false := by
      cases hlast : ev.lastEvaluatedClose with
      | none => rfl
      | some t => simpa using (hafter bar hbar t hlast).le
    have hnew : ev.lastEvaluatedClose ≠ some (bar.closeTime duration) :=
      fun heq => absurd (hafter bar hbar _ heq) (lt_irrefl _)
    obtain ⟨frame, row, hframe, hloc, hrow⟩ := hrows bar hbar
    rw [hs.augment s ev.strategy] at hframe
    obtain ⟨result, hresult, -⟩ := decideRow_ok (hdecides bar hbar) ev.openTrade.toList state
      (bar.closeTime duration)
    obtain ⟨hstate, hsame⟩ := decideRow_agree hs
      (augmentIndicatorFrame strategy ev.strategy ev.rolling).1 (t := bar.closeTime duration) hrow hagree
    unfold evaluateBars decideBars
    simp only [Option.any_none, Bool.false_eq_true, if_false, hlater, hframe, hloc]
    rw [evaluateRow_eq (by exact hmode) (by exact hnew)]
    cases hspec : decideRow strategy s ev.openTrade.toList state (rowOf bar) (bar.closeTime duration) with
    | mk state₁ r₁ =>
      cases hrun : decideRow strategy (augmentIndicatorFrame strategy ev.strategy ev.rolling).1
          ev.openTrade.toList ev.exitState row (bar.closeTime duration) with
      | mk state₂ r₂ =>
        rw [hspec] at hresult hstate hsame
        rw [hrun] at hstate hsame
        dsimp only at hresult hstate hsame
        subst hresult hsame
        have hlist := List.pairwise_cons.mp hordered
        -- The rest of the loop starts at the watermark of this bar.
        let ev₁ : Evaluator S := { ev with
          strategy := (augmentIndicatorFrame strategy ev.strategy ev.rolling).1
          exitState := state₂, lastEvaluatedClose := some (bar.closeTime duration) }
        have hafter₁ : ∀ b ∈ rest, ∀ t ∈ ev₁.lastEvaluatedClose, t < b.closeTime duration := by
          intro b hb t ht
          rw [← Option.mem_some_iff.mp ht]
          exact Int.add_lt_add_right (hlist.1 b hb) duration
        have hrows₁ : ∀ b ∈ rest, RowIn strategy s ev₁.openTrade.toList rowOf ev₁.rolling b :=
          fun b hb => hrows b (List.mem_cons_of_mem bar hb)
        have hmode₁ : ev₁.replayMode = false := hmode
        have hagree₁ : ExitState.Agree strategy.exitParams ev₁.openTrade.toList ev₁.exitState state₁ :=
          hstate
        have hrest := ih hmode₁ hlist.2 hafter₁ hrows₁
          (fun b hb => hdecides b (List.mem_cons_of_mem bar hb)) hagree₁
        dsimp only at hrest ⊢
        exact ⟨by rw [hrest.1], hrest.2⟩

/-! ## Consecutive batches -/

/-- `ingest_completed_bars` on one batch after another, up to the first exception. -/
def ingestAll (strategy : TradingStrategy S) :
    List (List Bar) → Evaluator S → Evaluator S × Except ExecutionError (List ForwardDecisionResult)
  | [], ev => (ev, .ok [])
  | batch :: rest, ev =>
    match ev.ingestCompletedBars strategy batch with
    | (ev, .error e) => (ev, .error e)
    | (ev, .ok results) =>
      let (ev, later) := ingestAll strategy rest ev
      (ev, later.map (results ++ ·))

theorem ingestCompletedBars_eq (strategy : TradingStrategy S) {bars : List Bar} (hne : bars ≠ [])
    (hduration : barDuration ev.timeframe = .ok duration) :
    ev.ingestCompletedBars strategy bars = evaluateBars strategy duration none (sortIndex bars)
      { ev with rolling := mergeWindow ev.rolling (sortIndex bars) ev.windowBound } := by
  simp only [ingestCompletedBars, if_neg hne, hduration]

/-- What is known of a run after the bars `seen`: the window ends with them and with bars `ahead`
that the next batch brings again, and the watermark is before every bar that is still to come. -/
structure Seen (ev : Evaluator S) (duration : Time) (trade : Option Trade) (seen ahead : List Bar) :
    Prop where
  replayMode : ev.replayMode = false
  timeframe : barDuration ev.timeframe = .ok duration
  openTrade : ev.openTrade = trade
  rolling : ev.rolling = trimRollingWindow (seen ++ ahead) ev.windowBound
  watermark : ∀ t ∈ ev.lastEvaluatedClose, ∃ b ∈ seen, t = b.closeTime duration

theorem Seen.ingest (strategy : TradingStrategy S) {trade : Option Trade}
    {seen ahead batch : List Bar} (h : ev.Seen duration trade seen ahead) (hne : batch ≠ []) (hordered : Ordered (seen ++ batch))
    (hahead : ahead.Sublist batch) :
    (ev.ingestCompletedBars strategy batch).1.Seen duration trade (seen ++ batch) [] ∧
      (ev.ingestCompletedBars strategy batch).1.windowBound = ev.windowBound := by
  have hbatch : Ordered batch := (List.pairwise_append.mp hordered).2.1
  have hwindow := mergeWindow_eq hordered hahead ev.windowBound
  rw [← h.rolling] at hwindow
  have hidentity := ev.ingestCompletedBars_identity strategy batch none
  rw [ingestCompletedBars_eq strategy hne h.timeframe] at hidentity ⊢
  have hsetting := evaluateBars_setting strategy { ev with
    rolling := mergeWindow ev.rolling (sortIndex batch) ev.windowBound } duration none
    (sortIndex batch)
  simp only [identity, setting, Prod.mk.injEq] at hidentity hsetting
  obtain ⟨-, htimeframe, hbound, hopen, hmode⟩ := hidentity
  refine ⟨⟨hmode.trans h.replayMode, ?_, hopen.trans h.openTrade, ?_, fun t ht => ?_⟩, hbound⟩
  · rw [htimeframe]
    exact h.timeframe
  · rw [hsetting.2.2.2.1, hbound, List.append_nil]
    exact hwindow
  · rcases evaluateBars_watermark t ht with hold | ⟨b, hb, rfl⟩
    · obtain ⟨b, hb, rfl⟩ := h.watermark t hold
      exact ⟨b, List.mem_append_left _ hb, rfl⟩
    · exact ⟨b, List.mem_append_right _ (mem_sortIndex.mp hb), rfl⟩

/-- The batches are not empty and not longer than the window. -/
def FitBatches (maxBars : ℕ) (batches : List (List Bar)) : Prop :=
  ∀ batch ∈ batches, batch ≠ [] ∧ (maxBars = 0 ∨ batch.length ≤ maxBars)

theorem Seen.ingestAll {trade : Option Trade} {seen : List Bar} {batches : List (List Bar)}
    (h : ev.Seen duration trade seen []) (hne : ∀ batch ∈ batches, batch ≠ [])
    (hordered : Ordered (seen ++ batches.flatten)) {ev' : Evaluator S}
    {results : List ForwardDecisionResult} (hrun : ev.ingestAll strategy batches = (ev', .ok results)) :
    ev'.Seen duration trade (seen ++ batches.flatten) [] ∧ ev'.windowBound = ev.windowBound := by
  induction batches generalizing ev seen ev' results with
  | nil =>
    cases hrun
    exact ⟨by simpa using h, rfl⟩
  | cons batch rest ih =>
    rw [List.flatten_cons, ← List.append_assoc] at hordered ⊢
    obtain ⟨hseen, hbound⟩ := h.ingest strategy (hne batch (by simp))
      (List.pairwise_append.mp hordered).1 (List.nil_sublist batch)
    unfold Evaluator.ingestAll at hrun
    split at hrun
    · cases hrun
    next ev₁ results₁ heq =>
      rw [heq] at hseen hbound
      cases hrest : Evaluator.ingestAll strategy rest ev₁ with
      | mk ev₂ results₂ =>
        rw [hrest] at hrun
        cases results₂ with
        | error e => cases hrun
        | ok results₂ =>
          cases hrun
          obtain ⟨hfinal, hsame⟩ :=
            ih hseen (fun b hb => hne b (List.mem_cons_of_mem batch hb)) hordered hrest
          exact ⟨hfinal, hsame.trans hbound⟩

/-- The rows of the later bars are the same in every window of the history that still holds the
bar `last` or is full. -/
def RowsKnown (strategy : TradingStrategy S) (s : S) (trades : List Trade) (rowOf : Bar → BarRow)
    (history : List Bar) (last : Bar) (maxBars : ℕ) (later : Bar → Prop) : Prop :=
  ∀ window, window <:+: history → (last ∈ window ∨ window.length = maxBars) →
    ∀ bar ∈ window, later bar → RowIn strategy s trades rowOf window bar

/-- A run over later bars decides what their rows say, for every way to cut it into batches. -/
theorem ingestAll_decides (hs : strategy.Stateless) {s : S} {rowOf : Bar → BarRow}
    {history : List Bar} {last : Bar} {later : Bar → Prop} {trade : Option Trade}
    {seen ahead : List Bar} {batches : List (List Bar)} {state : ExitState}
    (hhistory : Ordered history)
    (hrows : RowsKnown strategy s trade.toList rowOf history last ev.windowBound later)
    (hdecides : ∀ b, later b → RowDecides strategy s (rowOf b))
    (h : ev.Seen duration trade seen ahead) (hlast : last ∈ seen)
    (hahead : ahead.Sublist (batches.headD [])) (hmiddle : seen ++ batches.flatten <:+: history)
    (hlater : ∀ b ∈ batches.flatten, later b) (hfit : FitBatches ev.windowBound batches)
    (hagree : ExitState.Agree strategy.exitParams trade.toList ev.exitState state) :
    (ev.ingestAll strategy batches).2 =
      (decideBars strategy s trade.toList duration rowOf batches.flatten state).2 := by
  induction batches generalizing ev seen ahead state with
  | nil => rfl
  | cons batch rest ih =>
    obtain rfl := h.openTrade
    rw [List.flatten_cons, ← List.append_assoc] at hmiddle
    rw [List.flatten_cons] at hlater ⊢
    have hall : Ordered (seen ++ batch ++ rest.flatten) := hhistory.sublist hmiddle.sublist
    have hordered : Ordered (seen ++ batch) := (List.pairwise_append.mp hall).1
    have hbatch : Ordered batch := (List.pairwise_append.mp hordered).2.1
    obtain ⟨hne, hsize⟩ := hfit batch (by simp)
    obtain ⟨hseen, hbound⟩ := h.ingest strategy hne hordered hahead
    have hwindow := mergeWindow_eq hordered hahead ev.windowBound
    rw [← h.rolling] at hwindow
    -- Every bar of the batch is in the merged window, and the window is one of the known ones.
    have hrowsIn : ∀ b ∈ batch, RowIn strategy s ev.openTrade.toList rowOf
        (mergeWindow ev.rolling (sortIndex batch) ev.windowBound) b := by
      intro b hb
      rw [hwindow]
      have hsuffix := trimRollingWindow_suffix (seen ++ batch) ev.windowBound
      refine hrows _ (hsuffix.isInfix.trans ((List.infix_append' [] _ rest.flatten).trans hmiddle))
        ?_ b ?_ (hlater b (List.mem_append_left _ hb))
      · rcases length_trimRollingWindow (seen ++ batch) ev.windowBound with heq | ⟨-, hfull⟩
        · rw [heq]
          exact .inl (List.mem_append_left _ hlast)
        · exact .inr hfull
      · rcases length_trimRollingWindow (seen ++ batch) ev.windowBound with heq | ⟨hpos, hfull⟩
        · rw [heq]
          exact List.mem_append_right _ hb
        · have hle : batch.length ≤ (trimRollingWindow (seen ++ batch) ev.windowBound).length := by
            omega
          exact (List.suffix_of_suffix_length_le (List.suffix_append seen batch) hsuffix hle).subset hb
    have hafter : ∀ b ∈ batch, ∀ t ∈ ev.lastEvaluatedClose, t < b.closeTime duration := by
      intro b hb t ht
      obtain ⟨b₀, hb₀, rfl⟩ := h.watermark t ht
      exact Int.add_lt_add_right ((List.pairwise_append.mp hordered).2.2 b₀ hb₀ b hb) duration
    have hdecidesIn : ∀ b ∈ batch, RowDecides strategy s (rowOf b) :=
      fun b hb => hdecides b (hlater b (List.mem_append_left _ hb))
    let ev₀ : Evaluator S :=
      { ev with rolling := mergeWindow ev.rolling (sortIndex batch) ev.windowBound }
    have hmode₀ : ev₀.replayMode = false := h.replayMode
    have hrows₀ : ∀ b ∈ batch, RowIn strategy s ev₀.openTrade.toList rowOf ev₀.rolling b := hrowsIn
    have hafter₀ : ∀ b ∈ batch, ∀ t ∈ ev₀.lastEvaluatedClose, t < b.closeTime duration := hafter
    have hagree₀ : ExitState.Agree strategy.exitParams ev₀.openTrade.toList ev₀.exitState state :=
      hagree
    have hdecide := evaluateBars_decides hs hmode₀ hbatch hafter₀ hrows₀ hdecidesIn hagree₀
    obtain ⟨results, hresults, -⟩ :=
      decideBars_ok hdecidesIn ev.openTrade.toList duration state
    rw [decideBars_append hresults]
    have heq : ev.ingestCompletedBars strategy batch = ev₀.evaluateBars strategy duration none batch := by
      rw [ingestCompletedBars_eq strategy hne h.timeframe]
      simp only [ev₀, hbatch.sortIndex_eq]
    unfold Evaluator.ingestAll
    cases hrun : ev.ingestCompletedBars strategy batch with
    | mk ev₁ results₁ =>
      rw [hrun] at heq hseen hbound
      rw [← heq] at hdecide
      obtain ⟨hsame, hstate⟩ := hdecide
      dsimp only at hsame hstate hbound hseen
      rw [hresults] at hsame
      subst hsame
      dsimp only
      rw [ih (by rw [hbound]; exact hrows) hseen (List.mem_append_left _ hlast)
        (List.nil_sublist _) (by simpa using hmiddle)
        (fun b hb => hlater b (List.mem_append_right _ hb))
        (by rw [hbound]; exact fun x hx => hfit x (List.mem_cons_of_mem batch hx)) hstate]

end Evaluator

end QBackend.Execution
